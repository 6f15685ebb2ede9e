import StackMaps.Label
import Std.Data.HashMap

/-!
# Label tables

The labels of a body by the names that its listing gives them. Labels are
numbered in the order in which their names are first mentioned, whether by a
jump, by a range or by a mark.
-/

namespace StackMaps

instance : LawfulHashable Label := ⟨fun _ _ equal => by rw [eq_of_beq equal]⟩

/-- The names that a body has mentioned so far. -/
structure LabelTable where
  /-- The label of every name, with the line on which it was first mentioned. -/
  known : Std.HashMap String (Label × Nat)
  /-- The line of the mark of every label that has one. -/
  placed : Std.HashMap Label Nat
  /-- The label for the next new name. -/
  nextLabel : Label

namespace LabelTable

/-- The table before any name is mentioned. -/
def empty : LabelTable :=
  { known := ∅, placed := ∅, nextLabel := ⟨0⟩ }

/-- Mention a name, which issues a label for it if it is new. -/
def mention (table : LabelTable) (line : Nat) (name : String) : Label × LabelTable :=
  match table.known[name]? with
  | some (label, _) => (label, table)
  | none =>
      (table.nextLabel,
        { table with
          known := table.known.insert name (table.nextLabel, line)
          nextLabel := table.nextLabel.next })

/-- Is the first name to be reported before the second, when both lack a mark? -/
def reportsBefore (first second : String × Label × Nat) : Bool :=
  first.2.2 < second.2.2 ||
    (first.2.2 == second.2.2 && first.2.1.id < second.2.1.id)

/-- The first name without a mark, by the line on which it was first mentioned,
and that line. -/
def unplaced? (table : LabelTable) : Option (String × Nat) :=
  let missing := table.known.toList.filter fun entry => !table.placed.contains entry.2.1
  let first? := missing.foldl
    (fun first? entry =>
      match first? with
      | none => some entry
      | some first => if reportsBefore entry first then some entry else some first)
    none
  first?.map fun entry => (entry.1, entry.2.2)

end LabelTable

end StackMaps
