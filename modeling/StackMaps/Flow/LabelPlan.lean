import StackMaps.Body.Basic
import Std.Data.HashMap

/-!
# Label plans

Frames refer to positions of a body by labels. A label that marks the position,
or the one just before it, is used again. For the other positions a plan issues
new labels, one for each, which are to be put into the body afterwards.
-/

namespace StackMaps

/-- The labels that have been issued for positions of a body. -/
structure LabelPlan where
  instructions : Array Instruction
  /-- The next label to be issued. -/
  nextLabel : Label
  /-- The labels that have been issued, by position. -/
  issued : Std.HashMap Nat Label
  /-- The same labels, the latest first. -/
  placements : List (Nat × Label)

namespace LabelPlan

/-- The plan for a body, before any label is issued. -/
def ofBody (body : Body) : LabelPlan :=
  { instructions := body.instructions.toArray
    nextLabel := body.nextLabel
    issued := ∅
    placements := [] }

/-- The label that the instruction at a position marks. -/
def markAt? (plan : LabelPlan) (position : Nat) : Option Label :=
  (plan.instructions[position]?).bind Instruction.marks?

/-- The label in the body that can stand for a position. -/
def existing? (plan : LabelPlan) (position : Nat) : Option Label :=
  match plan.markAt? position with
  | some label => some label
  | none =>
      match position with
      | 0 => none
      | before + 1 => plan.markAt? before

/-- The label that stands for a position, if there is one already. -/
def find? (plan : LabelPlan) (position : Nat) : Option Label :=
  match plan.existing? position with
  | some label => some label
  | none => plan.issued[position]?

/-- Issue a label for a position that has none. -/
def demand (plan : LabelPlan) (position : Nat) : LabelPlan :=
  match plan.find? position with
  | some _ => plan
  | none =>
      { plan with
        nextLabel := plan.nextLabel.next
        issued := plan.issued.insert position plan.nextLabel
        placements := (position, plan.nextLabel) :: plan.placements }

/-- The label for a position that has been demanded. -/
def label (plan : LabelPlan) (position : Nat) : Label :=
  (plan.find? position).getD plan.nextLabel

/-- The issued labels in the order of their positions. -/
def injections (plan : LabelPlan) : List (Nat × Label) :=
  plan.placements.reverse.mergeSort fun left right => left.1 ≤ right.1

end LabelPlan

end StackMaps
