/-!
# Labels

A label stands for a position in a method body without naming it. Labels are
numbered in the order in which they are issued.
-/

namespace StackMaps

/-- A label, by the number under which it was issued. -/
structure Label where
  id : Nat
  deriving DecidableEq, Hashable, Inhabited

namespace Label

/-- The written form of a label. -/
def text (label : Label) : String :=
  "L" ++ toString label.id

/-- The label issued after this one. -/
def next (label : Label) : Label :=
  ⟨label.id + 1⟩

end Label

end StackMaps
