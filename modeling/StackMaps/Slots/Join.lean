import StackMaps.Hierarchy.Supertype
import StackMaps.Slots.Basic

/-!
# Joining slots

Where two paths meet, every slot takes the join of what the paths know of it. A
slot that has been joined too often is widened: it becomes `top` as soon as it
would change again.
-/

namespace StackMaps
namespace Hierarchy

/-- The join of two types. A null is an object of every class, two classes meet
in their common supertype, and other types that differ meet in `top`. -/
def joinType (hierarchy : Hierarchy) (first second : SlotType) : SlotType :=
  if first = second then first
  else
    match first, second with
    | .null, .object type => .object type
    | .object type, .null => .object type
    | .object firstType, .object secondType =>
        .object (hierarchy.commonSupertype firstType secondType)
    | _, _ => .top

/-- The join of two slots. An unknown slot contributes nothing. -/
def join (hierarchy : Hierarchy) : Slot → Slot → Slot
  | none, second => second
  | some first, none => some first
  | some first, some second => some (hierarchy.joinType first second)

/-- Join a slot into an existing one, or widen that one if it would change. -/
def mergeSlot (hierarchy : Hierarchy) (widen : Bool) (existing incoming : Slot) : Slot :=
  let joined := hierarchy.join existing incoming
  if joined = existing then existing
  else if widen then some .top
  else joined

/-- Join slots into existing ones from the left. Missing ones count as
unknown. -/
def mergeSlots
    (hierarchy : Hierarchy)
    (widen : Bool)
    (existing incoming : List Slot) : List Slot :=
  let missing := List.replicate (incoming.length - existing.length) none
  List.zipWith (hierarchy.mergeSlot widen) (existing ++ missing) incoming ++
    existing.drop incoming.length

/-- Join the slots of a stack into an existing one, from the bottom. -/
def mergeStack
    (hierarchy : Hierarchy)
    (widen : Bool)
    (existing incoming : Stack) : Stack :=
  .ofList (hierarchy.mergeSlots widen existing.slots.reverse incoming.slots.reverse).reverse

/-- The exception that a handler for some classes finds on the stack. -/
def caughtType (hierarchy : Hierarchy) (classes : List BinaryName) : Slot :=
  classes.foldl (fun caught name => hierarchy.join caught (some (.object (.object name)))) none

end Hierarchy
end StackMaps
