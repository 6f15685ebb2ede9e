import StackMaps.VerificationType

/-!
# Slots

The abstract state of a method body at one point: what is known of every local
slot and of every slot of the operand stack. A wide value takes two slots, its
own type and `top` behind it. An unknown slot is one about which nothing has
been found out.
-/

namespace StackMaps

/-- The type of a slot during the analysis. An uninitialized object is known by
the position of its allocation in the body. -/
abbrev SlotType := VerificationType RefType Nat

/-- What is known of a slot. -/
abbrev Slot := Option SlotType

/-- An operand stack, the top of which comes first, with its depth at hand. -/
structure Stack where
  slots : List Slot
  depth : Nat
  depth_eq : depth = slots.length
  deriving DecidableEq

namespace Stack

/-- The stack of some slots, the top of which comes first. -/
def ofList (slots : List Slot) : Stack := ⟨slots, slots.length, rfl⟩

/-- The stack without slots. -/
def empty : Stack := ofList []

/-- Put a slot on top. -/
def push (stack : Stack) (slot : Slot) : Stack where
  slots := slot :: stack.slots
  depth := stack.depth + 1
  depth_eq := by simp [stack.depth_eq]

/-- Remove slots from the top, as far as there are any. -/
def drop (stack : Stack) (count : Nat) : Stack where
  slots := stack.slots.drop count
  depth := stack.depth - count
  depth_eq := by simp [stack.depth_eq]

/-- Change every slot. -/
def map (stack : Stack) (change : Slot → Slot) : Stack where
  slots := stack.slots.map change
  depth := stack.depth
  depth_eq := by simp [stack.depth_eq]

/-- Put slots on top, the first of which comes to lie above the others. -/
def pushAll (stack : Stack) (slots : List Slot) : Stack where
  slots := slots ++ stack.slots
  depth := slots.length + stack.depth
  depth_eq := by simp [stack.depth_eq]

/-- Two stacks with the same slots are the same. -/
@[ext] theorem ext {left right : Stack} (slots_eq : left.slots = right.slots) :
    left = right := by
  obtain ⟨slots, depth, depth_eq⟩ := left
  obtain ⟨otherSlots, otherDepth, otherDepth_eq⟩ := right
  simp only at slots_eq
  subst slots_eq depth_eq otherDepth_eq
  rfl

@[simp] theorem slots_ofList (slots : List Slot) : (ofList slots).slots = slots := rfl

@[simp] theorem slots_push (stack : Stack) (slot : Slot) :
    (stack.push slot).slots = slot :: stack.slots := rfl

@[simp] theorem slots_drop (stack : Stack) (count : Nat) :
    (stack.drop count).slots = stack.slots.drop count := rfl

@[simp] theorem slots_map (stack : Stack) (change : Slot → Slot) :
    (stack.map change).slots = stack.slots.map change := rfl

@[simp] theorem slots_pushAll (stack : Stack) (slots : List Slot) :
    (stack.pushAll slots).slots = slots ++ stack.slots := rfl

end Stack

/-- The slots at one point of a body. -/
structure SlotState where
  locals : List Slot
  stack : Stack
  deriving DecidableEq

namespace SlotState

/-- The state without slots. -/
def empty : SlotState := ⟨[], .empty⟩

/-- Push a slot as it is. -/
def pushSlot (state : SlotState) (slot : Slot) : SlotState :=
  { state with stack := state.stack.push slot }

/-- Push a value, which takes two slots if it is wide. -/
def push (state : SlotState) (type : SlotType) : SlotState :=
  if type.isWide then (state.pushSlot (some type)).pushSlot (some .top)
  else state.pushSlot (some type)

/-- Push a value with the type of a field. -/
def pushField (state : SlotState) (type : FieldType) : SlotState :=
  state.push (.ofFieldType type)

/-- The slot on top of the stack. There is an unknown one below the bottom. -/
def peek (state : SlotState) : Slot :=
  state.stack.slots.headD none

/-- Remove slots from the top of the stack, as far as there are any. -/
def drop (state : SlotState) (count : Nat) : SlotState :=
  { state with stack := state.stack.drop count }

/-- Make a list of locals long enough for an index. -/
def extendTo (locals : List Slot) (index : Nat) : List Slot :=
  if index < locals.length then locals
  else locals ++ List.replicate (index + 1 - locals.length) none

/-- The slot of a local variable. -/
def localSlot (state : SlotState) (index : Nat) : Slot :=
  (state.locals[index]?).join

/-- Make a local variable exist that is about to be read. -/
def touch (state : SlotState) (index : Nat) : SlotState :=
  { state with locals := extendTo state.locals index }

/-- Is the slot the first half of a wide value? -/
def isWideSlot : Slot → Bool
  | some type => type.isWide
  | none => false

/-- A slot is about to change: a wide value whose second half it was is lost. -/
def breakWideBefore (locals : List Slot) : Nat → List Slot
  | 0 => locals
  | index + 1 =>
      locals.modify index fun slot => if isWideSlot slot then some .top else slot

/-- Write a local variable. The second half of a wide value is `top`. -/
def store (state : SlotState) (index : Nat) (slot : Slot) : SlotState :=
  let wide := isWideSlot slot
  let locals := extendTo state.locals (if wide then index + 1 else index)
  let written := (breakWideBefore locals index).set index slot
  { state with
    locals := if wide then written.set (index + 1) (some .top) else written }

/-- Replace a type by another one in all slots. -/
def replaceAll (state : SlotState) (old new : SlotType) : SlotState :=
  let replace (slot : Slot) : Slot := if slot = some old then some new else slot
  ⟨state.locals.map replace, state.stack.map replace⟩

/-- Keep only the bottom of the stack, where a handler finds its exception. -/
def enterHandler (state : SlotState) : SlotState :=
  { state with stack := .ofList [state.stack.slots.getLastD none] }

end SlotState

end StackMaps
