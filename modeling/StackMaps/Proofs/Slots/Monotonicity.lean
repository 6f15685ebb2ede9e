import StackMaps.Proofs.Hierarchy.Ancestors
import StackMaps.Proofs.Slots.StateOrder

/-!
# Monotonicity of instructions

Most instructions keep the order of states, but three kinds of them look at what they find: a
store asks whether a value is wide, an array load asks for the type of the elements, and the
end of a constructor asks which object it has initialized. They keep the order exactly if they
find alike things in both states.
-/

namespace StackMaps

/-- Is this the type of an object whose constructor has not run? -/
def VerificationType.isUninitialized {Operand Origin : Type} :
    VerificationType Operand Origin → Bool
  | .uninitializedThis | .uninitialized _ => true
  | _ => false

/-- The instruction neither accesses a variable nor loads a reference out of an array nor calls
a constructor. -/
structure Instruction.IsBlind (instruction : Instruction) : Prop where
  noAccess : instruction.localAccess? = none
  noElement : instruction ≠ .simple .aaload
  noConstructor : ∀ owner descriptor interface,
    instruction ≠ .method .invokespecial owner UnqualifiedName.init descriptor interface

namespace SlotState

/-- Two states hold the same type in the same place. -/
def Shares (lower upper : SlotState) (type : SlotType) : Prop :=
  (∃ index, lower.localSlot index = some type ∧ upper.localSlot index = some type) ∨
    ∃ depth, lower.slotAt depth = some type ∧ upper.slotAt depth = some type

/-- A store finds a wide value in both states or in none of them. Otherwise there is a
variable behind the written one, which is `top` already if the upper state does not write
it. -/
def StoresAlike (lower upper : SlotState) (access : LocalAccess) : Prop :=
  let written := lower.slotAt (access.kind.width - 1)
  let other := upper.slotAt (access.kind.width - 1)
  isWideSlot written = isWideSlot other ∨
    access.index + 1 < upper.locals.length ∧
      (isWideSlot written = true → upper.localSlot (access.index + 1) = some .top)

/-- A constructor has the same receiver in both states, or else no place of both of them
holds an object that it initializes in one of them. -/
def CompletesAlike (lower upper : SlotState) : Prop :=
  lower.peek = upper.peek ∨
    ∀ type : SlotType, type.isUninitialized = true →
      lower.peek = some type ∨ upper.peek = some type →
      ¬(lower.drop 1).Shares (upper.drop 1) type

/-- What an instruction finds in the upper state tells it no less than what it finds in the
lower one. -/
structure ActsAlike (lower upper : SlotState) (instruction : Instruction) : Prop where
  stores : ∀ access, instruction.localAccess? = some access → access.isStore = true →
    lower.StoresAlike upper access
  takes : instruction = .simple .aaload → elementOf (upper.slotAt 1) = none →
    elementOf (lower.slotAt 1) = none
  completes : ∀ owner descriptor interface,
    instruction = .method .invokespecial owner UnqualifiedName.init descriptor interface →
    (lower.drop (descriptor.parameterLength false)).CompletesAlike
      (upper.drop (descriptor.parameterLength false))

end SlotState

variable {hierarchy : Hierarchy}

/-! ## Slots -/

namespace Hierarchy

open SlotState

/-- An uninitialized object is below nothing but itself and `top`. -/
theorem uninitialized_slotLe_iff
    {mark : SlotType}
    (uninitialized : mark.isUninitialized = true)
    {slot : Slot} :
    hierarchy.SlotLe (some mark) slot ↔ slot = some mark ∨ slot = some .top := by
  rw [slotLe_iff]
  constructor
  · rintro (absent | same | isTop | ⟨_, _, isNull | ⟨_, isObject, _⟩⟩)
    · cases absent
    · exact Or.inl same.symm
    · exact Or.inr isTop
    · cases isNull
      cases uninitialized
    · cases isObject
      cases uninitialized
  · rintro (same | isTop)
    · exact Or.inr (Or.inl same.symm)
    · exact Or.inr (Or.inr (Or.inl isTop))

/-- Nothing is below an uninitialized object but itself and an unknown slot. -/
theorem slotLe_uninitialized_iff
    {mark : SlotType}
    (uninitialized : mark.isUninitialized = true)
    {slot : Slot} :
    hierarchy.SlotLe slot (some mark) ↔ slot = none ∨ slot = some mark := by
  rw [slotLe_iff]
  constructor
  · rintro (absent | same | isTop | ⟨_, isObject, _⟩)
    · exact Or.inl absent
    · exact Or.inr same
    · cases isTop
      cases uninitialized
    · cases isObject
      cases uninitialized
  · rintro (absent | same)
    · exact Or.inl absent
    · exact Or.inr (Or.inl same)

theorem elementOf_eq_some_iff {slot : Slot} {type : SlotType} :
    elementOf slot = some type ↔
      slot = some .null ∧ type = .null ∨
        ∃ array element, slot = some (.object array) ∧ array.element? = some (.ref element) ∧
          type = .object element := by
  constructor
  · intro found
    unfold elementOf at found
    split at found
    next array =>
        split at found
        next element element_eq =>
            exact Or.inr ⟨array, element, rfl, element_eq, (Option.some.inj found).symm⟩
        next => cases found
    next => exact Or.inl ⟨rfl, (Option.some.inj found).symm⟩
    next => cases found
  · rintro (⟨rfl, rfl⟩ | ⟨array, element, rfl, element_eq, rfl⟩)
    · rfl
    · simp only [elementOf, element_eq]

/-- What is known of the elements of an array is below those of an array to which it is
assignable. -/
theorem elementOf_slotLe_of_isAssignable
    {array other element : RefType}
    (assignable : hierarchy.isAssignable array other = true)
    (element_eq : array.element? = some (.ref element)) :
    hierarchy.SlotLe (elementOf (some (.object other))) (some (.object element)) := by
  cases found : elementOf (some (.object other)) with
  | none => exact none_slotLe _
  | some type =>
      rcases elementOf_eq_some_iff.mp found with
        ⟨isNull, _⟩ | ⟨_, otherElement, same, otherElement_eq, rfl⟩
      · cases isNull
      · cases same
        apply object_slotLe_object
        exact isAssignable_element assignable element_eq otherElement_eq

/-- Less is known of the elements of a lower array, unless nothing is known of those of the
upper one. -/
theorem SlotLe.elementOf_iff
    {lower upper : Slot}
    (le : hierarchy.SlotLe lower upper) :
    hierarchy.SlotLe (elementOf lower) (elementOf upper) ↔
      (elementOf upper = none → elementOf lower = none) := by
  cases upper_eq : elementOf upper with
  | none => simp [slotLe_none_iff]
  | some type =>
      refine iff_of_true ?_ (fun absent => by cases absent)
      rcases elementOf_eq_some_iff.mp upper_eq with
        ⟨rfl, rfl⟩ | ⟨array, element, rfl, element_eq, rfl⟩
      · rcases slotLe_iff.mp le with rfl | rfl | isTop | ⟨_, isObject, _⟩
        · exact none_slotLe _
        · exact SlotLe.refl _
        · cases isTop
        · cases isObject
      · rcases slotLe_iff.mp le with rfl | rfl | isTop | ⟨_, same, rfl | ⟨other, rfl, assignable⟩⟩
        · exact none_slotLe _
        · exact upper_eq ▸ SlotLe.refl _
        · cases isTop
        · exact null_slotLe_object element
        · cases same
          exact elementOf_slotLe_of_isAssignable assignable element_eq

section Replacing

variable {mark : SlotType} (uninitialized : mark.isUninitialized = true)
variable {type : RefType} {lower upper : Slot} (le : hierarchy.SlotLe lower upper)

include uninitialized le

/-- If a constructor initializes the same object in both slots, the order is kept. -/
theorem SlotLe.replace :
    hierarchy.SlotLe (if lower = some mark then some (.object type) else lower)
      (if upper = some mark then some (.object type) else upper) := by
  by_cases same : upper = some mark
  · rw [if_pos same]
    rcases (slotLe_uninitialized_iff uninitialized).mp (same ▸ le) with rfl | rfl
    · exact none_slotLe _
    · rw [if_pos rfl]
      exact SlotLe.refl _
  · rw [if_neg same]
    split
    next isMark =>
        rcases (uninitialized_slotLe_iff uninitialized).mp (isMark ▸ le) with isMark | rfl
        · exact absurd isMark same
        · exact slotLe_top _
    next => exact le

theorem SlotLe.replace_left_iff :
    hierarchy.SlotLe (if lower = some mark then some (.object type) else lower) upper ↔
      ¬(lower = some mark ∧ upper = some mark) := by
  by_cases isMark : lower = some mark
  · rw [if_pos isMark]
    rcases (uninitialized_slotLe_iff uninitialized).mp (isMark ▸ le) with rfl | rfl
    · refine iff_of_false (fun below => ?_) (fun apart => apart ⟨isMark, rfl⟩)
      rcases (slotLe_uninitialized_iff uninitialized).mp below with absent | same
      · cases absent
      · cases same
        cases uninitialized
    · refine iff_of_true (slotLe_top _) fun both => ?_
      cases both.2
      cases uninitialized
  · rw [if_neg isMark]
    exact iff_of_true le fun both => isMark both.1

theorem SlotLe.replace_right_iff :
    hierarchy.SlotLe lower (if upper = some mark then some (.object type) else upper) ↔
      ¬(lower = some mark ∧ upper = some mark) := by
  by_cases isMark : upper = some mark
  · rw [if_pos isMark]
    rcases (slotLe_uninitialized_iff uninitialized).mp (isMark ▸ le) with rfl | rfl
    · exact iff_of_true (none_slotLe _) fun both => by cases both.1
    · refine iff_of_false (fun below => ?_) (fun apart => apart ⟨rfl, isMark⟩)
      rcases (uninitialized_slotLe_iff uninitialized).mp below with same | isTop
      · cases same
        cases uninitialized
      · cases isTop
  · rw [if_neg isMark]
    exact iff_of_true le fun both => isMark both.2

end Replacing

/-! ## Local variables -/

variable {lower upper : SlotState}

/-- A load keeps the order, and a store does if it finds alike slots. -/
theorem StateLe.access_iff (le : hierarchy.StateLe lower upper) (access : LocalAccess) :
    hierarchy.StateLe (lower.access access) (upper.access access) ↔
      (access.isStore = true → lower.StoresAlike upper access) := by
  obtain ⟨index, kind, isStore⟩ := access
  cases isStore with
  | true =>
      simp only [SlotState.access, if_true, true_implies]
      exact (le.drop kind.width).store_iff (le.slotAt (kind.width - 1)) index
  | false =>
      refine iff_of_true ?_ (fun isStore => by cases isStore)
      cases kind with
      | reference =>
          have touched : hierarchy.StateLe (lower.touch index) (upper.touch index) := by
            refine ⟨?_, fun place => ?_, le.depth, le.slotAt⟩
            · rw [length_locals_touch, length_locals_touch, le.length_locals]
            · rw [localSlot_touch, localSlot_touch]
              exact le.localSlot place
          exact touched.pushSlot_iff.mpr (le.localSlot index)
      | int => exact le.push .integer
      | float => exact le.push .float
      | long => exact le.push .long
      | double => exact le.push .double

/-! ## Constructors -/

/-- Changes that put slots out of order where both states hold a type, and only there. -/
theorem stateLe_iff_not_shares
    {left right : SlotState}
    {type : SlotType}
    (length_locals : left.locals.length = right.locals.length)
    (depth_eq : left.stack.depth = right.stack.depth)
    (localSlot : ∀ index, hierarchy.SlotLe (left.localSlot index) (right.localSlot index) ↔
      ¬(lower.localSlot index = some type ∧ upper.localSlot index = some type))
    (slotAt : ∀ depth, hierarchy.SlotLe (left.slotAt depth) (right.slotAt depth) ↔
      ¬(lower.slotAt depth = some type ∧ upper.slotAt depth = some type)) :
    hierarchy.StateLe left right ↔ ¬lower.Shares upper type := by
  rw [Shares, not_or, not_exists, not_exists]
  constructor
  · intro le
    exact ⟨fun index => (localSlot index).mp (le.localSlot index),
      fun depth => (slotAt depth).mp (le.slotAt depth)⟩
  · rintro ⟨localsApart, stackApart⟩
    exact ⟨length_locals, fun index => (localSlot index).mpr (localsApart index), depth_eq,
      fun depth => (slotAt depth).mpr (stackApart depth)⟩

section Replacing

variable {mark : SlotType} (uninitialized : mark.isUninitialized = true)
variable (le : hierarchy.StateLe lower upper) (type : RefType)

include uninitialized le

/-- If a constructor initializes the same object in both states, the order is kept. -/
theorem StateLe.replaceAll :
    hierarchy.StateLe (lower.replaceAll mark (.object type))
      (upper.replaceAll mark (.object type)) where
  length_locals := by simpa using le.length_locals
  depth := le.depth
  localSlot index := by
    rw [localSlot_replaceAll, localSlot_replaceAll]
    exact (le.localSlot index).replace uninitialized
  slotAt depth := by
    rw [slotAt_replaceAll, slotAt_replaceAll]
    exact (le.slotAt depth).replace uninitialized

/-- If a constructor initializes an object in the lower state only, the order is kept
exactly if this object does not lie in the same place of both states. -/
theorem StateLe.replaceAll_left_iff :
    hierarchy.StateLe (lower.replaceAll mark (.object type)) upper ↔
      ¬lower.Shares upper mark := by
  apply stateLe_iff_not_shares
  · simpa using le.length_locals
  · exact le.depth
  · intro index
    rw [localSlot_replaceAll]
    exact (le.localSlot index).replace_left_iff uninitialized
  · intro depth
    rw [slotAt_replaceAll]
    exact (le.slotAt depth).replace_left_iff uninitialized

/-- The same holds of the upper state. -/
theorem StateLe.replaceAll_right_iff :
    hierarchy.StateLe lower (upper.replaceAll mark (.object type)) ↔
      ¬lower.Shares upper mark := by
  apply stateLe_iff_not_shares
  · simpa using le.length_locals
  · exact le.depth
  · intro index
    rw [localSlot_replaceAll]
    exact (le.localSlot index).replace_right_iff uninitialized
  · intro depth
    rw [slotAt_replaceAll]
    exact (le.slotAt depth).replace_right_iff uninitialized

end Replacing

/-- A constructor replaces an uninitialized receiver by a type that does not depend on the
state. -/
theorem exists_completeReceiver_eq
    {mark : SlotType}
    (uninitialized : mark.isUninitialized = true)
    (context : MethodContext)
    (owner : BinaryName) :
    ∃ type : RefType, ∀ state : SlotState,
      state.completeReceiver context (some mark) owner =
        state.replaceAll mark (.object type) := by
  cases mark with
  | uninitialized origin => exact ⟨_, fun _ => rfl⟩
  | uninitializedThis => exact ⟨_, fun _ => rfl⟩
  | _ => cases uninitialized

theorem completeReceiver_of_not_isUninitialized
    {receiver : Slot}
    (initialized : ∀ mark : SlotType, mark.isUninitialized = true → receiver ≠ some mark)
    (state : SlotState)
    (context : MethodContext)
    (owner : BinaryName) :
    state.completeReceiver context receiver owner = state := by
  unfold SlotState.completeReceiver
  split
  · exact absurd rfl (initialized _ rfl)
  · exact absurd rfl (initialized _ rfl)
  · rfl

theorem top_ne_uninitialized
    {mark : SlotType}
    (uninitialized : mark.isUninitialized = true) :
    (some .top : Slot) ≠ some mark := by
  rintro same
  cases same
  cases uninitialized

/-- Ordered receivers that differ are an uninitialized object that is `top` or unknown in the
other state, unless none of them is uninitialized. -/
theorem SlotLe.receiver_cases
    {receiver other : Slot}
    (le : hierarchy.SlotLe receiver other) :
    receiver = other ∨
      (∃ mark : SlotType, mark.isUninitialized = true ∧
        (receiver = some mark ∧ other = some .top ∨ receiver = none ∧ other = some mark)) ∨
      ∀ mark : SlotType, mark.isUninitialized = true →
        receiver ≠ some mark ∧ other ≠ some mark := by
  by_cases same : receiver = other
  · exact Or.inl same
  · by_cases marked : ∃ mark : SlotType, mark.isUninitialized = true ∧
        (receiver = some mark ∨ other = some mark)
    · obtain ⟨mark, uninitialized, rfl | rfl⟩ := marked
      · rcases (uninitialized_slotLe_iff uninitialized).mp le with isSame | isTop
        · exact absurd isSame.symm same
        · exact Or.inr (Or.inl ⟨mark, uninitialized, Or.inl ⟨rfl, isTop⟩⟩)
      · rcases (slotLe_uninitialized_iff uninitialized).mp le with absent | isSame
        · exact Or.inr (Or.inl ⟨mark, uninitialized, Or.inr ⟨absent, rfl⟩⟩)
        · exact absurd isSame same
    · refine Or.inr (Or.inr fun mark uninitialized => ⟨fun held => ?_, fun held => ?_⟩)
      · exact marked ⟨mark, uninitialized, Or.inl held⟩
      · exact marked ⟨mark, uninitialized, Or.inr held⟩

/-- The end of a constructor keeps the order exactly if it initializes the same object in both
states, or none that lies in the same place of both. -/
theorem StateLe.completeReceiver_iff
    (le : hierarchy.StateLe lower upper)
    {receiver other : Slot}
    (receiverLe : hierarchy.SlotLe receiver other)
    (context : MethodContext)
    (owner : BinaryName) :
    hierarchy.StateLe (lower.completeReceiver context receiver owner)
        (upper.completeReceiver context other owner) ↔
      receiver = other ∨
        ∀ type : SlotType, type.isUninitialized = true →
          receiver = some type ∨ other = some type → ¬lower.Shares upper type := by
  rcases receiverLe.receiver_cases with
    rfl | ⟨mark, uninitialized, ⟨rfl, rfl⟩ | ⟨rfl, rfl⟩⟩ | unmarked
  · refine iff_of_true ?_ (Or.inl rfl)
    by_cases marked : ∃ mark : SlotType, mark.isUninitialized = true ∧ receiver = some mark
    · obtain ⟨mark, uninitialized, rfl⟩ := marked
      obtain ⟨type, completed⟩ := exists_completeReceiver_eq uninitialized context owner
      rw [completed, completed]
      exact le.replaceAll uninitialized type
    · rw [completeReceiver_of_not_isUninitialized, completeReceiver_of_not_isUninitialized]
      · exact le
      · exact fun mark uninitialized same => marked ⟨mark, uninitialized, same⟩
      · exact fun mark uninitialized same => marked ⟨mark, uninitialized, same⟩
  · obtain ⟨type, completed⟩ := exists_completeReceiver_eq uninitialized context owner
    rw [completed, completeReceiver_of_not_isUninitialized fun _ => top_ne_uninitialized,
      le.replaceAll_left_iff uninitialized]
    constructor
    · rintro apart
      refine Or.inr fun other isMark held => ?_
      rcases held with same | isTop
      · exact Option.some.inj same ▸ apart
      · exact absurd isTop (top_ne_uninitialized isMark)
    · rintro (isTop | apart)
      · exact absurd isTop.symm (top_ne_uninitialized uninitialized)
      · exact apart mark uninitialized (Or.inl rfl)
  · obtain ⟨type, completed⟩ := exists_completeReceiver_eq uninitialized context owner
    rw [completed, completeReceiver_of_not_isUninitialized fun _ _ => by simp,
      le.replaceAll_right_iff uninitialized]
    constructor
    · rintro apart
      refine Or.inr fun other isMark held => ?_
      rcases held with absent | same
      · cases absent
      · exact Option.some.inj same ▸ apart
    · rintro (absent | apart)
      · cases absent
      · exact apart mark uninitialized (Or.inr rfl)
  · rw [completeReceiver_of_not_isUninitialized fun mark isMark => (unmarked mark isMark).1,
      completeReceiver_of_not_isUninitialized fun mark isMark => (unmarked mark isMark).2]
    refine iff_of_true le (Or.inr fun mark isMark held => ?_)
    rcases held with same | same
    · exact absurd same (unmarked mark isMark).1
    · exact absurd same (unmarked mark isMark).2

/-! ## Instructions -/

/-- Only the load of a reference takes an element out of an array of references. -/
theorem eq_aaload_of_simpleAction_eq
    {opcode : Opcode}
    (isElement : opcode.simpleAction = .element) :
    opcode = .aaload := by
  cases opcode with
  | unassigned index =>
      rw [Opcode.simpleAction_unassigned] at isElement
      cases isElement
  | aaload => rfl
  | _ => cases isElement

/-- Actions that look at no slot keep the order. -/
theorem StateLe.act
    (le : hierarchy.StateLe lower upper)
    {action : SimpleAction}
    (noAccess : action.access? = none)
    (noElement : action ≠ .element) :
    hierarchy.StateLe (lower.act action) (upper.act action) := by
  cases action with
  | keep => exact le
  | discard pops => exact le.drop pops
  | replace pops result => exact (le.drop pops).push result
  | rearrange pops depths => exact (le.drop pops).pushAll le depths
  | access access => cases noAccess
  | element => exact absurd rfl noElement

/-- Instructions that look at no slot keep the order. -/
theorem StateLe.interpret_of_isBlind
    (le : hierarchy.StateLe lower upper)
    {instruction : Instruction}
    (blind : instruction.IsBlind)
    (context : MethodContext)
    (position : Nat) :
    hierarchy.StateLe (lower.interpret context position instruction)
      (upper.interpret context position instruction) := by
  cases instruction with
  | mark label => exact le
  | simple opcode =>
      refine le.act (opcode.access?_simpleAction.trans blind.noAccess) fun isElement => ?_
      exact blind.noElement (congrArg Instruction.simple (eq_aaload_of_simpleAction_eq isElement))
  | var opcode index =>
      simp only [SlotState.interpret, blind.noAccess]
      exact le
  | type opcode operand =>
      simp only [SlotState.interpret]
      split
      · exact le.push _
      · exact (le.drop 1).push _
      · exact (le.drop 1).push _
      · exact le
  | field opcode owner name declared =>
      simp only [SlotState.interpret]
      split
      · exact le.pushField declared
      · exact (le.drop 1).pushField declared
      · exact le.drop _
      · exact le.drop _
  | method opcode owner name descriptor interface =>
      have called := le.drop (descriptor.parameterLength false)
      simp only [SlotState.interpret, stateLe_pushResult_iff]
      split
      next => exact called
      next =>
          split
          next isInit =>
              exact absurd (isInit ▸ rfl) (blind.noConstructor owner descriptor interface)
          next => exact called.drop 1
      next => exact called.drop 1
  | increment index value => exact le
  | push constant => exact le.push _
  | branch opcode target =>
      simp only [SlotState.interpret]
      split
      · exact (le.drop _).pushSlot _
      · exact le.drop _
  | lookupSwitch fallback targets => exact le.drop 1
  | tableSwitch fallback low targets => exact le.drop 1
  | multiNewArray operand dimensions => exact (le.drop _).push _
  | newArray element => exact (le.drop 1).push _
  | invokeDynamic name descriptor bootstrap arguments =>
      exact stateLe_pushResult_iff.mpr (le.drop _)

/-- An instruction that accesses a variable does nothing else. -/
theorem interpret_of_localAccess?_eq
    {instruction : Instruction}
    {access : LocalAccess}
    (accesses : instruction.localAccess? = some access)
    (state : SlotState)
    (context : MethodContext)
    (position : Nat) :
    state.interpret context position instruction = state.access access := by
  cases instruction with
  | simple opcode =>
      have action_eq : opcode.simpleAction.access? = some access :=
        opcode.access?_simpleAction.trans accesses
      rw [SlotState.interpret]
      cases action : opcode.simpleAction with
      | access moved =>
          rw [action] at action_eq
          exact congrArg state.access (Option.some.inj action_eq)
      | _ =>
          rw [action] at action_eq
          cases action_eq
  | var opcode index => simp only [SlotState.interpret, accesses]
  | _ => cases accesses

/-- The end of a constructor keeps the order exactly if it completes alike objects. -/
theorem StateLe.interpret_constructor_iff
    (le : hierarchy.StateLe lower upper)
    (context : MethodContext)
    (position : Nat)
    (owner : BinaryName)
    (descriptor : MethodDescriptor)
    (interface : Bool) :
    hierarchy.StateLe
        (lower.interpret context position
          (.method .invokespecial owner UnqualifiedName.init descriptor interface))
        (upper.interpret context position
          (.method .invokespecial owner UnqualifiedName.init descriptor interface)) ↔
      (lower.drop (descriptor.parameterLength false)).CompletesAlike
        (upper.drop (descriptor.parameterLength false)) := by
  have called := le.drop (descriptor.parameterLength false)
  have receiverLe := called.slotAt 0
  rw [← peek_eq_slotAt, ← peek_eq_slotAt] at receiverLe
  simp only [SlotState.interpret, stateLe_pushResult_iff, if_true]
  exact (called.drop 1).completeReceiver_iff receiverLe context owner

/-- An instruction keeps the order of states exactly if it finds alike things in both. -/
theorem stateLe_interpret_iff
    (le : hierarchy.StateLe lower upper)
    (context : MethodContext)
    (position : Nat)
    (instruction : Instruction) :
    hierarchy.StateLe (lower.interpret context position instruction)
        (upper.interpret context position instruction) ↔
      lower.ActsAlike upper instruction := by
  cases accesses : instruction.localAccess? with
  | some access =>
      rw [interpret_of_localAccess?_eq accesses, interpret_of_localAccess?_eq accesses,
        le.access_iff]
      constructor
      · intro stores
        refine ⟨fun other other_eq => ?_, ?_, ?_⟩
        · rw [accesses] at other_eq
          exact Option.some.inj other_eq ▸ stores
        · rintro rfl
          cases accesses
        · rintro _ _ _ rfl
          cases accesses
      · exact fun alike => alike.stores access accesses
  | none =>
      have noStore : ∀ access, instruction.localAccess? = some access → access.isStore = true →
          lower.StoresAlike upper access := by
        intro access access_eq
        rw [accesses] at access_eq
        cases access_eq
      by_cases isLoad : instruction = .simple .aaload
      · subst isLoad
        have takes := (le.drop 2).pushSlot_iff.trans (le.slotAt 1).elementOf_iff
        constructor
        · exact fun kept => ⟨noStore, fun _ => takes.mp kept, by simp⟩
        · exact fun alike => takes.mpr (alike.takes rfl)
      · by_cases isCall : ∃ owner descriptor interface, instruction =
            .method .invokespecial owner UnqualifiedName.init descriptor interface
        · obtain ⟨owner, descriptor, interface, rfl⟩ := isCall
          rw [le.interpret_constructor_iff]
          constructor
          · intro completes
            refine ⟨noStore, by simp, ?_⟩
            rintro _ _ _ ⟨⟩
            exact completes
          · exact fun alike => alike.completes owner descriptor interface rfl
        · have blind : instruction.IsBlind :=
            ⟨accesses, isLoad, fun owner descriptor interface same =>
              isCall ⟨owner, descriptor, interface, same⟩⟩
          refine iff_of_true (le.interpret_of_isBlind blind context position) ?_
          exact ⟨noStore, fun same => absurd same isLoad, fun owner descriptor interface same =>
            absurd same (blind.noConstructor owner descriptor interface)⟩

/-! ## Circles and squares -/

namespace Shapes

/-- A body of circles that allocates one. -/
def drawing : MethodContext := ⟨circle, #[.type .new (.object circle)]⟩

/-- The constructor of circles. -/
def construct : Instruction :=
  .method .invokespecial circle UnqualifiedName.init ⟨[], none⟩ false

/-- The state in which a constructor is called for an object that lies in a variable, too, in
front of another variable. -/
def constructing (other : Slot) : SlotState :=
  ⟨[some (.uninitialized 0), other], .ofList [some (.uninitialized 0)]⟩

/-- The instruction puts two ordered states out of order. -/
def Disorders (instruction : Instruction) (lower upper : SlotState) : Prop :=
  table.hierarchy.StateLe lower upper ∧
    ¬table.hierarchy.StateLe (lower.interpret drawing 0 instruction)
      (upper.interpret drawing 0 instruction)

instance (instruction : Instruction) (lower upper : SlotState) :
    Decidable (Disorders instruction lower upper) :=
  inferInstanceAs (Decidable (_ ∧ ¬_))

end Shapes

/-- A constructor that initializes the same object in two states keeps their order, where one
has an array of arrays of circles for an array of objects. -/
theorem stateLe_interpret_iff_shapes :
    Shapes.table.hierarchy.StateLe
        (Shapes.constructing (some (.object (.objectArray 1 Shapes.circle))))
        (Shapes.constructing (some (.object (.objectArray 0 .object)))) ∧
      (Shapes.constructing (some (.object (.objectArray 1 Shapes.circle)))).ActsAlike
        (Shapes.constructing (some (.object (.objectArray 0 .object)))) Shapes.construct ∧
      Shapes.table.hierarchy.StateLe
        ((Shapes.constructing (some (.object (.objectArray 1 Shapes.circle)))).interpret
          Shapes.drawing 1 Shapes.construct)
        ((Shapes.constructing (some (.object (.objectArray 0 .object)))).interpret
          Shapes.drawing 1 Shapes.construct) := by
  have le : Shapes.table.hierarchy.StateLe
      (Shapes.constructing (some (.object (.objectArray 1 Shapes.circle))))
      (Shapes.constructing (some (.object (.objectArray 0 .object)))) := by
    decide +kernel
  have alike : (Shapes.constructing (some (.object (.objectArray 1 Shapes.circle)))).ActsAlike
      (Shapes.constructing (some (.object (.objectArray 0 .object)))) Shapes.construct := by
    constructor
    · intro access accesses
      cases accesses
    · intro isLoad
      cases isLoad
    · rintro _ _ _ ⟨⟩
      exact Or.inl rfl
  exact ⟨le, alike, (stateLe_interpret_iff le Shapes.drawing 1 Shapes.construct).mpr alike⟩

/-- A long of which the upper state knows nothing is stored over two variables and over one, an
array of circles has elements and an object has none, and a constructor initializes nothing
if it is called for a receiver of which nothing is known. -/
theorem not_stateLe_interpret_unlike :
    Acyclic Shapes.table.lookup ∧ supertypes Shapes.table.lookup .object = [] ∧
      Shapes.Disorders (.simple .lstore0)
        ⟨[some .integer, some .integer], .ofList [some .top, some .long]⟩
        ⟨[some .integer, some .integer], .ofList [some .top, some .top]⟩ ∧
      Shapes.Disorders (.simple .aaload)
        ⟨[], .ofList [some .integer, some (.object (.objectArray 0 Shapes.circle))]⟩
        ⟨[], .ofList [some .integer, some (.object (.object .object))]⟩ ∧
      Shapes.Disorders Shapes.construct
        ⟨[some (.uninitialized 0)], .ofList [some (.uninitialized 0)]⟩
        ⟨[some (.uninitialized 0)], .ofList [some .top]⟩ :=
  ⟨Shapes.acyclic, by decide +kernel, by decide +kernel, by decide +kernel, by decide +kernel⟩

end Hierarchy

end StackMaps
