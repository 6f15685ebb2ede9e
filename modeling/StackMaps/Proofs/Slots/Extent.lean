import StackMaps.Slots.Transfer

/-!
# The extent of a state

How many slots a state has behind an instruction. The stack changes in depth by
the stack effect of the instruction, and locals are never lost: the instruction
makes those exist that it touches, and one more if it stores the first half of a
wide value as if it were a narrow one.
-/

namespace StackMaps

/-- The number of slots that a value of a type takes. -/
def VerificationType.width {Operand Origin : Type} (type : VerificationType Operand Origin) :
    Nat :=
  if type.isWide then 2 else 1

/-- Instructions that allocate, cast or test have an operation code for that. -/
def Instruction.IsRegular : Instruction → Prop
  | .type opcode _ => opcode = .new ∨ opcode = .checkcast ∨ opcode = .instanceof
  | _ => True

namespace SlotState

variable (state : SlotState)

@[simp] theorem locals_pushSlot (slot : Slot) : (state.pushSlot slot).locals = state.locals := rfl

@[simp] theorem depth_pushSlot (slot : Slot) :
    (state.pushSlot slot).stack.depth = state.stack.depth + 1 := rfl

@[simp] theorem locals_push (type : SlotType) : (state.push type).locals = state.locals := by
  unfold push
  split <;> rfl

@[simp] theorem depth_push (type : SlotType) :
    (state.push type).stack.depth = state.stack.depth + type.width := by
  unfold push VerificationType.width
  split <;> rfl

@[simp] theorem locals_pushField (type : FieldType) :
    (state.pushField type).locals = state.locals := locals_push state _

@[simp] theorem depth_pushField (type : FieldType) :
    (state.pushField type).stack.depth = state.stack.depth + type.width := by
  have width_eq : (VerificationType.ofFieldType type : SlotType).width = type.width := by
    cases type with
    | base type => cases type <;> rfl
    | ref type => rfl
  rw [pushField, depth_push, width_eq]

@[simp] theorem locals_drop (count : Nat) : (state.drop count).locals = state.locals := rfl

@[simp] theorem depth_drop (count : Nat) :
    (state.drop count).stack.depth = state.stack.depth - count := rfl

@[simp] theorem locals_enterHandler : state.enterHandler.locals = state.locals := rfl

@[simp] theorem depth_enterHandler : state.enterHandler.stack.depth = 1 := rfl

@[simp] theorem length_locals_replaceAll (old new : SlotType) :
    (state.replaceAll old new).locals.length = state.locals.length := by
  simp [replaceAll]

@[simp] theorem depth_replaceAll (old new : SlotType) :
    (state.replaceAll old new).stack.depth = state.stack.depth := rfl

@[simp] theorem length_locals_completeReceiver
    (context : MethodContext)
    (receiver : Slot)
    (owner : BinaryName) :
    (state.completeReceiver context receiver owner).locals.length = state.locals.length := by
  unfold completeReceiver
  split <;> simp

@[simp] theorem depth_completeReceiver
    (context : MethodContext)
    (receiver : Slot)
    (owner : BinaryName) :
    (state.completeReceiver context receiver owner).stack.depth = state.stack.depth := by
  unfold completeReceiver
  split <;> rfl

@[simp] theorem locals_pushResult (descriptor : MethodDescriptor) :
    (state.pushResult descriptor).locals = state.locals := by
  unfold pushResult
  split <;> simp

@[simp] theorem depth_pushResult (descriptor : MethodDescriptor) :
    (state.pushResult descriptor).stack.depth =
      state.stack.depth + descriptor.resultWidth := by
  unfold pushResult MethodDescriptor.resultWidth
  split <;> simp_all

/-! ## Local variables -/

theorem length_extendTo (locals : List Slot) (index : Nat) :
    (extendTo locals index).length = max locals.length (index + 1) := by
  unfold extendTo
  split
  · omega
  · simp only [List.length_append, List.length_replicate]
    omega

theorem length_breakWideBefore (locals : List Slot) (index : Nat) :
    (breakWideBefore locals index).length = locals.length := by
  cases index <;> simp [breakWideBefore]

/-- The slots that a stored value takes, by what is known of it. -/
def storedWidth (slot : Slot) : Nat :=
  if isWideSlot slot then 2 else 1

theorem storedWidth_le (slot : Slot) : storedWidth slot ≤ 2 := by
  unfold storedWidth
  split <;> decide

theorem length_locals_store (index : Nat) (slot : Slot) :
    (state.store index slot).locals.length =
      max state.locals.length (index + storedWidth slot) := by
  unfold store storedWidth
  dsimp only
  split <;> simp [length_breakWideBefore, length_extendTo]

theorem length_locals_touch (index : Nat) :
    (state.touch index).locals.length = max state.locals.length (index + 1) :=
  length_extendTo state.locals index

/-- The slot that an access stores, unless it is a load. -/
def storedBy (access : LocalAccess) : Slot :=
  if access.isStore then state.slotAt (access.kind.width - 1) else none

/-- The end of the local slots that an access makes exist. -/
def accessEnd (access : LocalAccess) : Nat :=
  access.index + max access.kind.width (storedWidth (state.storedBy access))

theorem length_locals_access_le (access : LocalAccess) :
    (state.access access).locals.length ≤ max state.locals.length (state.accessEnd access) := by
  obtain ⟨index, kind, isStore⟩ := access
  cases isStore with
  | true =>
      simp only [access, if_true, length_locals_store, locals_drop, accessEnd, storedBy]
      omega
  | false =>
      cases kind with
      | reference =>
          have touched := length_locals_touch state index
          have counted : index + 1 ≤ state.accessEnd ⟨index, .reference, false⟩ :=
            Nat.add_le_add_left (Nat.le_max_left _ _) index
          simp only [access, Bool.false_eq_true, if_false, locals_pushSlot]
          omega
      | _ => exact Nat.le_max_left _ _

theorem le_length_locals_access (access : LocalAccess) :
    state.locals.length ≤ (state.access access).locals.length := by
  obtain ⟨index, kind, isStore⟩ := access
  cases isStore with
  | true =>
      simp only [access, if_true, length_locals_store, locals_drop]
      exact Nat.le_max_left _ _
  | false =>
      cases kind with
      | reference =>
          simp only [access, Bool.false_eq_true, if_false, locals_pushSlot, length_locals_touch]
          exact Nat.le_max_left _ _
      | _ => exact Nat.le_refl _

/-- A load pushes what a variable of its kind takes, and a store pops it. -/
theorem depth_access (access : LocalAccess) :
    (state.access access).stack.depth =
      if access.isStore then state.stack.depth - access.kind.width
      else state.stack.depth + access.kind.width := by
  obtain ⟨index, kind, isStore⟩ := access
  cases isStore with
  | true => rfl
  | false => cases kind <;> simp [access, VerificationType.width, LocalKind.width] <;> rfl

end SlotState

/-! ## Instructions -/

/-- The slots that an action pops and pushes. -/
def SimpleAction.effect : SimpleAction → StackEffect
  | .keep => ⟨0, 0⟩
  | .discard pops => ⟨pops, 0⟩
  | .replace pops result => ⟨pops, result.width⟩
  | .rearrange pops depths => ⟨pops, depths.length⟩
  | .access moved => if moved.isStore then ⟨moved.kind.width, 0⟩ else ⟨0, moved.kind.width⟩
  | .element => ⟨2, 1⟩

/-- The access of an action to a local variable. -/
def SimpleAction.access? : SimpleAction → Option LocalAccess
  | .access moved => some moved
  | _ => none

namespace Opcode

/-- The numbers of operations without a meaning lie beyond those of all others. -/
theorem isBetween_unassigned (index : Fin 54) {first last : Opcode} (less : last.code < 202) :
    (Opcode.unassigned index).isBetween first last = false := by
  have code_eq : (Opcode.unassigned index).code = 202 + index.val := rfl
  simp only [isBetween, code_eq, Bool.and_eq_false_iff, decide_eq_false_iff_not]
  omega

theorem localAccess?_unassigned (index : Fin 54) :
    (Opcode.unassigned index).localAccess? = none := by
  rw [localAccess?, isBetween_unassigned index (by decide),
    isBetween_unassigned index (by decide)]
  rfl

theorem variableAccess?_unassigned (index : Fin 54) :
    (Opcode.unassigned index).variableAccess? = none := by
  rw [variableAccess?, isBetween_unassigned index (by decide),
    isBetween_unassigned index (by decide)]
  rfl

theorem simpleAction_unassigned_eq (index : Fin 54) :
    (Opcode.unassigned index).simpleAction =
      match (Opcode.unassigned index).localAccess? with
      | some access => .access access
      | none => .keep := rfl

theorem simpleAction_unassigned (index : Fin 54) :
    (Opcode.unassigned index).simpleAction = .keep := by
  rw [simpleAction_unassigned_eq, localAccess?_unassigned]

/-- The action of an operation has the stack effect of the operation. -/
theorem effect_simpleAction (opcode : Opcode) :
    opcode.simpleAction.effect = opcode.simpleEffect := by
  cases opcode with
  | unassigned index => exact congrArg SimpleAction.effect (simpleAction_unassigned index)
  | _ => rfl

/-- The action of an operation accesses the variable that the operation accesses. -/
theorem access?_simpleAction (opcode : Opcode) :
    opcode.simpleAction.access? = opcode.localAccess? := by
  cases opcode with
  | unassigned index =>
      rw [simpleAction_unassigned, localAccess?_unassigned]
      rfl
  | _ => rfl

/-- An operation with an index has the stack effect of its access. -/
theorem stackEffect_var (opcode : Opcode) (index : UInt16) :
    (Instruction.var opcode index).stackEffect =
      match opcode.variableAccess? with
      | some (kind, isStore) => if isStore then ⟨kind.width, 0⟩ else ⟨0, kind.width⟩
      | none => ⟨0, 0⟩ := by
  cases opcode with
  | unassigned index =>
      rw [variableAccess?_unassigned]
      rfl
  | _ => rfl

end Opcode

theorem Constant.width_slotType (constant : Constant) :
    constant.slotType.width = constant.width := by
  cases constant with
  | dynamic name type =>
      cases type with
      | base type => cases type <;> rfl
      | ref type => rfl
  | _ => rfl

theorem MethodDescriptor.parameterLength_true (descriptor : MethodDescriptor) :
    descriptor.parameterLength true = descriptor.parameterLength false + 1 := by
  rw [parameterLength, parameterLength]
  induction descriptor.parameters with
  | nil => rfl
  | cons type rest hypothesis =>
      rw [List.foldr_cons, List.foldr_cons, hypothesis, Nat.add_assoc]

namespace SlotState

variable (state : SlotState)

theorem depth_act (action : SimpleAction) :
    (state.act action).stack.depth =
      state.stack.depth - action.effect.pops + action.effect.pushes := by
  cases action with
  | keep => rfl
  | discard pops => rfl
  | replace pops result => exact depth_push _ result
  | rearrange pops depths =>
      simp [act, SimpleAction.effect, Stack.pushAll, Stack.drop]
      omega
  | access access =>
      simp only [act, SimpleAction.effect, depth_access]
      split <;> rfl
  | element => rfl

theorem length_locals_act (action : SimpleAction) :
    (state.act action).locals.length =
      match action.access? with
      | some access => (state.access access).locals.length
      | none => state.locals.length := by
  cases action <;> simp [act, SimpleAction.access?]

variable (context : MethodContext) (position : Nat) (instruction : Instruction)

/-- The stack changes in depth by the stack effect of the instruction. -/
theorem depth_interpret (regular : instruction.IsRegular) :
    (state.interpret context position instruction).stack.depth =
      state.stack.depth - instruction.stackEffect.pops + instruction.stackEffect.pushes := by
  cases instruction with
  | mark label => rfl
  | simple opcode =>
      rw [interpret, depth_act, Opcode.effect_simpleAction]
      rfl
  | var opcode index =>
      simp only [interpret, Instruction.localAccess?, Opcode.stackEffect_var]
      cases opcode.variableAccess? with
      | none => rfl
      | some access =>
          simp only [Option.map_some, depth_access]
          split <;> rfl
  | type opcode operand =>
      rcases regular with rfl | rfl | rfl <;> rfl
  | field opcode owner name declared =>
      simp only [interpret, Instruction.stackEffect]
      split <;> simp [Nat.add_comm]
  | method opcode owner name descriptor interface =>
      simp only [interpret, Instruction.stackEffect, depth_pushResult]
      split
      · rfl
      · have receives : (Opcode.invokespecial != .invokestatic) = true := rfl
        split <;> simp [receives, MethodDescriptor.parameterLength_true, Nat.sub_add_eq]
      next other _ =>
          have receives : (opcode != .invokestatic) = true := by simpa using other
          simp [receives, MethodDescriptor.parameterLength_true, Nat.sub_add_eq]
  | increment index value => rfl
  | push constant =>
      simp [interpret, Instruction.stackEffect, Constant.width_slotType]
  | branch opcode target =>
      simp only [interpret, Instruction.stackEffect]
      split <;> simp
  | lookupSwitch fallback targets => rfl
  | tableSwitch fallback low targets => rfl
  | multiNewArray operand dimensions => rfl
  | newArray element => rfl
  | invokeDynamic name descriptor bootstrap arguments =>
      simp [interpret, Instruction.stackEffect]

/-- Without a meaning, an instruction leaves the slots alone. -/
theorem interpret_of_not_isRegular (irregular : ¬instruction.IsRegular) :
    state.interpret context position instruction = state := by
  cases instruction with
  | type opcode operand =>
      simp only [Instruction.IsRegular, not_or] at irregular
      unfold interpret
      split
      all_goals simp_all
  | _ => exact absurd trivial irregular

/-- The locals change in number as the access to one of them makes them. -/
theorem length_locals_interpret :
    (state.interpret context position instruction).locals.length =
      match instruction.localAccess? with
      | some access => (state.access access).locals.length
      | none => state.locals.length := by
  cases instruction with
  | simple opcode =>
      rw [interpret, length_locals_act, Opcode.access?_simpleAction]
      rfl
  | var opcode index =>
      simp only [interpret]
      split <;> simp_all
  | type opcode operand =>
      simp only [interpret, Instruction.localAccess?]
      split <;> simp
  | field opcode owner name declared =>
      simp only [interpret, Instruction.localAccess?]
      split <;> simp
  | method opcode owner name descriptor interface =>
      simp only [interpret, Instruction.localAccess?, locals_pushResult]
      split
      · rfl
      · split <;> simp
      · rfl
  | branch opcode target =>
      simp only [interpret, Instruction.localAccess?]
      split <;> simp
  | _ => simp [interpret, Instruction.localAccess?]

/-- The end of the local slots that an instruction makes exist. -/
def endOfLocals : Nat :=
  match instruction.localAccess? with
  | some access => state.accessEnd access
  | none => 0

theorem length_locals_interpret_le :
    (state.interpret context position instruction).locals.length ≤
      max state.locals.length (state.endOfLocals instruction) := by
  rw [length_locals_interpret, endOfLocals]
  cases instruction.localAccess? with
  | none => exact Nat.le_max_left _ _
  | some access => exact state.length_locals_access_le access

/-- Locals are never lost. -/
theorem le_length_locals_interpret :
    state.locals.length ≤ (state.interpret context position instruction).locals.length := by
  rw [length_locals_interpret]
  cases instruction.localAccess? with
  | none => exact Nat.le_refl _
  | some access => exact state.le_length_locals_access access

/-- At most one slot is made to exist that the instruction does not touch. -/
theorem endOfLocals_le : state.endOfLocals instruction ≤ instruction.localsNeeded + 1 := by
  unfold endOfLocals Instruction.localsNeeded Instruction.localSlots?
  cases instruction.localAccess? with
  | none => exact Nat.zero_le _
  | some access =>
      simp only [accessEnd, storedWidth, LocalKind.width]
      split <;> split <;> omega

end SlotState

namespace Instruction

/-- Even without a meaning, an instruction counts as one that exchanges a slot. -/
theorem stackEffect_of_not_isRegular
    {instruction : Instruction}
    (irregular : ¬instruction.IsRegular) :
    instruction.stackEffect = ⟨1, 1⟩ := by
  cases instruction with
  | type opcode operand =>
      simp only [IsRegular, not_or] at irregular
      unfold stackEffect
      split
      all_goals simp_all
  | _ => exact absurd trivial irregular

/-- Regular instructions are exactly those that change the number of slots on every
stack, be it too short for them, by their stack effect. -/
theorem isRegular_iff_length_slots (instruction : Instruction) :
    instruction.IsRegular ↔
      ∀ (state : SlotState) (context : MethodContext) (position : Nat),
        (state.interpret context position instruction).stack.slots.length =
          state.stack.slots.length - instruction.stackEffect.pops +
            instruction.stackEffect.pushes := by
  simp only [← Stack.depth_eq]
  constructor
  · intro regular state context position
    exact state.depth_interpret context position instruction regular
  · intro agrees
    refine Classical.byContradiction fun irregular => ?_
    -- On an empty stack there is nothing to exchange.
    have exchanged := agrees .empty ⟨.object, #[]⟩ 0
    rw [SlotState.interpret_of_not_isRegular _ _ _ _ irregular,
      stackEffect_of_not_isRegular irregular] at exchanged
    exact absurd exchanged (by decide)

end Instruction

end StackMaps
