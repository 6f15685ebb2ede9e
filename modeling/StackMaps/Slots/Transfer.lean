import StackMaps.Instruction.StackEffect
import StackMaps.Slots.Basic

/-!
# Interpreting instructions

The effect of one instruction on the slots. Nothing here fails: what cannot be
inferred from an inconsistent state becomes an unknown slot.
-/

namespace StackMaps

/-- What the meaning of an instruction depends on besides the slots. -/
structure MethodContext where
  /-- The class to which the method belongs. -/
  thisClass : BinaryName
  /-- The whole body, in which the allocations are looked up. -/
  instructions : Array Instruction

/-- The class that the instruction at a position allocates. -/
def MethodContext.allocatedAt? (context : MethodContext) (position : Nat) : Option RefType :=
  match context.instructions[position]? with
  | some (.type .new operand) => some operand
  | _ => none

/-- How an operation without operands changes the slots. -/
inductive SimpleAction
  /-- Leaves them alone. -/
  | keep
  /-- Pops slots. -/
  | discard (pops : Nat)
  /-- Pops slots and pushes a value. -/
  | replace (pops : Nat) (result : SlotType)
  /-- Pops slots and pushes the ones that were at the listed depths, the first of
  the list on top. -/
  | rearrange (pops : Nat) (depths : List Nat)
  /-- Loads or stores a local variable. -/
  | access (access : LocalAccess)
  /-- Takes an element out of an array of references. -/
  | element

namespace Opcode

/-- The action of an operation without operands. -/
def simpleAction (opcode : Opcode) : SimpleAction :=
  match opcode with
  | .aconstNull => .replace 0 .null
  | .iconstM1 | .iconst0 | .iconst1 | .iconst2 | .iconst3 | .iconst4 | .iconst5 =>
      .replace 0 .integer
  | .lconst0 | .lconst1 => .replace 0 .long
  | .fconst0 | .fconst1 | .fconst2 => .replace 0 .float
  | .dconst0 | .dconst1 => .replace 0 .double
  | .iaload | .baload | .caload | .saload => .replace 2 .integer
  | .laload => .replace 2 .long
  | .faload => .replace 2 .float
  | .daload => .replace 2 .double
  | .aaload => .element
  | .iastore | .bastore | .castore | .sastore | .fastore | .aastore => .discard 3
  | .lastore | .dastore => .discard 4
  | .pop => .discard 1
  | .pop2 => .discard 2
  | .dup => .rearrange 1 [0, 0]
  | .dupX1 => .rearrange 2 [0, 1, 0]
  | .dupX2 => .rearrange 3 [0, 1, 2, 0]
  | .dup2 => .rearrange 2 [0, 1, 0, 1]
  | .dup2X1 => .rearrange 3 [0, 1, 2, 0, 1]
  | .dup2X2 => .rearrange 4 [0, 1, 2, 3, 0, 1]
  | .swap => .rearrange 2 [1, 0]
  | .iadd | .isub | .imul | .idiv | .irem | .ishl | .ishr | .iushr | .iand | .ior | .ixor =>
      .replace 2 .integer
  | .ladd | .lsub | .lmul | .ldiv | .lrem | .land | .lor | .lxor => .replace 4 .long
  | .lshl | .lshr | .lushr => .replace 3 .long
  | .fadd | .fsub | .fmul | .fdiv | .frem => .replace 2 .float
  | .dadd | .dsub | .dmul | .ddiv | .drem => .replace 4 .double
  | .ineg | .i2b | .i2c | .i2s | .f2i | .arraylength => .replace 1 .integer
  | .l2i | .d2i => .replace 2 .integer
  | .i2l | .f2l => .replace 1 .long
  | .lneg | .d2l => .replace 2 .long
  | .fneg | .i2f => .replace 1 .float
  | .l2f | .d2f => .replace 2 .float
  | .i2d | .f2d => .replace 1 .double
  | .dneg | .l2d => .replace 2 .double
  | .lcmp | .dcmpl | .dcmpg => .replace 4 .integer
  | .fcmpl | .fcmpg => .replace 2 .integer
  | .ireturn | .freturn | .areturn | .athrow | .monitorenter | .monitorexit => .discard 1
  | .lreturn | .dreturn => .discard 2
  | _ =>
      match opcode.localAccess? with
      | some access => .access access
      | none => .keep

end Opcode

/-- The type of a constant on the stack. -/
def Constant.slotType : Constant → SlotType
  | .integer _ => .integer
  | .float _ => .float
  | .long _ => .long
  | .double _ => .double
  | .string _ => .object (.object .string)
  | .classRef _ => .object (.object .classObject)
  | .methodType _ => .object (.object .methodType)
  | .methodHandle _ => .object (.object .methodHandle)
  | .dynamic _ type => .ofFieldType type

namespace SlotState

/-- The slot at a depth below the top of the stack. -/
def slotAt (state : SlotState) (depth : Nat) : Slot :=
  (state.stack.slots[depth]?).join

/-- What is known of the elements of an array of references. -/
def elementOf : Slot → Slot
  | some (.object array) =>
      match array.element? with
      | some (.ref element) => some (.object element)
      | _ => none
  | some .null => some .null
  | _ => none

/-- Load or store a local variable. Only a load of a reference looks at the
variable. -/
def access (state : SlotState) (access : LocalAccess) : SlotState :=
  if access.isStore then
    (state.drop access.kind.width).store access.index (state.slotAt (access.kind.width - 1))
  else
    match access.kind with
    | .int => state.push .integer
    | .float => state.push .float
    | .long => state.push .long
    | .double => state.push .double
    | .reference =>
        (state.touch access.index).pushSlot (state.localSlot access.index)

/-- Carry out the action of an operation without operands. -/
def act (state : SlotState) : SimpleAction → SlotState
  | .keep => state
  | .discard pops => state.drop pops
  | .replace pops result => (state.drop pops).push result
  | .rearrange pops depths =>
      { state with stack := (state.stack.drop pops).pushAll (depths.map state.slotAt) }
  | .access access => state.access access
  | .element => (state.drop 2).pushSlot (elementOf (state.slotAt 1))

/-- A constructor has returned: all copies of its receiver are objects now. -/
def completeReceiver
    (state : SlotState)
    (context : MethodContext)
    (receiver : Slot)
    (owner : BinaryName) : SlotState :=
  match receiver with
  | some (.uninitialized origin) =>
      state.replaceAll (.uninitialized origin)
        (.object ((context.allocatedAt? origin).getD (.object owner)))
  | some .uninitializedThis =>
      state.replaceAll .uninitializedThis (.object (.object context.thisClass))
  | _ => state

/-- Push the result of a call. -/
def pushResult (state : SlotState) (descriptor : MethodDescriptor) : SlotState :=
  match descriptor.result with
  | some type => state.pushField type
  | none => state

/-- The slots after the instruction at a position. -/
def interpret
    (state : SlotState)
    (context : MethodContext)
    (position : Nat)
    (instruction : Instruction) : SlotState :=
  match instruction with
  | .mark _ => state
  | .simple opcode => state.act opcode.simpleAction
  | .var .. =>
      match instruction.localAccess? with
      | some access => state.access access
      | none => state
  | .type opcode operand =>
      match opcode with
      | .new => state.push (.uninitialized position)
      | .checkcast => (state.drop 1).push (.object operand)
      | .instanceof => (state.drop 1).push .integer
      | _ => state
  | .field opcode _ _ declared =>
      match opcode with
      | .getstatic => state.pushField declared
      | .getfield => (state.drop 1).pushField declared
      | .putstatic => state.drop declared.width
      | _ => state.drop (declared.width + 1)
  | .method opcode owner name descriptor _ =>
      let called := state.drop (descriptor.parameterLength false)
      let received :=
        match opcode with
        | .invokestatic => called
        | .invokespecial =>
            if name = UnqualifiedName.init then
              (called.drop 1).completeReceiver context called.peek owner
            else called.drop 1
        | _ => called.drop 1
      received.pushResult descriptor
  | .increment .. => state
  | .push constant => state.push constant.slotType
  | .branch opcode _ =>
      let popped := state.drop opcode.branchPops
      if opcode.pushesReturn then popped.pushSlot (some .top) else popped
  | .lookupSwitch .. | .tableSwitch .. => state.drop 1
  | .multiNewArray operand dimensions =>
      (state.drop dimensions.toNat).push (.object operand)
  | .newArray element => (state.drop 1).push (.object (.array element))
  | .invokeDynamic _ descriptor _ _ =>
      (state.drop (descriptor.parameterLength false)).pushResult descriptor

end SlotState

end StackMaps
