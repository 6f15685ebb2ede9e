import StackMaps.Instruction.Basic

/-!
# Stack effects

How many slots an instruction pops off the operand stack and pushes onto it,
and which local variables it touches. Wide values count as two slots.
-/

namespace StackMaps

/-- Slots popped, and slots pushed afterwards. -/
structure StackEffect where
  pops : Nat
  pushes : Nat
  deriving DecidableEq

/-- The kinds of values that loads and stores move, in the order of their
operation codes. -/
inductive LocalKind
  | int
  | long
  | float
  | double
  | reference
  deriving DecidableEq

namespace LocalKind

/-- Do values of this kind take two slots? -/
def isWide : LocalKind → Bool
  | .long | .double => true
  | _ => false

/-- The number of slots that a value takes. -/
def width (kind : LocalKind) : Nat :=
  if kind.isWide then 2 else 1

/-- The kind at a position in the order of operation codes. -/
def ofPosition : Nat → LocalKind
  | 0 => .int
  | 1 => .long
  | 2 => .float
  | 3 => .double
  | _ => .reference

end LocalKind

/-- A load from or a store to a local variable. -/
structure LocalAccess where
  index : Nat
  kind : LocalKind
  isStore : Bool
  deriving DecidableEq

namespace Opcode

/-- Is the number of the operation between those of two others? -/
def isBetween (opcode first last : Opcode) : Bool :=
  first.code ≤ opcode.code && opcode.code ≤ last.code

/-- The variable that an operation without operands loads or stores. Every kind
has one operation for each of the first four variables. -/
def localAccess? (opcode : Opcode) : Option LocalAccess :=
  if opcode.isBetween .iload0 .aload3 then
    let offset := opcode.code - Opcode.iload0.code
    some ⟨offset % 4, .ofPosition (offset / 4), false⟩
  else if opcode.isBetween .istore0 .astore3 then
    let offset := opcode.code - Opcode.istore0.code
    some ⟨offset % 4, .ofPosition (offset / 4), true⟩
  else none

/-- The kind of variable that an operation with an index moves, and whether it
stores. -/
def variableAccess? (opcode : Opcode) : Option (LocalKind × Bool) :=
  if opcode.isBetween .iload .aload then
    some (.ofPosition (opcode.code - Opcode.iload.code), false)
  else if opcode.isBetween .istore .astore then
    some (.ofPosition (opcode.code - Opcode.istore.code), true)
  else none

/-- The stack effect of an operation without operands. -/
def simpleEffect : Opcode → StackEffect
  | .aconstNull | .iconstM1 | .iconst0 | .iconst1 | .iconst2 | .iconst3 | .iconst4
  | .iconst5 | .fconst0 | .fconst1 | .fconst2 => ⟨0, 1⟩
  | .lconst0 | .lconst1 | .dconst0 | .dconst1 => ⟨0, 2⟩
  | .iload0 | .iload1 | .iload2 | .iload3 | .fload0 | .fload1 | .fload2 | .fload3
  | .aload0 | .aload1 | .aload2 | .aload3 => ⟨0, 1⟩
  | .lload0 | .lload1 | .lload2 | .lload3 | .dload0 | .dload1 | .dload2 | .dload3 => ⟨0, 2⟩
  | .istore0 | .istore1 | .istore2 | .istore3 | .fstore0 | .fstore1 | .fstore2 | .fstore3
  | .astore0 | .astore1 | .astore2 | .astore3 => ⟨1, 0⟩
  | .lstore0 | .lstore1 | .lstore2 | .lstore3 | .dstore0 | .dstore1 | .dstore2
  | .dstore3 => ⟨2, 0⟩
  | .iaload | .faload | .aaload | .baload | .caload | .saload => ⟨2, 1⟩
  | .laload | .daload => ⟨2, 2⟩
  | .iastore | .fastore | .aastore | .bastore | .castore | .sastore => ⟨3, 0⟩
  | .lastore | .dastore => ⟨4, 0⟩
  | .pop => ⟨1, 0⟩
  | .pop2 => ⟨2, 0⟩
  | .dup => ⟨1, 2⟩
  | .dupX1 => ⟨2, 3⟩
  | .dupX2 => ⟨3, 4⟩
  | .dup2 => ⟨2, 4⟩
  | .dup2X1 => ⟨3, 5⟩
  | .dup2X2 => ⟨4, 6⟩
  | .swap => ⟨2, 2⟩
  | .iadd | .isub | .imul | .idiv | .irem | .ishl | .ishr | .iushr | .iand | .ior
  | .ixor => ⟨2, 1⟩
  | .fadd | .fsub | .fmul | .fdiv | .frem => ⟨2, 1⟩
  | .ladd | .lsub | .lmul | .ldiv | .lrem | .land | .lor | .lxor => ⟨4, 2⟩
  | .dadd | .dsub | .dmul | .ddiv | .drem => ⟨4, 2⟩
  | .lshl | .lshr | .lushr => ⟨3, 2⟩
  | .ineg | .fneg => ⟨1, 1⟩
  | .lneg | .dneg => ⟨2, 2⟩
  | .i2f | .f2i | .i2b | .i2c | .i2s => ⟨1, 1⟩
  | .i2l | .i2d | .f2l | .f2d => ⟨1, 2⟩
  | .l2i | .l2f | .d2i | .d2f => ⟨2, 1⟩
  | .l2d | .d2l => ⟨2, 2⟩
  | .lcmp | .dcmpl | .dcmpg => ⟨4, 1⟩
  | .fcmpl | .fcmpg => ⟨2, 1⟩
  | .ireturn | .freturn | .areturn => ⟨1, 0⟩
  | .lreturn | .dreturn => ⟨2, 0⟩
  | .arraylength => ⟨1, 1⟩
  | .athrow | .monitorenter | .monitorexit => ⟨1, 0⟩
  | _ => ⟨0, 0⟩

/-- The number of slots that a branch pops. -/
def branchPops (opcode : Opcode) : Nat :=
  if opcode.isBetween .ifeq .ifle || opcode == .ifnull || opcode == .ifnonnull then 1
  else if opcode.isBetween .ifIcmpeq .ifAcmpne then 2
  else 0

/-- Does the branch push the place to which a subroutine returns? -/
def pushesReturn (opcode : Opcode) : Bool :=
  opcode == .jsr || opcode == .jsrW

end Opcode

namespace Instruction

/-- The slots that an instruction pops and pushes. Operations without a meaning
have no effect. -/
def stackEffect : Instruction → StackEffect
  | .mark _ | .increment _ _ => ⟨0, 0⟩
  | .simple opcode => opcode.simpleEffect
  | .var opcode _ =>
      match opcode with
      | .iload | .fload | .aload => ⟨0, 1⟩
      | .lload | .dload => ⟨0, 2⟩
      | .istore | .fstore | .astore => ⟨1, 0⟩
      | .lstore | .dstore => ⟨2, 0⟩
      | _ => ⟨0, 0⟩
  | .type opcode _ =>
      match opcode with
      | .new => ⟨0, 1⟩
      | _ => ⟨1, 1⟩
  | .field opcode _ _ declared =>
      match opcode with
      | .getstatic => ⟨0, declared.width⟩
      | .putstatic => ⟨declared.width, 0⟩
      | .getfield => ⟨1, declared.width⟩
      | _ => ⟨1 + declared.width, 0⟩
  | .method opcode _ _ descriptor _ =>
      ⟨descriptor.parameterLength (opcode != .invokestatic), descriptor.resultWidth⟩
  | .push constant => ⟨0, constant.width⟩
  | .branch opcode _ => ⟨opcode.branchPops, if opcode.pushesReturn then 1 else 0⟩
  | .lookupSwitch .. | .tableSwitch .. => ⟨1, 0⟩
  | .multiNewArray _ dimensions => ⟨dimensions.toNat, 1⟩
  | .newArray _ => ⟨1, 1⟩
  | .invokeDynamic _ descriptor _ _ =>
      ⟨descriptor.parameterLength false, descriptor.resultWidth⟩

/-- The variable that an instruction loads or stores. -/
def localAccess? : Instruction → Option LocalAccess
  | .simple opcode => opcode.localAccess?
  | .var opcode index =>
      opcode.variableAccess?.map fun (kind, isStore) => ⟨index.toNat, kind, isStore⟩
  | _ => none

/-- The first of the local slots that an instruction touches, and their
number. -/
def localSlots? (instruction : Instruction) : Option (Nat × Nat) :=
  match instruction.localAccess? with
  | some access => some (access.index, access.kind.width)
  | none =>
      match instruction with
      | .increment index _ => some (index.toNat, 1)
      | .var .ret index => some (index.toNat, 1)
      | _ => none

/-- The number of local slots that must exist for the instruction. -/
def localsNeeded (instruction : Instruction) : Nat :=
  match instruction.localSlots? with
  | some (index, width) => index + width
  | none => 0

end Instruction

end StackMaps
