import StackMaps.Descriptor.Basic
import StackMaps.Label
import StackMaps.Opcode

/-!
# Instructions

Instructions are grouped by the shape of their operands. Jumps refer to labels
and constants are symbolic, so an instruction knows neither offsets nor indices
into a constant pool. A label among the instructions marks the position of the
one behind it.
-/

namespace StackMaps

/-- A method or field with the way in which it is accessed, a number from one to
nine. The text of the descriptor is that of a field or of a method, depending on
the kind. -/
structure MethodHandle where
  kind : UInt8
  owner : BinaryName
  name : UnqualifiedName
  descriptor : String
  interface : Bool
  deriving DecidableEq

/-- A constant that can be loaded. Floating-point numbers are kept as their bit
patterns, which tells all of them apart. -/
inductive Constant
  | integer (value : Int32)
  | float (bits : UInt32)
  | long (value : Int64)
  | double (bits : UInt64)
  | string (text : String)
  | classRef (type : RefType)
  | methodType (descriptor : MethodDescriptor)
  | methodHandle (handle : MethodHandle)
  | dynamic (name : UnqualifiedName) (type : FieldType)
  deriving DecidableEq

namespace Constant

/-- Does the constant take two slots? -/
def isWide : Constant → Bool
  | .long _ | .double _ => true
  | .dynamic _ type => type.isWide
  | _ => false

/-- The number of slots that the constant takes. -/
def width (constant : Constant) : Nat :=
  if constant.isWide then 2 else 1

end Constant

/-- An instruction, or a label between instructions. -/
inductive Instruction
  /-- Marks the position of the next instruction. -/
  | mark (label : Label)
  /-- Has no operands. -/
  | simple (opcode : Opcode)
  /-- Refers to a local variable. -/
  | var (opcode : Opcode) (index : UInt16)
  /-- Allocates, casts or tests. -/
  | type (opcode : Opcode) (operand : RefType)
  /-- Reads or writes a field. -/
  | field (opcode : Opcode) (owner : BinaryName) (name : UnqualifiedName) (declared : FieldType)
  /-- Calls a method. -/
  | method
      (opcode : Opcode)
      (owner : BinaryName)
      (name : UnqualifiedName)
      (descriptor : MethodDescriptor)
      (interface : Bool)
  /-- Adds to a local variable. -/
  | increment (index : UInt16) (value : Int16)
  /-- Pushes a constant. -/
  | push (constant : Constant)
  /-- Jumps, under a condition or always. -/
  | branch (opcode : Opcode) (target : Label)
  /-- Jumps to the target of a key. -/
  | lookupSwitch (fallback : Label) (targets : List (Int32 × Label))
  /-- Jumps to one of the targets, which are numbered from `low`. -/
  | tableSwitch (fallback : Label) (low : Int32) (targets : List Label)
  /-- Creates an array of arrays. -/
  | multiNewArray (operand : RefType) (dimensions : UInt8)
  /-- Creates an array with a type of elements. -/
  | newArray (element : FieldType)
  /-- Calls a method that is linked when it is first reached. -/
  | invokeDynamic
      (name : UnqualifiedName)
      (descriptor : MethodDescriptor)
      (bootstrap : MethodHandle)
      (arguments : List Constant)
  deriving DecidableEq

namespace Instruction

/-- The label that the instruction marks. -/
def marks? : Instruction → Option Label
  | .mark label => some label
  | _ => none

/-- Is this a mark, and not an instruction that does something? -/
def isMark (instruction : Instruction) : Bool :=
  instruction.marks?.isSome

/-- The labels to which the instruction may jump. -/
def jumpTargets : Instruction → List Label
  | .branch _ target => [target]
  | .lookupSwitch fallback targets => targets.map (·.2) ++ [fallback]
  | .tableSwitch fallback _ targets => targets ++ [fallback]
  | _ => []

/-- Does the instruction close a block? -/
def endsBlock : Instruction → Bool
  | .branch .. | .lookupSwitch .. | .tableSwitch .. => true
  | .simple opcode | .var opcode _ => opcode.isTerminal
  | _ => false

/-- Can control go on to the next instruction? -/
def fallsThrough : Instruction → Bool
  | .branch opcode _ => opcode.isConditional
  | .lookupSwitch .. | .tableSwitch .. => false
  | .simple opcode | .var opcode _ => !opcode.isTerminal
  | _ => true

/-- Does the instruction allocate an object? -/
def isNew : Instruction → Bool
  | .type .new _ => true
  | _ => false

end Instruction

end StackMaps
