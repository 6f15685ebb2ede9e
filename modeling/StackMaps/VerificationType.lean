import StackMaps.Descriptor.Printer

/-!
# Verification types

The types by which the verifier of class files tells values apart. Small
integers are all alike, an allocated object is uninitialized until one of its
constructors has run, and `top` is a slot that cannot be used.
-/

namespace StackMaps

/-- A verification type. Classes are given as `Operand`, and the allocation of an
uninitialized object as `Origin`. -/
inductive VerificationType (Operand Origin : Type)
  | top
  | integer
  | float
  | double
  | long
  | null
  | uninitializedThis
  | object (type : Operand)
  | uninitialized (origin : Origin)
  deriving DecidableEq

namespace VerificationType

variable {Operand Origin NewOperand NewOrigin : Type}

/-- Is this the type of references? -/
def isReference : VerificationType Operand Origin → Bool
  | .null | .uninitializedThis | .object _ | .uninitialized _ => true
  | _ => false

/-- Do values of this type take two slots? -/
def isWide : VerificationType Operand Origin → Bool
  | .long | .double => true
  | _ => false

/-- Replace the classes and the origins in a type. -/
def map
    (onOperand : Operand → NewOperand)
    (onOrigin : Origin → NewOrigin) :
    VerificationType Operand Origin → VerificationType NewOperand NewOrigin
  | .top => .top
  | .integer => .integer
  | .float => .float
  | .double => .double
  | .long => .long
  | .null => .null
  | .uninitializedThis => .uninitializedThis
  | .object type => .object (onOperand type)
  | .uninitialized origin => .uninitialized (onOrigin origin)

/-- The type of the values of a field type. -/
def ofFieldType : FieldType → VerificationType RefType Origin
  | .base .float => .float
  | .base .long => .long
  | .base .double => .double
  | .base _ => .integer
  | .ref type => .object type

/-- The written form of a type. -/
def text (originText : Origin → String) : VerificationType RefType Origin → String
  | .top => "top"
  | .integer => "int"
  | .float => "float"
  | .long => "long"
  | .double => "double"
  | .null => "null"
  | .uninitializedThis => "uninitialized_this"
  | .object type => type.operand
  | .uninitialized origin => "uninitialized(" ++ originText origin ++ ")"

end VerificationType

end StackMaps
