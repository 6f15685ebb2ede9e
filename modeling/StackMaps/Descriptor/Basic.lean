import StackMaps.Name

/-!
# Types in descriptors

Field types are primitive types or reference types, and reference types are
classes or arrays. An array type is kept as its innermost element with the
number of dimensions around it, so that an array of arrays has only one form.
-/

namespace StackMaps

/-- The primitive types. -/
inductive BaseType
  | byte
  | char
  | double
  | float
  | int
  | long
  | short
  | boolean
  deriving DecidableEq

namespace BaseType

/-- All primitive types. -/
def all : List BaseType :=
  [.byte, .char, .double, .float, .int, .long, .short, .boolean]

/-- Do values of this type take two slots? -/
def isWide : BaseType → Bool
  | .long | .double => true
  | _ => false

/-- The number of slots that a value takes. -/
def width (type : BaseType) : Nat :=
  if type.isWide then 2 else 1

/-- The word for the type as the element of an array. -/
def keyword : BaseType → String
  | .boolean => "boolean"
  | .char => "char"
  | .float => "float"
  | .double => "double"
  | .byte => "byte"
  | .short => "short"
  | .int => "int"
  | .long => "long"

/-- The type with a keyword. -/
def ofKeyword? (keyword : String) : Option BaseType :=
  all.find? fun type => type.keyword = keyword

end BaseType

/-- Classes and arrays. The dimensions of an array are counted beyond its first
one. -/
inductive RefType
  | object (name : BinaryName)
  | objectArray (additional : Nat) (element : BinaryName)
  | primitiveArray (additional : Nat) (element : BaseType)
  deriving DecidableEq

/-- The type of a field, parameter or result. -/
inductive FieldType
  | base (type : BaseType)
  | ref (type : RefType)
  deriving DecidableEq

/-- The type of the arrays with a given type of elements. -/
def RefType.array : FieldType → RefType
  | .base element => .primitiveArray 0 element
  | .ref (.object element) => .objectArray 0 element
  | .ref (.objectArray additional element) => .objectArray (additional + 1) element
  | .ref (.primitiveArray additional element) => .primitiveArray (additional + 1) element

/-- The type of the elements of an array. -/
def RefType.element? : RefType → Option FieldType
  | .object _ => none
  | .objectArray 0 element => some (.ref (.object element))
  | .objectArray (additional + 1) element => some (.ref (.objectArray additional element))
  | .primitiveArray 0 element => some (.base element)
  | .primitiveArray (additional + 1) element =>
      some (.ref (.primitiveArray additional element))

namespace FieldType

/-- Do values of this type take two slots? -/
def isWide : FieldType → Bool
  | .base type => type.isWide
  | .ref _ => false

/-- The number of slots that a value takes. -/
def width (type : FieldType) : Nat :=
  if type.isWide then 2 else 1

end FieldType

/-- The parameters and the result of a method; none is the result of a method
that returns nothing. -/
structure MethodDescriptor where
  parameters : List FieldType
  result : Option FieldType
  deriving DecidableEq

namespace MethodDescriptor

/-- The slots that the parameters occupy, with none for the second half of a
wide one. -/
def parameterSlots (descriptor : MethodDescriptor) : List (Option FieldType) :=
  descriptor.parameters.flatMap fun type =>
    if type.isWide then [some type, none] else [some type]

/-- The number of slots of the arguments, and one more for a receiver. -/
def parameterLength (descriptor : MethodDescriptor) (receiver : Bool) : Nat :=
  descriptor.parameters.foldr (fun type length => type.width + length)
    (if receiver then 1 else 0)

/-- The number of slots of the result. -/
def resultWidth (descriptor : MethodDescriptor) : Nat :=
  match descriptor.result with
  | none => 0
  | some type => type.width

end MethodDescriptor

end StackMaps
