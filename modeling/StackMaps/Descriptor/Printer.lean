import StackMaps.Descriptor.Basic

/-!
# Writing descriptors

A primitive type is written as one letter, a class between `L` and a semicolon,
and an array with one bracket for every dimension in front of its element.
-/

namespace StackMaps

/-- The letter of a primitive type. -/
def BaseType.letter : BaseType → Char
  | .byte => 'B'
  | .char => 'C'
  | .double => 'D'
  | .float => 'F'
  | .int => 'I'
  | .long => 'J'
  | .short => 'S'
  | .boolean => 'Z'

/-- The descriptor of a primitive type. -/
def BaseType.descriptor (type : BaseType) : List Char := [type.letter]

/-- The descriptor of a class. -/
def BinaryName.descriptor (name : BinaryName) : List Char :=
  'L' :: name.text.toList ++ [';']

/-- The brackets of an array with some dimensions beyond the first. -/
def brackets (additional : Nat) : List Char :=
  List.replicate (additional + 1) '['

/-- The descriptor of a reference type. -/
def RefType.descriptor : RefType → List Char
  | .object name => name.descriptor
  | .objectArray additional element => brackets additional ++ element.descriptor
  | .primitiveArray additional element => brackets additional ++ element.descriptor

/-- The descriptor of a field type. -/
def FieldType.descriptor : FieldType → List Char
  | .base type => type.descriptor
  | .ref type => type.descriptor

/-- The descriptor of a method: its parameters in parentheses and its result. -/
def MethodDescriptor.descriptor (method : MethodDescriptor) : List Char :=
  '(' :: method.parameters.flatMap FieldType.descriptor ++
    ')' :: match method.result with
      | none => ['V']
      | some type => type.descriptor

/-- The text of a descriptor. -/
def BaseType.render (type : BaseType) : String := String.ofList type.descriptor

/-- The text of a descriptor. -/
def BinaryName.render (name : BinaryName) : String := String.ofList name.descriptor

/-- The text of a descriptor. -/
def RefType.render (type : RefType) : String := String.ofList type.descriptor

/-- The text of a descriptor. -/
def FieldType.render (type : FieldType) : String := String.ofList type.descriptor

/-- The text of a descriptor. -/
def MethodDescriptor.render (method : MethodDescriptor) : String :=
  String.ofList method.descriptor

/-- A class as an operand: its plain name, or the descriptor of an array. -/
def RefType.operand : RefType → String
  | .object name => name.text
  | array => array.render

end StackMaps
