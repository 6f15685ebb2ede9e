import StackMaps.Listing.Fault
import StackMaps.Listing.Line

/-!
# Operands

How the operands of instructions are read: numbers, names, descriptors, classes,
method handles and constants. The word `interface` behind a method says that its
owner is one.
-/

namespace StackMaps
namespace Listing

/-- What has been read, or a fault. -/
abbrev Reading (α : Type) := Except ListingFault α

/-- Read a number, or report the text. -/
def readNumber {α : Type} (read : List Char → Option α) (text : String) : Reading α :=
  match read text.toList with
  | some number => .ok number
  | none => .error (.malformedNumber text)

/-- Read a number of 8 bits without a sign. -/
def readByte : String → Reading UInt8 :=
  readNumber fun text => (Numeral.readBits? 8 text).map UInt8.ofNat

/-- Read a number of 16 bits without a sign. -/
def readWord : String → Reading UInt16 :=
  readNumber fun text => (Numeral.readBits? 16 text).map UInt16.ofNat

/-- Read a number of 16 bits. -/
def readShort : String → Reading Int16 :=
  readNumber fun text => (Numeral.readSigned? 16 text).map Int16.ofInt

/-- Read a number of 32 bits. -/
def readInt : String → Reading Int32 :=
  readNumber fun text => (Numeral.readSigned? 32 text).map Int32.ofInt

/-- Read the name of a class. -/
def readBinaryName (text : String) : Reading BinaryName :=
  (BinaryName.ofString text).mapError .malformedName

/-- Read the name of a method or field. -/
def readUnqualifiedName (text : String) : Reading UnqualifiedName :=
  (UnqualifiedName.ofString text).mapError .malformedName

/-- Read a descriptor. -/
def readDescriptor
    {α : Type}
    (parse : String → Except Descriptor.Malformed α)
    (text : String) : Reading α :=
  (parse text).mapError (.malformedDescriptor text)

/-- Read a class, given by its name, or an array, given by its descriptor. -/
def readClass (text : String) : Reading RefType :=
  if text.toList.head? = some '[' then readDescriptor RefType.parse text
  else (readBinaryName text).map .object

/-- Read a method handle. -/
def readHandle (words : List String) : Reading MethodHandle :=
  let handle (kind owner name descriptor : String) (interface : Bool) :
      Reading MethodHandle := do
    let number ← readByte kind
    if number = 0 || 9 < number then throw (.handleKind number.toNat)
    let owner ← readBinaryName owner
    let name ← readUnqualifiedName name
    pure { kind := number, owner, name, descriptor, interface }
  match words with
  | [kind, owner, name, descriptor] => handle kind owner name descriptor false
  | [kind, owner, name, descriptor, "interface"] => handle kind owner name descriptor true
  | _ => throw .handleForm

/-- Read a numeric constant. The last letter tells long and floating-point numbers
from integers. -/
def readNumeric? (text : List Char) : Option Constant :=
  let magnitude := text.dropLast
  match text.getLast? with
  | some 'L' => (Numeral.readSigned? 64 magnitude).map fun value => .long (Int64.ofInt value)
  | some 'f' =>
      (Decimal.read? Decimal.binary32 magnitude).map fun bits => .float (UInt32.ofNat bits)
  | some 'd' =>
      (Decimal.read? Decimal.binary64 magnitude).map fun bits => .double (UInt64.ofNat bits)
  | _ => (Numeral.readSigned? 32 text).map fun value => .integer (Int32.ofInt value)

/-- Read a constant. Texts stand in quotes, constants that are neither texts nor
numbers begin with a keyword. -/
def readConstant (text : List Char) : Reading Constant :=
  let text := Text.trim text
  if text.head? = some '"' then
    match Text.Quoted.decode text with
    | some content => .ok (.string (String.ofList content))
    | none => .error (.malformedString (String.ofList text))
  else
    let (keyword, behind) := Text.splitWord text
    let rest := Text.trim behind
    match String.ofList keyword with
    | "class" => (readClass (String.ofList rest)).map .classRef
    | "methodtype" =>
        (readDescriptor MethodDescriptor.parse (String.ofList rest)).map .methodType
    | "handle" => (readHandle (wordStrings rest)).map .methodHandle
    | "dynamic" => do
        let (name, behind) := Text.splitWord rest
        let name ← readUnqualifiedName (String.ofList name)
        let type ← readDescriptor FieldType.parse (String.ofList (Text.trim behind))
        pure (.dynamic name type)
    | _ =>
        match readNumeric? text with
        | some constant => .ok constant
        | none => .error (.malformedConstant (String.ofList text))

/-- Read the operands of a dynamic call: name, descriptor and bootstrap handle, and
arguments behind commas. -/
def readDynamicCall (text : List Char) : Reading Instruction := do
  let parts := splitArguments text
  match wordStrings (parts.headD []) with
  | name :: descriptor :: bootstrap@(_ :: _) =>
      let arguments ← (parts.drop 1).mapM readConstant
      let name ← readUnqualifiedName name
      let descriptor ← readDescriptor MethodDescriptor.parse descriptor
      let bootstrap ← readHandle bootstrap
      pure (.invokeDynamic name descriptor bootstrap arguments)
  | _ => throw .dynamicCallForm

end Listing
end StackMaps
