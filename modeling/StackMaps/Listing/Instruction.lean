import StackMaps.Instruction.StackEffect
import StackMaps.Listing.LabelTable
import StackMaps.Listing.Operand

/-!
# Reading instructions

A line with an instruction is its mnemonic with its operands behind it. Labels are
mentioned in the order in which they are read, that of the default before those
of the other targets of a switch.
-/

namespace StackMaps
namespace Listing

/-- Reads something that can mention labels. There is no table of labels outside
of a method. -/
abbrev LabelReading := StateT (Option LabelTable) (Except ListingFault)

/-- Read the name of a label. -/
def readLabel (line : Nat) (name : String) : LabelReading Label := fun scope =>
  if name = "" || name.toList.contains ':' then .error (.invalidLabel name)
  else
    match scope with
    | none => .error .labelOutside
    | some table =>
        let (label, table) := table.mention line name
        .ok (label, some table)

/-- The only operand. -/
def oneOperand (mnemonic : String) (operands : List String) : Reading String :=
  match operands with
  | [first] => .ok first
  | _ => .error (.operandCount mnemonic 1 operands.length)

/-- The only two operands. -/
def twoOperands (mnemonic : String) (operands : List String) : Reading (String × String) :=
  match operands with
  | [first, second] => .ok (first, second)
  | _ => .error (.operandCount mnemonic 2 operands.length)

/-- The only three operands. -/
def threeOperands (mnemonic : String) (operands : List String) :
    Reading (String × String × String) :=
  match operands with
  | [first, second, third] => .ok (first, second, third)
  | _ => .error (.operandCount mnemonic 3 operands.length)

/-- Read the default of a switch, which is its last operand. The other operands
are left. -/
def readDefault (line : Nat) (operands : List String) :
    LabelReading (Label × List String) :=
  match operands.getLast? with
  | none => throw .missingDefault
  | some last =>
      let keyword := "default:".toList
      let text := last.toList
      if keyword.isPrefixOf text then do
        let fallback ← readLabel line (String.ofList (text.drop keyword.length))
        pure (fallback, operands.dropLast)
      else throw .missingDefault

/-- Read a key and a target with a colon between them. -/
def readEntry (line : Nat) (entry : String) : LabelReading (Int32 × Label) := do
  let text := entry.toList
  match text.dropWhile (· != ':') with
  | [] => throw (.switchEntry entry)
  | _ :: target =>
      let key ← readInt (String.ofList (text.takeWhile (· != ':')))
      let label ← readLabel line (String.ofList target)
      pure (key, label)

/-- Read the operands of a push of a small integer. -/
def readSmall (mnemonic : String) (least greatest : Int) (operands : List String) :
    Reading Instruction := do
  let value ← readInt (← oneOperand mnemonic operands)
  if value.toInt < least || greatest < value.toInt then
    throw (.outOfRange mnemonic value.toInt)
  pure (.push (.integer value))

/-- Read the operands of a push of a constant, which must have the right width. -/
def readLoad (mnemonic : String) (wide : Bool) (text : List Char) : Reading Instruction := do
  let constant ← readConstant text
  if constant.isWide != wide then throw (.cannotLoad mnemonic constant)
  pure (.push constant)

/-- Read the operands of a call. -/
def readCall (opcode : Opcode) (mnemonic : String) (operands : List String) :
    Reading Instruction :=
  let call (owner name descriptor : String) (interface : Bool) : Reading Instruction := do
    let owner ← readBinaryName owner
    let name ← readUnqualifiedName name
    let descriptor ← readDescriptor MethodDescriptor.parse descriptor
    pure (.method opcode owner name descriptor (interface || opcode == .invokeinterface))
  match operands with
  | [owner, name, descriptor] => call owner name descriptor false
  | [owner, name, descriptor, "interface"] => call owner name descriptor true
  | _ => throw (.callForm mnemonic)

/-- Read the operands of an access to a field. -/
def readField (opcode : Opcode) (mnemonic : String) (operands : List String) :
    Reading Instruction := do
  let (owner, name, descriptor) ← threeOperands mnemonic operands
  let owner ← readBinaryName owner
  let name ← readUnqualifiedName name
  let declared ← readDescriptor FieldType.parse descriptor
  pure (.field opcode owner name declared)

/-- Read the operands of a switch by index. -/
def readTableSwitch (line : Nat) (operands : List String) : LabelReading Instruction := do
  match operands with
  | [] => throw .missingLow
  | low :: rest =>
      let low ← readInt low
      let (fallback, targets) ← readDefault line rest
      let targets ← targets.mapM (readLabel line)
      pure (.tableSwitch fallback low targets)

/-- Read the operands of a switch by key. -/
def readLookupSwitch (line : Nat) (operands : List String) : LabelReading Instruction := do
  let (fallback, entries) ← readDefault line operands
  let targets ← entries.mapM (readEntry line)
  pure (.lookupSwitch fallback targets)

/-- Read an instruction whose operands do not mention labels. -/
def readPlain (opcode : Opcode) (mnemonic : String) (text : List Char) :
    Reading Instruction := do
  let operands := wordStrings text
  match opcode with
  | .bipush => readSmall mnemonic (-128) 127 operands
  | .sipush => readSmall mnemonic (-32768) 32767 operands
  | .ldc | .ldcW => readLoad mnemonic false text
  | .ldc2W => readLoad mnemonic true text
  | .iinc =>
      let (index, value) ← twoOperands mnemonic operands
      let index ← readWord index
      let value ← readShort value
      pure (.increment index value)
  | .invokedynamic => readDynamicCall text
  | .new | .checkcast | .instanceof =>
      let operand ← readClass (← oneOperand mnemonic operands)
      pure (.type opcode operand)
  | .newarray =>
      let keyword ← oneOperand mnemonic operands
      match BaseType.ofKeyword? keyword with
      | some element => pure (.newArray (.base element))
      | none => throw (.unknownPrimitive keyword)
  | .anewarray =>
      let element ← readClass (← oneOperand mnemonic operands)
      pure (.newArray (.ref element))
  | .multianewarray =>
      let (operand, dimensions) ← twoOperands mnemonic operands
      let operand ← readClass operand
      let dimensions ← readByte dimensions
      pure (.multiNewArray operand dimensions)
  | .wide => throw .wideAlone
  | _ =>
      if opcode.variableAccess?.isSome || opcode == .ret then
        let index ← readWord (← oneOperand mnemonic operands)
        pure (.var opcode index)
      else if opcode.isBetween .getstatic .putfield then
        readField opcode mnemonic operands
      else if opcode.isBetween .invokevirtual .invokeinterface then
        readCall opcode mnemonic operands
      else if operands.isEmpty then
        pure (.simple opcode)
      else
        throw (.operandCount mnemonic 0 operands.length)

/-- Is the operation a jump to one label? -/
def isJump (opcode : Opcode) : Bool :=
  opcode.isBetween .ifeq .jsr || opcode == .ifnull || opcode == .ifnonnull ||
    opcode == .gotoW || opcode == .jsrW

/-- Read an instruction from its mnemonic and the text behind it. -/
def readInstruction (line : Nat) (mnemonic : String) (text : List Char) :
    LabelReading Instruction := do
  match Opcode.ofMnemonic? mnemonic with
  | none => throw (.unknownInstruction mnemonic)
  | some .tableswitch => readTableSwitch line (wordStrings text)
  | some .lookupswitch => readLookupSwitch line (wordStrings text)
  | some opcode =>
      if isJump opcode then
        let target ← readLabel line (← oneOperand mnemonic (wordStrings text))
        pure (.branch opcode target)
      else readPlain opcode mnemonic text

end Listing
end StackMaps
