import StackMaps.Decimal.Notation
import StackMaps.Descriptor.Printer
import StackMaps.Instruction.Basic
import StackMaps.Text.Quoted

/-!
# Writing instructions

The written form of an instruction is its mnemonic with its operands behind it,
all separated by single spaces. Small constants are written with the shortest
instruction that pushes them.
-/

namespace StackMaps

/-- The written form of a handle. -/
def MethodHandle.text (handle : MethodHandle) : String :=
  s!"{handle.kind} {handle.owner.text} {handle.name.text} {handle.descriptor}" ++
    if handle.interface then " interface" else ""

/-- The written form of a constant. -/
def Constant.text : Constant → String
  | .integer value => toString value.toInt
  | .float bits => String.ofList (Decimal.write Decimal.binary32 bits.toNat) ++ "f"
  | .long value => toString value.toInt ++ "L"
  | .double bits => String.ofList (Decimal.write Decimal.binary64 bits.toNat) ++ "d"
  | .string text => Text.quoted text
  | .classRef type => "class " ++ type.operand
  | .methodType descriptor => "methodtype " ++ descriptor.render
  | .methodHandle handle => "handle " ++ handle.text
  | .dynamic name type => s!"dynamic {name.text} " ++ type.render

/-- The written form of the instruction that pushes an integer. -/
def Constant.integerPush (value : Int) : String :=
  if value = -1 then "iconst_m1"
  else if 0 ≤ value && value ≤ 5 then s!"iconst_{value}"
  else if -128 ≤ value && value ≤ 127 then s!"bipush {value}"
  else if -32768 ≤ value && value ≤ 32767 then s!"sipush {value}"
  else s!"ldc {value}"

/-- The written form of the instruction that pushes a constant. -/
def Constant.pushText (constant : Constant) : String :=
  match constant with
  | .integer value => Constant.integerPush value.toInt
  | .long value =>
      if value = 0 || value = 1 then s!"lconst_{value.toInt}" else "ldc2_w " ++ constant.text
  | _ => (if constant.isWide then "ldc2_w " else "ldc ") ++ constant.text

namespace Instruction

/-- The written form of an instruction. -/
def text : Instruction → String
  | .mark label => label.text ++ ":"
  | .simple opcode => opcode.mnemonic
  | .var opcode index => s!"{opcode.mnemonic} {index}"
  | .type opcode operand => s!"{opcode.mnemonic} {operand.operand}"
  | .field opcode owner name declared =>
      s!"{opcode.mnemonic} {owner.text} {name.text} {declared.render}"
  | .method opcode owner name descriptor interface =>
      s!"{opcode.mnemonic} {owner.text} {name.text} {descriptor.render}" ++
        if interface && opcode != .invokeinterface then " interface" else ""
  | .increment index value => s!"iinc {index} {value.toInt}"
  | .push constant => constant.pushText
  | .branch opcode target => s!"{opcode.mnemonic} {target.text}"
  | .lookupSwitch fallback targets =>
      "lookupswitch" ++
        String.join (targets.map fun (key, target) => s!" {key.toInt}:{target.text}") ++
        s!" default:{fallback.text}"
  | .tableSwitch fallback low targets =>
      s!"tableswitch {low.toInt}" ++
        String.join (targets.map fun target => " " ++ target.text) ++
        s!" default:{fallback.text}"
  | .multiNewArray operand dimensions =>
      s!"multianewarray {operand.operand} {dimensions}"
  | .newArray (.base element) => "newarray " ++ element.keyword
  | .newArray (.ref element) => "anewarray " ++ element.operand
  | .invokeDynamic name descriptor bootstrap arguments =>
      s!"invokedynamic {name.text} {descriptor.render} {bootstrap.text}" ++
        String.join (arguments.map fun argument => " , " ++ argument.text)

end Instruction

end StackMaps
