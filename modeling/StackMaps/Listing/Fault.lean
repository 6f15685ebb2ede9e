import StackMaps.Descriptor.Parser
import StackMaps.Instruction.Printer

/-!
# Faults of listings

Every way in which a line of a listing can be wrong.
-/

namespace StackMaps

/-- Why a line does not belong into a listing. -/
inductive ListingFault
  | malformedName (fault : NameFault)
  | malformedDescriptor (text : String) (malformed : Descriptor.Malformed)
  | outsideHeader (directive : String)
  | unknownDirective (directive : String)
  | instructionOutside
  | missingEnd
  | missingEndBefore (directive : String)
  | missingClassName
  | unknownClassFlag (word : String)
  | methodOutside
  | missingSignature
  | unknownMethodFlag (word : String)
  | missingDescriptor (signature : String)
  | endForm
  | endOutside
  | unplacedLabel (name : String)
  | unwantedBody (name : UnqualifiedName)
  | catchForm
  | catchOutside
  | limitForm
  | limitOutside
  | unknownLimit (word : String)
  | labelOutside
  | invalidLabel (name : String)
  | labelPlacedTwice (name : String) (line : Nat)
  | unknownInstruction (mnemonic : String)
  | operandCount (mnemonic : String) (expected actual : Nat)
  | malformedNumber (text : String)
  | outOfRange (mnemonic : String) (value : Int)
  | cannotLoad (mnemonic : String) (constant : Constant)
  | missingLow
  | missingDefault
  | switchEntry (entry : String)
  | callForm (mnemonic : String)
  | dynamicCallForm
  | unknownPrimitive (keyword : String)
  | wideAlone
  | malformedString (text : String)
  | malformedConstant (text : String)
  | handleForm
  | handleKind (kind : Nat)
  deriving DecidableEq

namespace ListingFault

/-- The description of a fault. -/
def message : ListingFault → String
  | .malformedName fault => fault.message
  | .malformedDescriptor text malformed =>
      s!"bad descriptor `{text}`: " ++ malformed.toError.message
  | .outsideHeader directive => s!"`{directive}` outside of a class header"
  | .unknownDirective directive => s!"unknown directive `{directive}`"
  | .instructionOutside => "instruction outside of a method"
  | .missingEnd => "missing `.end method`"
  | .missingEndBefore directive => s!"missing `.end method` before `{directive}`"
  | .missingClassName => "missing class name"
  | .unknownClassFlag word => s!"unknown class flag `{word}`"
  | .methodOutside => "`.method` outside of a class"
  | .missingSignature => "missing method name and descriptor"
  | .unknownMethodFlag word => s!"unknown method flag `{word}`"
  | .missingDescriptor signature => s!"missing descriptor in `{signature}`"
  | .endForm => "expected `.end method`"
  | .endOutside => "`.end method` outside of a method"
  | .unplacedLabel name => s!"label `{name}` is never placed"
  | .unwantedBody name => s!"method `{name.text}` cannot have a body"
  | .catchForm =>
      "expected `.catch <class|any> from <label> to <label> using <label>`"
  | .catchOutside => "`.catch` outside of a method"
  | .limitForm => "expected `.limit stack|locals <n>`"
  | .limitOutside => "`.limit` outside of a method"
  | .unknownLimit word => s!"unknown limit `{word}`"
  | .labelOutside => "label outside of a method"
  | .invalidLabel name => s!"invalid label name `{name}`"
  | .labelPlacedTwice name line => s!"label `{name}` is already placed on line {line}"
  | .unknownInstruction mnemonic => s!"unknown instruction `{mnemonic}`"
  | .operandCount mnemonic expected actual =>
      s!"`{mnemonic}` expects {expected} operand(s), got {actual}"
  | .malformedNumber text => s!"malformed number `{text}`"
  | .outOfRange mnemonic value => s!"`{mnemonic}` operand {value} is out of range"
  | .cannotLoad mnemonic constant => s!"`{mnemonic}` cannot load {constant.text}"
  | .missingLow => "`tableswitch` needs a low index"
  | .missingDefault => "switch needs a `default:<label>` operand last"
  | .switchEntry entry => s!"expected `key:label`, got `{entry}`"
  | .callForm mnemonic => s!"`{mnemonic}` expects an owner, name, and descriptor"
  | .dynamicCallForm => "`invokedynamic` expects a name, descriptor, and bootstrap handle"
  | .unknownPrimitive keyword => s!"unknown primitive type `{keyword}`"
  | .wideAlone => "`wide` is implied by the operands of the next instruction"
  | .malformedString text => s!"malformed string literal {text}"
  | .malformedConstant text => s!"malformed constant `{text}`"
  | .handleForm => "method handles are `<kind> <owner> <name> <descriptor>`"
  | .handleKind kind => s!"invalid method handle kind {kind}"

end ListingFault

/-- A fault on a line. Lines are counted from one. -/
structure SyntaxError where
  line : Nat
  fault : ListingFault
  deriving DecidableEq

/-- The error for a fault on a line. -/
def SyntaxError.toError (error : SyntaxError) : Error :=
  .malformedListing error.line error.fault.message

end StackMaps
