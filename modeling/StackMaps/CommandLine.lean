import StackMaps.Hierarchy.Library
import StackMaps.Listing.Parser
import StackMaps.Listing.Printer
import StackMaps.Numeral
import StackMaps.Recompute

/-!
# Command line

The options of the program, and what it does with a listing: it reads it,
recomputes all bodies and writes it again.
-/

namespace StackMaps
namespace CommandLine

/-- What the program has been asked to do. -/
structure Options where
  /-- Only the limits are recomputed. -/
  maxesOnly : Bool
  /-- The library classes are not known from the start. -/
  withoutLibrary : Bool
  /-- From how many visits on the entry of a block is widened. -/
  threshold : Nat
  /-- The file to read, or a hyphen for the standard input. -/
  input : Option String
  deriving DecidableEq

/-- Nothing has been asked yet. -/
def Options.initial : Options := ⟨false, false, defaultThreshold, none⟩

/-- Why the arguments make no sense. -/
inductive UsageFault
  | missingInput
  | missingValue (option : String)
  | malformedValue (option value : String)
  | unknownOption (option : String)
  | unexpected (argument : String)
  deriving DecidableEq

/-- The description of a fault. -/
def UsageFault.message : UsageFault → String
  | .missingInput => "the following required arguments were not provided: <INPUT>"
  | .missingValue option => s!"a value is required for '{option} <VISITS>' but none was supplied"
  | .malformedValue option value => s!"invalid value '{value}' for '{option} <VISITS>'"
  | .unknownOption option => s!"unexpected argument '{option}' found"
  | .unexpected argument => s!"unexpected argument '{argument}' found"

/-- The option that sets the threshold. -/
def thresholdOption : String := "--widening-threshold"

/-- Set the threshold. -/
def setThreshold (options : Options) (value : String) : Except UsageFault Options :=
  match Numeral.readBits? 64 value.toList with
  | some threshold => .ok { options with threshold }
  | none => .error (.malformedValue thresholdOption value)

/-- Take the name of the input. There is only one. -/
def setInput (options : Options) (argument : String) : Except UsageFault Options :=
  match options.input with
  | none => .ok { options with input := some argument }
  | some _ => .error (.unexpected argument)

/-- Read the arguments. After two hyphens, no argument is an option. -/
def readArguments (options : Options) : List String → Except UsageFault Options
  | [] => .ok options
  | "--" :: rest => rest.foldlM setInput options
  | "--maxes-only" :: rest => readArguments { options with maxesOnly := true } rest
  | "--no-runtime-classes" :: rest => readArguments { options with withoutLibrary := true } rest
  | [argument] =>
      if argument = thresholdOption then .error (.missingValue argument)
      else readWord options argument
  | argument :: value :: rest =>
      if argument = thresholdOption then do
        readArguments (← setThreshold options value) rest
      else do
        readArguments (← readWord options argument) (value :: rest)
where
  /-- Read an argument that stands for itself. -/
  readWord (options : Options) (argument : String) : Except UsageFault Options :=
    let assignment := (thresholdOption ++ "=").toList
    let text := argument.toList
    if assignment.isPrefixOf text then
      setThreshold options (String.ofList (text.drop assignment.length))
    else if text.head? = some '-' && argument ≠ "-" then .error (.unknownOption argument)
    else setInput options argument

/-- Recompute the bodies of a listing and write it. -/
def recomputeText (options : Options) (source : String) : Except Error String := do
  let listing ← (Listing.parse source).mapError SyntaxError.toError
  let library := if options.withoutLibrary then .empty else ClassGraph.empty.withLibrary
  let settings : Settings :=
    { compute := if options.maxesOnly then .maxes else .frames
      threshold := options.threshold }
  match listing.recompute (some (listing.declareIn library).hierarchy) settings with
  | (recomputed, none) => pure recomputed.text
  | (_, some error) => throw error

end CommandLine
end StackMaps
