import StackMaps.Listing.Instruction
import StackMaps.Method

/-!
# Reading listings

A listing is read line by line. Directives begin with a period: they start
classes and methods, end methods and say more about them. The other lines of a
method are marks, which end with a colon, and instructions.
-/

namespace StackMaps
namespace Listing

/-- A method that has not been ended yet. -/
structure OpenMethod where
  name : UnqualifiedName
  descriptor : MethodDescriptor
  flags : MethodFlags
  /-- The instructions, the latest first. -/
  instructions : List Instruction
  /-- The protected ranges, the latest first. -/
  ranges : List ExceptionRange
  labels : LabelTable
  maxStack : UInt16
  maxLocals : UInt16

/-- What has been read so far. -/
structure ParseState where
  /-- The finished classes, the latest first. -/
  classes : List ClassDefinition
  /-- The class that is being read, with its methods in reverse. -/
  current : Option ClassDefinition
  method : Option OpenMethod

/-- Nothing has been read. -/
def ParseState.start : ParseState := ⟨[], none, none⟩

/-- A class whose methods have been read in reverse. -/
def finishClass (definition : ClassDefinition) : ClassDefinition :=
  { definition with methods := definition.methods.reverse }

/-- Read the flags in front of a name. -/
def readFlags
    {α : Type}
    (ofKeyword? : String → Option α)
    (unknown : String → ListingFault)
    (union : α → α → α)
    (empty : α)
    (words : List String) : Reading α :=
  words.foldlM
    (fun flags word =>
      match ofKeyword? word with
      | some flag => .ok (union flags flag)
      | none => .error (unknown word))
    empty

/-- Start a class. -/
def startClass (state : ParseState) (text : List Char) : Reading ParseState := do
  if state.method.isSome then throw (.missingEndBefore ".class")
  let words := wordStrings text
  match words.getLast? with
  | none => throw .missingClassName
  | some name =>
      let name ← readBinaryName name
      let flags ← readFlags ClassFlags.ofKeyword? .unknownClassFlag ClassFlags.union .empty
        words.dropLast
      let definition : ClassDefinition :=
        { name
          superclass := if name = .object then none else some .object
          interfaces := []
          flags
          methods := [] }
      pure { state with
        classes := (state.current.map finishClass).toList ++ state.classes
        current := some definition }

/-- Add to the header of the class that is being read. -/
def extendHeader
    (state : ParseState)
    (directive : String)
    (text : List Char)
    (extend : ClassDefinition → BinaryName → ClassDefinition) : Reading ParseState := do
  let name ← readBinaryName (String.ofList (Text.trim text))
  match state.current, state.method with
  | some definition, none => pure { state with current := some (extend definition name) }
  | _, _ => throw (.outsideHeader directive)

/-- Start a method. -/
def startMethod (state : ParseState) (text : List Char) : Reading ParseState := do
  if state.current.isNone then throw .methodOutside
  if state.method.isSome then throw (.missingEndBefore ".method")
  let words := wordStrings text
  match words.getLast? with
  | none => throw .missingSignature
  | some signature =>
      let flags ← readFlags MethodFlags.ofKeyword? .unknownMethodFlag MethodFlags.union .empty
        words.dropLast
      let characters := signature.toList
      let name := characters.takeWhile (· != '(')
      let descriptor := characters.dropWhile (· != '(')
      if descriptor.isEmpty then throw (.missingDescriptor signature)
      let name ← readUnqualifiedName (String.ofList name)
      let descriptor ← readDescriptor MethodDescriptor.parse (String.ofList descriptor)
      pure { state with
        method := some
          { name
            descriptor
            flags
            instructions := []
            ranges := []
            labels := .empty
            maxStack := 0
            maxLocals := 0 } }

/-- The body of a method that has been read. -/
def OpenMethod.body (opened : OpenMethod) : Body :=
  { instructions := opened.instructions.reverse
    ranges := opened.ranges.reverse
    maxStack := opened.maxStack
    maxLocals := opened.maxLocals
    frames := []
    nextLabel := opened.labels.nextLabel }

/-- A fault on a line. -/
def atLine {α : Type} (line : Nat) (reading : Reading α) : Except SyntaxError α :=
  reading.mapError (SyntaxError.mk line)

/-- End a method. All labels must have been placed, and a method that is abstract
or native must not have instructions. -/
def endMethod (line : Nat) (state : ParseState) (text : List Char) :
    Except SyntaxError ParseState := do
  if String.ofList (Text.trim text) ≠ "method" then throw ⟨line, .endForm⟩
  match state.method with
  | none => throw ⟨line, .endOutside⟩
  | some opened =>
      match opened.labels.unplaced? with
      | some (name, mentioned) => throw ⟨mentioned, .unplacedLabel name⟩
      | none =>
          let bodiless := opened.flags.isBodiless
          if bodiless && !opened.instructions.isEmpty then
            throw ⟨line, .unwantedBody opened.name⟩
          let method : Method :=
            { name := opened.name
              descriptor := opened.descriptor
              flags := opened.flags
              body := if bodiless then none else some opened.body }
          let extend (definition : ClassDefinition) : ClassDefinition :=
            { definition with methods := method :: definition.methods }
          pure { state with current := state.current.map extend, method := none }

/-- Let the labels of the method that is being read be mentioned. -/
def withLabels
    {α : Type}
    (state : ParseState)
    (read : LabelReading α) : Reading (α × Option OpenMethod) := do
  let (value, labels) ← read.run (state.method.map (·.labels))
  let extended :=
    match state.method, labels with
    | some opened, some labels => some { opened with labels }
    | _, _ => none
  pure (value, extended)

/-- Add a protected range to the method that is being read. -/
def addRange (line : Nat) (state : ParseState) (text : List Char) : Reading ParseState := do
  match wordStrings text with
  | [caught, "from", start, "to", stop, "using", handler] =>
      let catchType ←
        if caught = "any" then pure none else (readBinaryName caught).map some
      let (range, method) ← withLabels state do
        let start ← readLabel line start
        let stop ← readLabel line stop
        let handler ← readLabel line handler
        pure { start, stop, handler, catchType : ExceptionRange }
      match method with
      | some opened =>
          pure { state with method := some { opened with ranges := range :: opened.ranges } }
      | none => throw .catchOutside
  | _ => throw .catchForm

/-- Set a limit of the method that is being read. -/
def setLimit (state : ParseState) (text : List Char) : Reading ParseState := do
  match wordStrings text with
  | [which, value] =>
      let value ← readWord value
      match state.method with
      | none => throw .limitOutside
      | some opened =>
          match which with
          | "stack" => pure { state with method := some { opened with maxStack := value } }
          | "locals" => pure { state with method := some { opened with maxLocals := value } }
          | _ => throw (.unknownLimit which)
  | _ => throw .limitForm

/-- Mark the position of a label. -/
def placeLabel (line : Nat) (state : ParseState) (name : String) : Reading ParseState := do
  let (label, method) ← withLabels state (readLabel line name)
  match method with
  | none => throw .labelOutside
  | some opened =>
      match opened.labels.placed[label]? with
      | some previous => throw (.labelPlacedTwice name previous)
      | none =>
          let labels := { opened.labels with placed := opened.labels.placed.insert label line }
          pure { state with
            method := some
              { opened with labels, instructions := .mark label :: opened.instructions } }

/-- Add an instruction to the method that is being read. -/
def addInstruction
    (line : Nat)
    (state : ParseState)
    (mnemonic : String)
    (text : List Char) : Reading ParseState := do
  let (instruction, method) ← withLabels state (readInstruction line mnemonic (Text.trim text))
  match method with
  | none => throw .instructionOutside
  | some opened =>
      pure { state with
        method := some { opened with instructions := instruction :: opened.instructions } }

/-- Read a line that is neither blank nor a comment. -/
def readLine (line : Nat) (state : ParseState) (text : List Char) :
    Except SyntaxError ParseState :=
  let (first, rest) := Text.splitWord text
  match String.ofList first with
  | ".class" => atLine line (startClass state rest)
  | ".super" =>
      atLine line (extendHeader state ".super" rest fun definition name =>
        { definition with superclass := some name })
  | ".implements" =>
      atLine line (extendHeader state ".implements" rest fun definition name =>
        { definition with interfaces := definition.interfaces ++ [name] })
  | ".method" => atLine line (startMethod state rest)
  | ".end" => endMethod line state rest
  | ".catch" => atLine line (addRange line state rest)
  | ".limit" => atLine line (setLimit state rest)
  | word =>
      if first.head? = some '.' then throw ⟨line, .unknownDirective word⟩
      else if rest.isEmpty && first.getLast? = some ':' then
        atLine line (placeLabel line state (String.ofList first.dropLast))
      else atLine line (addInstruction line state word rest)

/-- Read a line, given by its number and its text. -/
def readNumbered (state : ParseState) (numbered : List Char × Nat) :
    Except SyntaxError ParseState :=
  match Text.trim (stripComment numbered.1) with
  | [] => .ok state
  | text => readLine numbered.2 state text

/-- Read a listing. -/
def parse (source : String) : Except SyntaxError Listing := do
  let lines := Text.lines source.toList
  let state ← (lines.zipIdx 1).foldlM readNumbered .start
  if state.method.isSome then throw ⟨lines.length, .missingEnd⟩
  pure ⟨((state.current.map finishClass).toList ++ state.classes).reverse⟩

end Listing
end StackMaps
