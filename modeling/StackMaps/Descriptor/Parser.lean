import StackMaps.Descriptor.Printer
import StackMaps.Error

/-!
# Reading descriptors

Every reader takes a text apart from the left and returns what it has not read.
A reader that fails returns the text in front of which it has stopped, which
fixes the offset of the error.
-/

namespace StackMaps

/-- Why a text is not a descriptor. -/
inductive DescriptorFault
  | missingPrimitive
  | notPrimitive (character : Char)
  | missingClassStart
  | missingClassEnd
  | name (fault : NameFault)
  | tooManyDimensions (count : Nat)
  | missingFieldType
  | missingParameters
  | trailing (character : Char)
  deriving DecidableEq

namespace DescriptorFault

/-- The description of a fault. -/
def message : DescriptorFault → String
  | .missingPrimitive => "missing primitive type"
  | .notPrimitive character => s!"`{character}` is not a primitive type"
  | .missingClassStart => "expected `L` to start a class type"
  | .missingClassEnd => "missing `;` after class name"
  | .name fault => fault.message
  | .tooManyDimensions count => s!"array type has {count} dimensions"
  | .missingFieldType => "missing field type"
  | .missingParameters => "expected `(` to start a method descriptor"
  | .trailing character => s!"unexpected trailing `{character}`"

end DescriptorFault

namespace Descriptor

/-- A fault, or what has been read, together with the text behind it. -/
abbrev Result (α : Type) := Except (DescriptorFault × List Char) (α × List Char)

/-- The greatest number of dimensions of an array. -/
def maxDimensions : Nat := 255

/-- Read a primitive type. -/
def readBase : List Char → Result BaseType
  | [] => .error (.missingPrimitive, [])
  | character :: rest =>
      match BaseType.all.find? fun type => type.letter == character with
      | some type => .ok (type, rest)
      | none => .error (.notPrimitive character, character :: rest)

/-- Read a class. -/
def readClass : List Char → Result BinaryName
  | 'L' :: rest =>
      match rest.dropWhile (· != ';') with
      | [] => .error (.missingClassEnd, rest)
      | _ :: behind =>
          match BinaryName.ofString (String.ofList (rest.takeWhile (· != ';'))) with
          | .ok name => .ok (name, behind)
          | .error fault => .error (.name fault, behind)
  | text => .error (.missingClassStart, text)

/-- Read a class or an array. -/
def readRef (text : List Char) : Result RefType :=
  let dimensions := (text.takeWhile (· == '[')).length
  let rest := text.dropWhile (· == '[')
  if maxDimensions < dimensions then
    .error (.tooManyDimensions dimensions, rest)
  else if dimensions = 0 then
    (readClass rest).map fun (name, behind) => (.object name, behind)
  else if rest.head? = some 'L' then
    (readClass rest).map fun (name, behind) => (.objectArray (dimensions - 1) name, behind)
  else
    (readBase rest).map fun (type, behind) => (.primitiveArray (dimensions - 1) type, behind)

/-- Read a field type. -/
def readField (text : List Char) : Result FieldType :=
  match text with
  | [] => .error (.missingFieldType, [])
  | character :: _ =>
      if character = 'L' || character = '[' then
        (readRef text).map fun (type, behind) => (.ref type, behind)
      else
        (readBase text).map fun (type, behind) => (.base type, behind)

/-- What follows a primitive type is shorter. -/
theorem length_lt_of_readBase
    {text behind : List Char}
    {type : BaseType}
    (read : readBase text = .ok (type, behind)) :
    behind.length < text.length := by
  unfold readBase at read
  split at read
  · contradiction
  · split at read
    · simp only [Except.ok.injEq, Prod.mk.injEq] at read
      simp [read.2]
    · contradiction

/-- What follows a class is shorter. -/
theorem length_lt_of_readClass
    {text behind : List Char}
    {name : BinaryName}
    (read : readClass text = .ok (name, behind)) :
    behind.length < text.length := by
  unfold readClass at read
  split at read
  · rename_i rest
    have shorter := (List.dropWhile_suffix (· != ';') : rest.dropWhile _ <:+ rest).length_le
    split at read
    · contradiction
    · rename_i found
      rw [found] at shorter
      split at read
      · simp only [Except.ok.injEq, Prod.mk.injEq] at read
        simp only [List.length_cons, read.2] at shorter ⊢
        omega
      · contradiction
  · contradiction

/-- A mapped reader leaves the same text behind. -/
theorem of_map_eq_ok
    {α β : Type}
    {result : Result α}
    {f : α → β}
    {value : β}
    {behind : List Char}
    (mapped : (result.map fun (read, behind) => (f read, behind)) = .ok (value, behind)) :
    ∃ read, result = .ok (read, behind) ∧ f read = value := by
  cases result with
  | error fault => simp [Except.map] at mapped
  | ok read =>
      simp only [Except.map, Except.ok.injEq, Prod.mk.injEq] at mapped
      exact ⟨read.1, by rw [← mapped.2], mapped.1⟩

/-- What follows a reference type is shorter. -/
theorem length_lt_of_readRef
    {text behind : List Char}
    {type : RefType}
    (read : readRef text = .ok (type, behind)) :
    behind.length < text.length := by
  have shorter := (List.dropWhile_suffix (· == '[') : text.dropWhile _ <:+ text).length_le
  unfold readRef at read
  dsimp only at read
  split at read
  · contradiction
  · split at read
    · obtain ⟨_, inner, _⟩ := of_map_eq_ok read
      have := length_lt_of_readClass inner
      omega
    · split at read
      · obtain ⟨_, inner, _⟩ := of_map_eq_ok read
        have := length_lt_of_readClass inner
        omega
      · obtain ⟨_, inner, _⟩ := of_map_eq_ok read
        have := length_lt_of_readBase inner
        omega

/-- What follows a field type is shorter. -/
theorem length_lt_of_readField
    {text behind : List Char}
    {type : FieldType}
    (read : readField text = .ok (type, behind)) :
    behind.length < text.length := by
  unfold readField at read
  split at read
  · contradiction
  · split at read
    · obtain ⟨_, inner, _⟩ := of_map_eq_ok read
      exact length_lt_of_readRef inner
    · obtain ⟨_, inner, _⟩ := of_map_eq_ok read
      exact length_lt_of_readBase inner

/-- Read field types up to a closing parenthesis. -/
def readParameters (text : List Char) : Result (List FieldType) :=
  match text with
  | ')' :: rest => .ok ([], rest)
  | text =>
      match _step : readField text with
      | .error fault => .error fault
      | .ok (type, behind) =>
          (readParameters behind).map fun (types, behind) => (type :: types, behind)
termination_by text.length
decreasing_by exact length_lt_of_readField _step

/-- Read the result of a method. -/
def readResult : List Char → Result (Option FieldType)
  | 'V' :: rest => .ok (none, rest)
  | text => (readField text).map fun (type, behind) => (some type, behind)

/-- Read the descriptor of a method. -/
def readMethod : List Char → Result MethodDescriptor
  | '(' :: rest =>
      match readParameters rest with
      | .error fault => .error fault
      | .ok (parameters, behind) =>
          (readResult behind).map fun (result, behind) => (⟨parameters, result⟩, behind)
  | text => .error (.missingParameters, text)

/-- The number of bytes of a text. -/
def byteLength (text : List Char) : Nat :=
  text.foldl (fun length character => length + character.utf8Size) 0

/-- Why and where a text is not a descriptor. The offset counts bytes. -/
structure Malformed where
  offset : Nat
  fault : DescriptorFault
  deriving DecidableEq

/-- The error for a malformed descriptor. -/
def Malformed.toError (malformed : Malformed) : Error :=
  .malformedDescriptor malformed.offset malformed.fault.message

/-- Read a text as exactly one descriptor. -/
def parseWith
    {α : Type}
    (read : List Char → Result α)
    (text : String) : Except Malformed α :=
  let characters := text.toList
  let fail (fault : DescriptorFault) (rest : List Char) : Except Malformed α :=
    .error ⟨byteLength characters - byteLength rest, fault⟩
  match read characters with
  | .error (fault, rest) => fail fault rest
  | .ok (value, []) => .ok value
  | .ok (_, character :: rest) => fail (.trailing character) (character :: rest)

end Descriptor

/-- Read the descriptor of a primitive type. -/
def BaseType.parse : String → Except Descriptor.Malformed BaseType :=
  Descriptor.parseWith Descriptor.readBase

/-- Read the descriptor of a class. -/
def BinaryName.parse : String → Except Descriptor.Malformed BinaryName :=
  Descriptor.parseWith Descriptor.readClass

/-- Read the descriptor of a reference type. -/
def RefType.parse : String → Except Descriptor.Malformed RefType :=
  Descriptor.parseWith Descriptor.readRef

/-- Read the descriptor of a field type. -/
def FieldType.parse : String → Except Descriptor.Malformed FieldType :=
  Descriptor.parseWith Descriptor.readField

/-- Read the descriptor of a method. -/
def MethodDescriptor.parse : String → Except Descriptor.Malformed MethodDescriptor :=
  Descriptor.parseWith Descriptor.readMethod

end StackMaps
