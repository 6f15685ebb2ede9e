import StackMaps.Listing.Operand
import StackMaps.Proofs.Descriptor.Reading
import StackMaps.Proofs.Text.Quoting

/-!
# Operands read back

What is read as an operand is written in a form that is read as the same operand. Names
and descriptors are written as they were read, numbers and quoted texts anew.
-/

namespace StackMaps

/-- A constant that is not a decimal fraction. -/
def Constant.IsExact : Constant → Prop
  | .float _ | .double _ => False
  | _ => True

instance : DecidablePred Constant.IsExact
  | .float _ | .double _ => .isFalse not_false
  | .integer _ | .long _ | .string _ | .classRef _ | .methodType _ | .methodHandle _
  | .dynamic .. => .isTrue trivial
namespace Listing

open Text

theorem bind_eq_ok
    {ε α β : Type}
    {first : Except ε α}
    {next : α → Except ε β}
    {result : β} :
    first >>= next = .ok result ↔ ∃ value, first = .ok value ∧ next value = .ok result := by
  cases first with
  | error fault => exact iff_of_false (by rintro ⟨⟩) (by rintro ⟨_, ⟨⟩, _⟩)
  | ok value =>
      refine ⟨fun continued => ⟨value, rfl, continued⟩, ?_⟩
      rintro ⟨_, same, continued⟩
      rwa [← Except.ok.inj same] at continued

theorem mapError_eq_ok
    {ε δ α : Type}
    {change : ε → δ}
    {reading : Except ε α}
    {value : α} :
    reading.mapError change = .ok value ↔ reading = .ok value := by
  cases reading with
  | error fault => exact iff_of_false (by rintro ⟨⟩) (by rintro ⟨⟩)
  | ok result => simp [Except.mapError]

theorem map_eq_ok
    {ε α β : Type}
    {change : α → β}
    {reading : Except ε α}
    {value : β} :
    reading.map change = .ok value ↔ ∃ result, reading = .ok result ∧ change result = value := by
  cases reading with
  | error fault => exact iff_of_false (by rintro ⟨⟩) (by rintro ⟨_, ⟨⟩, _⟩)
  | ok result => simp [Except.map]

theorem toString_string (text : String) : toString text = text := rfl

theorem toString_int (value : Int) : toString value = value.repr := by
  cases value <;> rfl

/-! ## Numbers -/

theorem readByte_toString (value : UInt8) : readByte (toString value) = .ok value := by
  have written : (toString value).toList = Nat.toDigits 10 value.toNat := by
    change (toString value.toNat).toList = _
    simp
  rw [readByte, readNumber, written, Numeral.readBits?_toDigits value.toNat_lt]
  simp

theorem readWord_toString (value : UInt16) : readWord (toString value) = .ok value := by
  have written : (toString value).toList = Nat.toDigits 10 value.toNat := by
    change (toString value.toNat).toList = _
    simp
  rw [readWord, readNumber, written, Numeral.readBits?_toDigits value.toNat_lt]
  simp

theorem readShort_toString (value : Int16) : readShort (toString value.toInt) = .ok value := by
  have read := @Numeral.readSigned?_repr 16 _ value.le_toInt value.toInt_lt
  rw [readShort, readNumber, toString_int, read]
  simp

theorem readInt_toString (value : Int32) : readInt (toString value.toInt) = .ok value := by
  have read := @Numeral.readSigned?_repr 32 _ value.le_toInt value.toInt_lt
  rw [readInt, readNumber, toString_int, read]
  simp

/-! ## Classes and descriptors -/

theorem readBinaryName_text (name : BinaryName) : readBinaryName name.text = .ok name := by
  rw [readBinaryName, mapError_eq_ok]
  exact name.ofString_text

theorem readUnqualifiedName_text (name : UnqualifiedName) :
    readUnqualifiedName name.text = .ok name := by
  rw [readUnqualifiedName, mapError_eq_ok]
  exact name.ofString_text

theorem text_of_readBinaryName {text : String} {name : BinaryName}
    (read : readBinaryName text = .ok name) : name.text = text :=
  BinaryName.text_of_ofString (mapError_eq_ok.mp read)

theorem text_of_readUnqualifiedName {text : String} {name : UnqualifiedName}
    (read : readUnqualifiedName text = .ok name) : name.text = text :=
  UnqualifiedName.text_of_ofString (mapError_eq_ok.mp read)

theorem render_of_readField {text : String} {type : FieldType}
    (read : readDescriptor FieldType.parse text = .ok type) : type.render = text :=
  FieldType.render_of_parse (mapError_eq_ok.mp read)

theorem render_of_readMethod {text : String} {method : MethodDescriptor}
    (read : readDescriptor MethodDescriptor.parse text = .ok method) : method.render = text :=
  MethodDescriptor.render_of_parse (mapError_eq_ok.mp read)

/-- A class operand is written as it was read. -/
theorem operand_of_readClass {text : String} {type : RefType}
    (read : readClass text = .ok type) : type.operand = text := by
  unfold readClass at read
  split at read
  · rename_i isArray
    have rendered := RefType.render_of_parse (mapError_eq_ok.mp read)
    cases type with
    | object name =>
        rw [← rendered, RefType.render, RefType.descriptor, BinaryName.descriptor,
          String.toList_ofList] at isArray
        exact absurd isArray (by simp)
    | objectArray additional element => exact rendered
    | primitiveArray additional element => exact rendered
  · obtain ⟨name, named, rfl⟩ := map_eq_ok.mp read
    exact text_of_readBinaryName named

/-! ## Method handles -/

end Listing

/-- The words of a handle. -/
def MethodHandle.words (handle : MethodHandle) : List String :=
  [toString handle.kind, handle.owner.text, handle.name.text, handle.descriptor] ++
    if handle.interface then ["interface"] else []

namespace Listing

open Text

/-- Strings with a space in front of each. -/
def spacedStrings (words : List String) : List Char :=
  spaced (words.map String.toList)

@[simp] theorem spacedStrings_nil : spacedStrings [] = [] := rfl

@[simp] theorem spacedStrings_cons (word : String) (words : List String) :
    spacedStrings (word :: words) = ' ' :: (word.toList ++ spacedStrings words) := rfl

theorem isBreak_spacedStrings (words : List String) : IsBreak (spacedStrings words) :=
  isBreak_spaced _

/-- All strings are words. -/
def AreWords (words : List String) : Prop :=
  ∀ word ∈ words, IsWord word.toList

instance : DecidablePred AreWords := fun words =>
  inferInstanceAs (Decidable (∀ word ∈ words, IsWord word.toList))

theorem areWords_wordStrings (text : List Char) : AreWords (wordStrings text) := by
  intro word present
  obtain ⟨characters, isWord, rfl⟩ := List.mem_map.mp present
  rw [String.toList_ofList]
  exact isWord_of_mem_words isWord

theorem map_toList_wordStrings (text : List Char) :
    (wordStrings text).map String.toList = words text := by
  rw [wordStrings, List.map_map]
  simp [Function.comp_def]

theorem AreWords.wordStrings_eq {words : List String} (areWords : AreWords words) :
    wordStrings (spacedStrings words) = words := by
  have listed : ∀ word ∈ words.map String.toList, IsWord word := by
    simpa [AreWords] using areWords
  rw [wordStrings, spacedStrings, words_spaced listed, List.map_map]
  simp [Function.comp_def]

theorem wordStrings_trim (text : List Char) : wordStrings (trim text) = wordStrings text := by
  rw [wordStrings, words_trim]
  rfl

/-- The words of a clear text are clear behind single spaces. -/
theorem IsClear.spacedStrings {quoted : Bool} {text : List Char}
    (clear : IsClear ⟨quoted, false⟩ text) :
    IsClear ⟨quoted, false⟩ (spacedStrings (wordStrings text)) := by
  rw [Listing.spacedStrings, map_toList_wordStrings]
  exact clear.spaced_words

theorem isWord_toString_nat (number : Nat) : IsWord (toString number).toList := by
  simpa using @Numeral.isWord_toDigits 10 (by decide) (by decide) number

theorem isPlain_toString_nat (number : Nat) : IsPlain (toString number).toList := by
  simpa using @Numeral.isPlain_toDigits 10 (by decide) (by decide) number

theorem cons_text_handle (handle : MethodHandle) :
    ' ' :: handle.text.toList = spacedStrings handle.words := by
  unfold MethodHandle.text MethodHandle.words spacedStrings
  cases handle.interface <;> simp [toString_string]

/-- The kinds of handles. -/
def IsHandleKind (kind : UInt8) : Prop :=
  ¬(kind = 0 || 9 < kind) = true

/-- All but the number of the kind is written as it was read. -/
theorem words_of_readHandle {words : List String} {handle : MethodHandle}
    (read : readHandle words = .ok handle) :
    IsHandleKind handle.kind ∧
      ∃ kind, readByte kind = .ok handle.kind ∧ words = kind :: handle.words.tail := by
  unfold readHandle at read
  dsimp only at read
  split at read
  on_goal 3 => contradiction
  -- The last word of an interface method has no value, so both forms are read alike.
  all_goals
    rename_i kind owner name descriptor
    obtain ⟨number, isNumber, read⟩ := bind_eq_ok.mp read
    split at read
    · contradiction
    · rename_i isKind
      obtain ⟨ownerName, isOwner, read⟩ := bind_eq_ok.mp read
      obtain ⟨memberName, isName, read⟩ := bind_eq_ok.mp read
      rw [← text_of_readBinaryName isOwner, ← text_of_readUnqualifiedName isName,
        ← Except.ok.inj read]
      exact ⟨isKind, kind, isNumber, rfl⟩

/-- The words of a handle that has been read from words are words. -/
theorem areWords_of_readHandle {words : List String} {handle : MethodHandle}
    (areWords : AreWords words)
    (read : readHandle words = .ok handle) :
    AreWords handle.words := by
  obtain ⟨_, kind, _, rfl⟩ := words_of_readHandle read
  have first : handle.words = toString handle.kind :: handle.words.tail := rfl
  rw [first]
  exact List.forall_mem_cons.mpr
    ⟨isWord_toString_nat handle.kind.toNat, (List.forall_mem_cons.mp areWords).2⟩

/-- A text with words behind single spaces has these words. -/
theorem wordStrings_of_cons_eq {text : List Char} {words : List String}
    (written : ' ' :: text = spacedStrings words)
    (areWords : AreWords words) :
    wordStrings text = words := by
  rw [← areWords.wordStrings_eq, ← written, wordStrings, wordStrings,
    @words_cons_of_isBlank ' ' (by decide)]

/-- The words of a handle are read as the handle. -/
theorem readHandle_words {handle : MethodHandle} (isKind : IsHandleKind handle.kind) :
    readHandle handle.words = .ok handle := by
  obtain ⟨kind, owner, name, descriptor, interface⟩ := handle
  have isKind : ¬(kind = 0 || 9 < kind) = true := isKind
  cases interface <;>
    simp only [MethodHandle.words, if_true, if_false, Bool.false_eq_true, List.append_nil,
      List.cons_append, List.nil_append, readHandle, readByte_toString, bind_pure_comp] <;>
    change (if _ then _ else _) = _ <;>
    rw [if_neg isKind, readBinaryName_text, readUnqualifiedName_text] <;> rfl

/-! ## Constants -/

variable {keyword rest text source : List Char} {constant : Constant}

/-- A keyword in front of a phrase is split off. -/
theorem splitWord_keyword (isKeyword : IsWord keyword) (isPhrase : IsPhrase rest) :
    trim (keyword ++ ' ' :: rest) = keyword ++ ' ' :: rest ∧
      splitWord (keyword ++ ' ' :: rest) = (keyword, ' ' :: rest) ∧
      trim (' ' :: rest) = rest := by
  refine ⟨(isKeyword.isPhrase.append_cons isPhrase).trim_eq,
    splitWord_append isKeyword.solid (isBreak_cons (by decide) rest), ?_⟩
  rw [trim_cons_of_isBlank (by decide), isPhrase.trim_eq]

theorem readConstant_class (isPhrase : IsPhrase rest) :
    readConstant ("class".toList ++ ' ' :: rest) =
      (readClass (String.ofList rest)).map .classRef := by
  obtain ⟨trimmed, split, behind⟩ := splitWord_keyword (by decide : IsWord "class".toList) isPhrase
  rw [readConstant, trimmed]
  dsimp only
  rw [if_neg (by simp), split]
  dsimp only
  rw [behind]
  rfl

theorem readConstant_methodtype (isPhrase : IsPhrase rest) :
    readConstant ("methodtype".toList ++ ' ' :: rest) =
      (readDescriptor MethodDescriptor.parse (String.ofList rest)).map .methodType := by
  obtain ⟨trimmed, split, behind⟩ :=
    splitWord_keyword (by decide : IsWord "methodtype".toList) isPhrase
  rw [readConstant, trimmed]
  dsimp only
  rw [if_neg (by simp), split]
  dsimp only
  rw [behind]
  rfl

theorem readConstant_handle (isPhrase : IsPhrase rest) :
    readConstant ("handle".toList ++ ' ' :: rest) =
      (readHandle (wordStrings rest)).map .methodHandle := by
  obtain ⟨trimmed, split, behind⟩ := splitWord_keyword (by decide : IsWord "handle".toList) isPhrase
  rw [readConstant, trimmed]
  dsimp only
  rw [if_neg (by simp), split]
  dsimp only
  rw [behind]
  rfl

theorem readConstant_dynamic {name : List Char} (isName : IsWord name) (isPhrase : IsPhrase rest) :
    readConstant ("dynamic".toList ++ ' ' :: (name ++ ' ' :: rest)) = (do
      let name ← readUnqualifiedName (String.ofList name)
      let type ← readDescriptor FieldType.parse (String.ofList rest)
      pure (.dynamic name type)) := by
  obtain ⟨trimmed, split, behind⟩ :=
    splitWord_keyword (by decide : IsWord "dynamic".toList) (isName.isPhrase.append_cons isPhrase)
  obtain ⟨_, splitRest, behindName⟩ := splitWord_keyword isName isPhrase
  rw [readConstant, trimmed]
  dsimp only
  rw [if_neg (by simp), split]
  dsimp only
  rw [behind, splitRest]
  dsimp only
  rw [behindName]
  rfl

/-- The constant can be read from its written form, on which there is no comment. -/
structure Rereads (constant : Constant) : Prop where
  isStatement : IsStatement constant.text.toList
  read : readConstant constant.text.toList = .ok constant

/-- The constant can be read from its written form, on which there is no comment if there is
none on the source. -/
structure RereadsFrom (source : List Char) (constant : Constant) : Prop where
  isPhrase : IsPhrase constant.text.toList
  isClear : IsClear .start source → IsClear .start constant.text.toList
  read : readConstant constant.text.toList = .ok constant

theorem RereadsFrom.rereads
    (rereads : RereadsFrom text constant)
    (clear : IsClear .start text) :
    Rereads constant :=
  ⟨⟨rereads.isPhrase, rereads.isClear clear⟩, rereads.read⟩

theorem Rereads.rereadsFrom (rereads : Rereads constant) : RereadsFrom text constant :=
  ⟨rereads.isStatement.isPhrase, fun _ => rereads.isStatement.isClear, rereads.read⟩

theorem rereads_string (text : String) : Rereads (.string text) := by
  have written : (Constant.string text).text.toList = Quoted.encode text.toList := by
    rw [Constant.text, quoted, String.toList_ofList]
  refine ⟨written ▸ ⟨Quoted.isPhrase_encode _, Quoted.isClear_encode _⟩, ?_⟩
  rw [written, readConstant, (Quoted.isPhrase_encode _).trim_eq]
  have isQuoted : (Quoted.encode text.toList).head? = some '"' := rfl
  dsimp only
  rw [if_pos isQuoted, Quoted.decode_encode]
  simp

/-- A word without certain letters is no keyword, and is read as a number. -/
theorem readConstant_of_numeric
    (isWord : IsWord text)
    (unusual : ∀ character ∈ text,
      character ≠ '"' ∧ character ≠ 'l' ∧ character ≠ 'm' ∧ character ≠ 'h' ∧ character ≠ 'y')
    (numeric : readNumeric? text = some constant) :
    readConstant text = .ok constant := by
  have unquoted : ¬text.head? = some '"' := fun first =>
    (unusual _ (List.mem_of_mem_head? first)).1 rfl
  have split : splitWord text = (text, []) := by
    have := splitWord_append isWord.solid isBreak_nil
    rwa [List.append_nil] at this
  have noKeyword : ∀ keyword : String,
      ('l' ∈ keyword.toList ∨ 'm' ∈ keyword.toList ∨ 'h' ∈ keyword.toList ∨
        'y' ∈ keyword.toList) → ¬String.ofList text = keyword := by
    rintro keyword letter rfl
    rw [String.toList_ofList] at letter
    rcases letter with present | present | present | present
    · exact (unusual _ present).2.1 rfl
    · exact (unusual _ present).2.2.1 rfl
    · exact (unusual _ present).2.2.2.1 rfl
    · exact (unusual _ present).2.2.2.2 rfl
  rw [readConstant, isWord.isPhrase.trim_eq]
  dsimp only
  rw [if_neg unquoted, split]
  dsimp only
  split
  · exact absurd ‹_› (noKeyword _ (by decide))
  · exact absurd ‹_› (noKeyword _ (by decide))
  · exact absurd ‹_› (noKeyword _ (by decide))
  · exact absurd ‹_› (noKeyword _ (by decide))
  · rw [numeric]

theorem repr_unusual (value : Int) : ∀ character ∈ value.repr.toList,
    character ≠ '"' ∧ character ≠ 'l' ∧ character ≠ 'm' ∧ character ≠ 'h' ∧ character ≠ 'y' :=
  Numeral.forall_mem_repr (by decide) (by decide) value

theorem rereads_integer (value : Int32) : Rereads (.integer value) := by
  have isWord := Numeral.isWord_repr value.toInt
  have written : (Constant.integer value).text.toList = value.toInt.repr.toList := by
    rw [Constant.text, toString_int]
  rw [← written] at isWord
  refine ⟨⟨isWord.isPhrase, written ▸ (Numeral.isPlain_repr _).isClear⟩, ?_⟩
  have numeric : readNumeric? (Constant.integer value).text.toList = some (.integer value) := by
    have read := @Numeral.readSigned?_repr 32 _ value.le_toInt value.toInt_lt
    have noSuffix := @Numeral.forall_mem_repr
      (fun character => character ≠ 'L' ∧ character ≠ 'f' ∧ character ≠ 'd')
      (by decide) (by decide) value.toInt
    rw [written, readNumeric?]
    split
    · exact absurd rfl (noSuffix _ (List.mem_of_mem_getLast? ‹_›)).1
    · exact absurd rfl (noSuffix _ (List.mem_of_mem_getLast? ‹_›)).2.1
    · exact absurd rfl (noSuffix _ (List.mem_of_mem_getLast? ‹_›)).2.2
    · rw [read]
      simp
  exact readConstant_of_numeric isWord (written ▸ repr_unusual value.toInt) numeric

theorem rereads_long (value : Int64) : Rereads (.long value) := by
  have digits := Numeral.isWord_repr value.toInt
  have written : (Constant.long value).text.toList = value.toInt.repr.toList ++ ['L'] := by
    rw [Constant.text, toString_int, String.toList_append]
    rfl
  have isWord : IsWord (Constant.long value).text.toList := by
    rw [written]
    refine ⟨by simp, List.forall_mem_append.mpr ⟨digits.solid, List.forall_mem_singleton.mpr ?_⟩⟩
    decide
  have plain : IsPlain (Constant.long value).text.toList :=
    written ▸ (Numeral.isPlain_repr value.toInt).append (by decide)
  refine ⟨⟨isWord.isPhrase, plain.isClear⟩, ?_⟩
  have numeric : readNumeric? (Constant.long value).text.toList = some (.long value) := by
    have read := @Numeral.readSigned?_repr 64 _ value.le_toInt value.toInt_lt
    rw [written, readNumeric?, List.getLast?_concat, List.dropLast_concat]
    rw [read]
    simp
  refine readConstant_of_numeric isWord ?_ numeric
  rw [written]
  refine List.forall_mem_append.mpr ⟨repr_unusual value.toInt, List.forall_mem_singleton.mpr ?_⟩
  decide

theorem rereadsFrom_classRef {type : RefType}
    (isPhrase : IsPhrase rest)
    (isClear : IsClear .start source → IsClear .start rest)
    (read : readClass (String.ofList rest) = .ok type) :
    RereadsFrom source (.classRef type) := by
  have written : (Constant.classRef type).text.toList = "class".toList ++ ' ' :: rest := by
    rw [Constant.text, operand_of_readClass read]
    simp
  have keyword : IsWord "class".toList := by decide
  have plain : IsPlain ("class".toList ++ [' ']) := by decide
  refine ⟨?_, fun clear => ?_, ?_⟩
  · exact written ▸ keyword.isPhrase.append_cons isPhrase
  · rw [written, List.append_cons]
    exact plain.isClear_append_iff.mpr (isClear clear)
  · rw [written, readConstant_class isPhrase, read]
    rfl

theorem rereadsFrom_methodType {descriptor : MethodDescriptor}
    (isPhrase : IsPhrase rest)
    (isClear : IsClear .start source → IsClear .start rest)
    (read : readDescriptor MethodDescriptor.parse (String.ofList rest) = .ok descriptor) :
    RereadsFrom source (.methodType descriptor) := by
  have written : (Constant.methodType descriptor).text.toList =
      "methodtype".toList ++ ' ' :: rest := by
    rw [Constant.text, render_of_readMethod read]
    simp
  have keyword : IsWord "methodtype".toList := by decide
  have plain : IsPlain ("methodtype".toList ++ [' ']) := by decide
  refine ⟨?_, fun clear => ?_, ?_⟩
  · exact written ▸ keyword.isPhrase.append_cons isPhrase
  · rw [written, List.append_cons]
    exact plain.isClear_append_iff.mpr (isClear clear)
  · rw [written, readConstant_methodtype isPhrase, read]
    rfl

/-- Only plain texts are read as bytes. -/
theorem isPlain_of_readByte {text : String} {value : UInt8} (read : readByte text = .ok value) :
    IsPlain text.toList := by
  refine @Numeral.isPlain_of_readNat? 10 _ fun unread => ?_
  rw [readByte, readNumber, Numeral.readBits?, unread] at read
  contradiction

theorem rereadsFrom_methodHandle {handle : MethodHandle}
    (isClear : IsClear .start source → IsClear .start rest)
    (read : readHandle (wordStrings rest) = .ok handle) :
    RereadsFrom source (.methodHandle handle) := by
  obtain ⟨isKind, kind, isNumber, whole⟩ := words_of_readHandle read
  have first : handle.words = toString handle.kind :: handle.words.tail := rfl
  have areWritten := areWords_of_readHandle (areWords_wordStrings rest) read
  have clearWritten : IsClear .start source → IsClear .start (spacedStrings handle.words) := by
    intro clear
    have clearWords := (isClear clear).spacedStrings
    have plainRead : IsPlain (' ' :: kind.toList) :=
      (by decide : IsPlain [' ']).append (isPlain_of_readByte isNumber)
    have plainWritten : IsPlain (' ' :: (toString handle.kind).toList) :=
      (by decide : IsPlain [' ']).append (isPlain_toString_nat handle.kind.toNat)
    rw [whole] at clearWords
    rw [first]
    exact plainWritten.isClear_append_iff.mpr (plainRead.isClear_append_iff.mp clearWords)
  have written : (Constant.methodHandle handle).text.toList =
      "handle".toList ++ spacedStrings handle.words := by
    rw [← cons_text_handle, Constant.text]
    simp
  have keyword : IsWord "handle".toList := by decide
  have plain : IsPlain "handle".toList := by decide
  have arePhrases : ∀ text ∈ handle.words.map String.toList, IsPhrase text := by
    intro text present
    obtain ⟨word, isListed, rfl⟩ := List.mem_map.mp present
    exact (areWritten word isListed).isPhrase
  refine ⟨?_, fun clear => ?_, ?_⟩
  · exact written ▸ keyword.isPhrase.append_spaced arePhrases
  · exact written ▸ plain.isClear_append_iff.mpr (clearWritten clear)
  · have isPhrase : IsPhrase handle.text.toList := by
      obtain ⟨isFirst, others⟩ := List.forall_mem_cons.mp (first ▸ areWritten)
      have := @IsPhrase.append_spaced _ (handle.words.tail.map String.toList) isFirst.isPhrase
        fun text present => arePhrases text (by rw [first]; exact List.mem_cons_of_mem _ present)
      have whole := cons_text_handle handle
      rw [first] at whole
      exact (List.cons.inj whole).2 ▸ this
    rw [written, ← cons_text_handle, readConstant_handle isPhrase]
    rw [wordStrings_of_cons_eq (cons_text_handle handle) areWritten, readHandle_words isKind]
    rfl

theorem rereadsFrom_dynamic {name : UnqualifiedName} {type : FieldType}
    {nameText behind : List Char}
    (solid : ∀ character ∈ nameText, isBlank character = false)
    (isBreak : IsBreak behind)
    (single : '\n' ∉ behind)
    (isClear : IsClear .start source → IsClear .start (nameText ++ behind))
    (named : readUnqualifiedName (String.ofList nameText) = .ok name)
    (typed : readDescriptor FieldType.parse (String.ofList (trim behind)) = .ok type) :
    RereadsFrom source (.dynamic name type) := by
  have nameWritten : name.text.toList = nameText := by
    rw [text_of_readUnqualifiedName named, String.toList_ofList]
  have typeWritten : type.render.toList = trim behind := by
    rw [render_of_readField typed, String.toList_ofList]
  have isName : IsWord nameText := by
    refine ⟨fun empty => name.wellFormed.1 ?_, solid⟩
    rw [text_of_readUnqualifiedName named, empty]
  have isPhrase : IsPhrase (trim behind) := by
    refine isPhrase_trim single fun empty => ?_
    rw [empty] at typed
    exact absurd typed (by rintro ⟨⟩)
  have written : (Constant.dynamic name type).text.toList =
      "dynamic".toList ++ ' ' :: (nameText ++ ' ' :: trim behind) := by
    rw [Constant.text, ← nameWritten, ← typeWritten]
    simp [toString_string]
  have keyword : IsWord "dynamic".toList := by decide
  have plain : IsPlain ("dynamic".toList ++ [' ']) := by decide
  refine ⟨?_, fun clear => ?_, ?_⟩
  · exact written ▸ keyword.isPhrase.append_cons (isName.isPhrase.append_cons isPhrase)
  · rw [written, List.append_cons]
    exact plain.isClear_append_iff.mpr ((isClear clear).append_cons_trim isBreak)
  · rw [written, readConstant_dynamic isName isPhrase, named, typed]
    rfl

/-- How a constant is written, by what its text begins with. -/
inductive ConstantForm (text : List Char) : Constant → Prop
  | string (content : String) (quoted : text.head? = some '"') :
      ConstantForm text (.string content)
  | classRef {behind : List Char} {type : RefType}
      (whole : text = "class".toList ++ behind)
      (read : readClass (String.ofList (trim behind)) = .ok type) :
      ConstantForm text (.classRef type)
  | methodType {behind : List Char} {descriptor : MethodDescriptor}
      (whole : text = "methodtype".toList ++ behind)
      (read : readDescriptor MethodDescriptor.parse (String.ofList (trim behind)) =
        .ok descriptor) :
      ConstantForm text (.methodType descriptor)
  | methodHandle {behind : List Char} {handle : MethodHandle}
      (whole : text = "handle".toList ++ behind)
      (read : readHandle (wordStrings (trim behind)) = .ok handle) :
      ConstantForm text (.methodHandle handle)
  | dynamic {behind : List Char} {name : UnqualifiedName} {type : FieldType}
      (whole : text = "dynamic".toList ++ behind)
      (named : readUnqualifiedName (String.ofList (splitWord (trim behind)).1) = .ok name)
      (typed : readDescriptor FieldType.parse
        (String.ofList (trim (splitWord (trim behind)).2)) = .ok type) :
      ConstantForm text (.dynamic name type)
  | numeric {constant : Constant} (read : readNumeric? text = some constant) :
      ConstantForm text constant

/-- A constant has been read from one of its forms. -/
theorem constantForm_of_readConstant (read : readConstant text = .ok constant) :
    ConstantForm (trim text) constant := by
  rw [readConstant] at read
  generalize trim text = trimmed at read
  dsimp only at read
  split at read
  next quoted =>
    split at read
    · exact Except.ok.inj read ▸ .string _ quoted
    · cases read
  next =>
    obtain ⟨whole, _, _⟩ := splitWord_spec trimmed
    have isKeyword (word : String) (same : String.ofList (splitWord trimmed).1 = word) :
        trimmed = word.toList ++ (splitWord trimmed).2 := by
      rw [← same, String.toList_ofList, whole]
    split at read
    next keyword =>
      obtain ⟨type, readType, rfl⟩ := map_eq_ok.mp read
      exact .classRef (isKeyword _ keyword) readType
    next keyword =>
      obtain ⟨descriptor, readDescriptor, rfl⟩ := map_eq_ok.mp read
      exact .methodType (isKeyword _ keyword) readDescriptor
    next keyword =>
      obtain ⟨handle, readHandle, rfl⟩ := map_eq_ok.mp read
      exact .methodHandle (isKeyword _ keyword) readHandle
    next keyword =>
      obtain ⟨name, named, read⟩ := bind_eq_ok.mp read
      obtain ⟨type, typed, read⟩ := bind_eq_ok.mp read
      exact Except.ok.inj read ▸ .dynamic (isKeyword _ keyword) named typed
    next =>
      split at read
      next numeric => exact .numeric (Except.ok.inj read ▸ numeric)
      next => cases read

/-- Only integers and long integers are numbers that are written exactly. -/
theorem exists_of_readNumeric?
    (isExact : constant.IsExact)
    (read : readNumeric? text = some constant) :
    (∃ value, constant = .integer value ∧ Numeral.readSigned? 32 text ≠ none) ∨
      ∃ value, constant = .long value ∧ Numeral.readSigned? 64 text.dropLast ≠ none := by
  rw [readNumeric?] at read
  split at read
  · obtain ⟨value, digits, rfl⟩ := Option.map_eq_some_iff.mp read
    exact .inr ⟨_, rfl, by simp [digits]⟩
  · obtain ⟨value, _, rfl⟩ := Option.map_eq_some_iff.mp read
    exact absurd isExact not_false
  · obtain ⟨value, _, rfl⟩ := Option.map_eq_some_iff.mp read
    exact absurd isExact not_false
  · obtain ⟨value, digits, rfl⟩ := Option.map_eq_some_iff.mp read
    exact .inl ⟨_, rfl, by simp [digits]⟩

/-- A constant that has been read can be read again. -/
theorem rereadsFrom_of_readConstant
    (single : '\n' ∉ text)
    (isExact : constant.IsExact)
    (read : readConstant text = .ok constant) :
    RereadsFrom text constant := by
  have singleBehind {keyword behind : List Char} (whole : trim text = keyword ++ behind) :
      '\n' ∉ behind := fun present =>
    single (mem_of_mem_trim (whole ▸ List.mem_append_right _ present))
  have clearBehind {keyword behind : List Char} (plain : IsPlain keyword)
      (whole : trim text = keyword ++ behind) (clear : IsClear .start text) :
      IsClear .start (trim behind) :=
    (plain.isClear_append_iff.mp (whole ▸ clear.trim)).trim
  cases constantForm_of_readConstant read with
  | string content => exact (rereads_string content).rereadsFrom
  | classRef whole readType =>
      -- Behind a keyword there is a phrase, as nothing can be read from no text.
      refine rereadsFrom_classRef (isPhrase_trim (singleBehind whole) fun empty => ?_)
        (clearBehind (by decide) whole) readType
      rw [empty] at readType
      cases readType
  | methodType whole readDescriptor =>
      refine rereadsFrom_methodType (isPhrase_trim (singleBehind whole) fun empty => ?_)
        (clearBehind (by decide) whole) readDescriptor
      rw [empty] at readDescriptor
      cases readDescriptor
  | methodHandle whole readHandle =>
      exact rereadsFrom_methodHandle (clearBehind (by decide) whole) readHandle
  | @dynamic behind name type whole named typed =>
      obtain ⟨wholeRest, solidName, isBreakRest⟩ := splitWord_spec (trim behind)
      have singleRest : '\n' ∉ (splitWord (trim behind)).2 := fun present =>
        singleBehind whole (mem_of_mem_trim (wholeRest ▸ List.mem_append_right _ present))
      have clearRest := clearBehind (by decide) whole
      rw [← wholeRest] at clearRest
      exact rereadsFrom_dynamic solidName isBreakRest singleRest clearRest named typed
  | numeric numeric =>
      obtain ⟨value, rfl, _⟩ | ⟨value, rfl, _⟩ := exists_of_readNumeric? isExact numeric
      · exact (rereads_integer value).rereadsFrom
      · exact (rereads_long value).rereadsFrom

end Listing
end StackMaps
