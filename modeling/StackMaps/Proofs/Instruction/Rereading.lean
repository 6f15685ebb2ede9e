import StackMaps.Proofs.Listing.Operands
import StackMaps.Proofs.Listing.Restoring

/-!
# Instructions read back

An instruction that has been read from a clear line is written as a line from which the
same instruction is read, apart from short pushes and from the numbers of labels.
-/

namespace StackMaps

/-- An instruction that is neither a dynamic call nor a push of a decimal fraction. -/
def Instruction.IsExact : Instruction → Prop
  | .invokeDynamic .. => False
  | .push constant => constant.IsExact
  | _ => True

instance : DecidablePred Instruction.IsExact
  | .invokeDynamic .. => .isFalse not_false
  | .push constant => inferInstanceAs (Decidable constant.IsExact)
  | .mark _ | .simple _ | .var .. | .increment .. | .branch .. | .lookupSwitch .. | .tableSwitch ..
  | .field .. | .method .. | .type .. | .newArray _ | .multiNewArray .. => .isTrue trivial

open Listing Text

/-! ## Mnemonics -/

namespace Opcode

/-- What is true of all mnemonics. -/
structure IsMnemonicText (text : List Char) : Prop where
  isWord : IsWord text
  isPlain : IsPlain text
  noDirective : text.head? ≠ some '.'
  noMark : text.getLast? ≠ some ':'

/-- The characters of mnemonics. -/
def isMnemonicCharacter (character : Char) : Bool :=
  (97 ≤ character.toNat && character.toNat ≤ 122) ||
    (48 ≤ character.toNat && character.toNat ≤ 57) || character == '_'

theorem of_isMnemonicCharacter {character : Char} (usual : isMnemonicCharacter character = true) :
    isBlank character = false ∧
      (character ≠ '"' ∧ character ≠ '\\' ∧ character ≠ '#') ∧
      character ≠ '.' ∧ character ≠ ':' := by
  refine ⟨?_, ⟨?_, ?_, ?_⟩, ?_, ?_⟩
  · have code : (97 ≤ character.toNat ∧ character.toNat ≤ 122) ∨
        (48 ≤ character.toNat ∧ character.toNat ≤ 57) ∨ character.toNat = 95 := by
      simp only [isMnemonicCharacter, Bool.or_eq_true, Bool.and_eq_true, decide_eq_true_eq,
        beq_iff_eq, or_assoc] at usual
      exact usual.imp id (Or.imp id fun same => congrArg Char.toNat same)
    simp only [isBlank, Bool.or_eq_false_iff, Bool.and_eq_false_iff, decide_eq_false_iff_not,
      beq_eq_false_iff_ne]
    omega
  all_goals
    rintro rfl
    exact absurd usual (by decide)

theorem isMnemonicText_of_mem {mnemonic : String} (listed : mnemonic ∈ mnemonics.toList) :
    IsMnemonicText mnemonic.toList := by
  have checked : mnemonics.toList.all (fun mnemonic =>
      mnemonic ≠ "" && mnemonic.toList.all isMnemonicCharacter) = true := by
    decide +kernel
  have usual := List.all_eq_true.mp checked mnemonic listed
  rw [Bool.and_eq_true, decide_eq_true_eq, List.all_eq_true] at usual
  obtain ⟨filled, usual⟩ := usual
  refine ⟨⟨fun empty => filled (String.toList_eq_nil_iff.mp empty), fun character present => ?_⟩,
    fun character present => ?_, fun first => ?_, fun last => ?_⟩
  · exact (of_isMnemonicCharacter (usual character present)).1
  · exact (of_isMnemonicCharacter (usual character present)).2.1
  · exact (of_isMnemonicCharacter (usual _ (List.mem_of_mem_head? first))).2.2.1 rfl
  · exact (of_isMnemonicCharacter (usual _ (List.mem_of_getLast? last))).2.2.2 rfl

theorem code_of_assigned {index : Nat} {opcode : Opcode}
    (isAssigned : assigned[index]? = some opcode) : opcode.code = index := by
  have codes : assigned.toList.map code = List.range 202 := by decide +kernel
  have numbered : (assigned.toList.map code)[index]? = some opcode.code := by
    rw [List.getElem?_map, Array.getElem?_toList, isAssigned, Option.map_some]
  rw [codes] at numbered
  obtain ⟨_, same⟩ := List.getElem?_eq_some_iff.mp numbered
  rw [← same, List.getElem_range]

variable {opcode : Opcode} {text : String}

theorem mnemonics_idxOf_of_ofMnemonic? (named : ofMnemonic? text = some opcode) :
    ∃ index : Nat, assigned[index]? = some opcode ∧ mnemonics[index]? = some text := by
  obtain ⟨index, found, isAssigned⟩ := Option.bind_eq_some_iff.mp named
  refine ⟨index, isAssigned, ?_⟩
  rw [Array.idxOf?_eq_map_finIdxOf?_val, Option.map_eq_some_iff] at found
  obtain ⟨place, found, rfl⟩ := found
  rw [Array.getElem?_eq_getElem place.isLt]
  exact congrArg some (Array.finIdxOf?_eq_some_iff.mp found).1

/-- A mnemonic is written as it was read. -/
theorem mnemonic_of_ofMnemonic? (named : ofMnemonic? text = some opcode) :
    opcode.mnemonic = text := by
  obtain ⟨index, isAssigned, isText⟩ := mnemonics_idxOf_of_ofMnemonic? named
  rw [mnemonic, code_of_assigned isAssigned, Array.getD_eq_getD_getElem?, isText, Option.getD_some]

/-- The operations by which constants are pushed, as they are written. -/
def pushes : List (String × Opcode) :=
  [("bipush", .bipush), ("sipush", .sipush), ("ldc", .ldc), ("ldc2_w", .ldc2W)]

theorem ofMnemonic?_of_mem_pushes {spelling : String} (listed : (spelling, opcode) ∈ pushes) :
    ofMnemonic? spelling = some opcode := by
  have checked : ∀ entry ∈ pushes, ofMnemonic? entry.1 = some entry.2 := by decide +kernel
  exact checked _ listed

/-- The other operations that are written with their mnemonics spelled out. -/
def spelled : List (String × Opcode) :=
  [("iinc", .iinc), ("multianewarray", .multianewarray), ("newarray", .newarray),
    ("anewarray", .anewarray), ("tableswitch", .tableswitch), ("lookupswitch", .lookupswitch)]

/-- What is read as one of these operations is its mnemonic. -/
theorem eq_of_mem_spelled
    {spelling : String}
    (listed : (spelling, opcode) ∈ spelled)
    (named : ofMnemonic? text = some opcode) :
    spelling = text := by
  have checked : ∀ entry ∈ spelled, entry.2.mnemonic = entry.1 := by decide +kernel
  exact (checked _ listed).symm.trans (mnemonic_of_ofMnemonic? named)

theorem isMnemonicText_of_ofMnemonic? (named : ofMnemonic? text = some opcode) :
    IsMnemonicText text.toList := by
  obtain ⟨index, _, isText⟩ := mnemonics_idxOf_of_ofMnemonic? named
  exact isMnemonicText_of_mem (Array.mem_toList_iff.mpr (Array.mem_of_getElem? isText))

end Opcode

/-! ## Reading by words -/

namespace Listing

variable {opcode : Opcode} {mnemonic : String} {line : Nat} {text other : List Char}
  {instruction : Instruction}

/-- The operations with a form of operands of their own. -/
def specialOpcodes : List Opcode :=
  [.bipush, .sipush, .ldc, .ldcW, .ldc2W, .iinc, .invokedynamic, .new, .checkcast, .instanceof,
    .newarray, .anewarray, .multianewarray, .wide]

/-- The other operations are read by their family. -/
theorem readPlain_of_notMem (usual : opcode ∉ specialOpcodes) :
    readPlain opcode mnemonic text =
      if opcode.variableAccess?.isSome || opcode == .ret then do
        let index ← readWord (← oneOperand mnemonic (wordStrings text))
        pure (.var opcode index)
      else if opcode.isBetween .getstatic .putfield then
        readField opcode mnemonic (wordStrings text)
      else if opcode.isBetween .invokevirtual .invokeinterface then
        readCall opcode mnemonic (wordStrings text)
      else if (wordStrings text).isEmpty then
        pure (.simple opcode)
      else
        throw (.operandCount mnemonic 0 (wordStrings text).length) := by
  unfold readPlain
  dsimp only
  split <;> first | exact absurd (by decide) usual | rfl

/-- The operations whose operands are read word by word. -/
def loadOpcodes : List Opcode := [.ldc, .ldcW, .ldc2W, .invokedynamic]

theorem readPlain_congr
    (wordwise : opcode ∉ loadOpcodes)
    (same : wordStrings text = wordStrings other) :
    readPlain opcode mnemonic text = readPlain opcode mnemonic other := by
  unfold readPlain
  dsimp only
  split <;> first | exact absurd (by decide) wordwise | rw [same] | rfl

/-- The operations without labels among their operands. -/
def IsPlainOpcode (opcode : Opcode) : Prop :=
  opcode ≠ .tableswitch ∧ opcode ≠ .lookupswitch ∧ isJump opcode = false

instance : DecidablePred IsPlainOpcode := fun _ => inferInstanceAs (Decidable (_ ∧ _))

theorem readInstruction_of_plain
    (named : Opcode.ofMnemonic? mnemonic = some opcode)
    (plain : IsPlainOpcode opcode) :
    readInstruction line mnemonic text = liftM (readPlain opcode mnemonic text) := by
  obtain ⟨noTable, noLookup, noJump⟩ := plain
  unfold readInstruction
  rw [named]
  split
  · contradiction
  · exact absurd (Option.some.inj ‹_›) noTable
  · exact absurd (Option.some.inj ‹_›) noLookup
  · rename_i isSome
    obtain rfl := Option.some.inj isSome
    rw [if_neg (by simp [noJump])]

theorem readInstruction_of_isJump
    (named : Opcode.ofMnemonic? mnemonic = some opcode)
    (jump : isJump opcode = true) :
    readInstruction line mnemonic text = (do
      let target ← readLabel line (← oneOperand mnemonic (wordStrings text))
      pure (.branch opcode target)) := by
  have noTable : opcode ≠ .tableswitch := by rintro rfl; exact absurd jump (by decide)
  have noLookup : opcode ≠ .lookupswitch := by rintro rfl; exact absurd jump (by decide)
  unfold readInstruction
  rw [named]
  split
  · contradiction
  · exact absurd (Option.some.inj ‹_›) noTable
  · exact absurd (Option.some.inj ‹_›) noLookup
  · rename_i isSome
    obtain rfl := Option.some.inj isSome
    rw [if_pos jump]

/-! ## Instructions that can be read again -/

/-- The instruction can be read from its written form, on which there is no comment. -/
structure CanRereadInstruction (instruction : Instruction) : Prop where
  isStatement : IsStatement instruction.text.toList
  read : ∃ mnemonic operands,
    instruction.text.toList = mnemonic.toList ++ operands ∧
      (Opcode.ofMnemonic? mnemonic).isSome = true ∧ IsBreak operands ∧
      ∀ line, Mentions (readInstruction line mnemonic (trim operands)) instruction.mentions
        fun rename => instruction.shortened.relabel rename

/-- An instruction that is written word by word can be read again. -/
theorem canReread_of_words
    {words : List String}
    (named : Opcode.ofMnemonic? mnemonic = some opcode)
    (written : instruction.text.toList = mnemonic.toList ++ spacedStrings words)
    (areWords : AreWords words)
    (clear : IsClear .start (spacedStrings words))
    (reads : ∀ line text, wordStrings text = words →
      Mentions (readInstruction line mnemonic text) instruction.mentions
        fun rename => instruction.shortened.relabel rename) :
    CanRereadInstruction instruction := by
  have isMnemonic := Opcode.isMnemonicText_of_ofMnemonic? named
  refine ⟨⟨?_, ?_⟩, mnemonic, spacedStrings words, written, by rw [named]; rfl,
    isBreak_spaced _, fun line => reads line _ ?_⟩
  · rw [written]
    refine isMnemonic.isWord.isPhrase.append_spaced fun text present => ?_
    obtain ⟨word, isListed, rfl⟩ := List.mem_map.mp present
    exact (areWords word isListed).isPhrase
  · rw [written]
    exact isMnemonic.isPlain.isClear_append_iff.mpr clear
  · rw [wordStrings_trim, areWords.wordStrings_eq]

/-- An instruction without labels that is written word by word can be read again. -/
theorem canReread_of_plain
    {words : List String}
    {result : Instruction}
    (named : Opcode.ofMnemonic? mnemonic = some opcode)
    (plain : IsPlainOpcode opcode)
    (written : instruction.text.toList = mnemonic.toList ++ spacedStrings words)
    (areWords : AreWords words)
    (clear : IsClear .start (spacedStrings words))
    (unlabelled : instruction.mentions = [])
    (becomes : ∀ rename, instruction.shortened.relabel rename = result)
    (reads : ∀ text, wordStrings text = words → readPlain opcode mnemonic text = .ok result) :
    CanRereadInstruction instruction := by
  refine canReread_of_words named written areWords clear fun line text same => ?_
  rw [readInstruction_of_plain named plain, unlabelled]
  exact (Mentions.lift (reads text same)).congr rfl (funext fun rename => (becomes rename).symm)

/-- A loaded constant that can be read again gives an instruction that can be read again. -/
theorem canReread_of_load
    {constant : Constant}
    (rereads : Rereads constant)
    (named : Opcode.ofMnemonic? mnemonic = some opcode)
    (plain : IsPlainOpcode opcode)
    (written : (Instruction.push constant).text.toList =
      mnemonic.toList ++ ' ' :: constant.text.toList)
    (long : constant.shortOpcode? = none)
    (reads : readPlain opcode mnemonic constant.text.toList =
      readLoad mnemonic constant.isWide constant.text.toList) :
    CanRereadInstruction (.push constant) := by
  have isMnemonic := Opcode.isMnemonicText_of_ofMnemonic? named
  have space : IsPlain [' '] := by decide
  refine ⟨⟨?_, ?_⟩, mnemonic, ' ' :: constant.text.toList, written, by rw [named]; rfl,
    isBreak_cons (by decide) _, fun line => ?_⟩
  · exact written ▸ isMnemonic.isWord.isPhrase.append_cons rereads.isStatement.isPhrase
  · rw [written, List.append_cons]
    exact (isMnemonic.isPlain.append space).isClear_append_iff.mpr rereads.isStatement.isClear
  · have loaded : readLoad mnemonic constant.isWide constant.text.toList =
        .ok (.push constant) := by
      rw [readLoad, rereads.read]
      change (if _ then _ else _) = _
      rw [if_neg (by simp)]
      rfl
    have becomes : ∀ rename,
        (Instruction.push constant).shortened.relabel rename = .push constant := by
      intro rename
      simp only [Instruction.shortened, long, Instruction.relabel]
    rw [readInstruction_of_plain named plain, trim_cons_of_isBlank (by decide),
      rereads.isStatement.isPhrase.trim_eq]
    exact (Mentions.lift (reads.trans loaded)).congr rfl
      (funext fun rename => (becomes rename).symm)

/-! ## Pushes -/

/-- The operations without operands. -/
structure IsBareOpcode (opcode : Opcode) : Prop where
  usual : opcode ∉ specialOpcodes
  noVariable : (opcode.variableAccess?.isSome || opcode == .ret) = false
  noField : opcode.isBetween .getstatic .putfield = false
  noCall : opcode.isBetween .invokevirtual .invokeinterface = false

theorem readPlain_of_bare (bare : IsBareOpcode opcode) :
    readPlain opcode mnemonic text =
      if (wordStrings text).isEmpty then pure (.simple opcode)
      else throw (.operandCount mnemonic 0 (wordStrings text).length) := by
  rw [readPlain_of_notMem bare.usual, bare.noVariable, bare.noField, bare.noCall]
  rfl

theorem isBareOpcode_of_mem_shortPushes :
    ∀ entry ∈ shortPushes, IsBareOpcode entry.2 ∧ IsPlainOpcode entry.2 := by
  intro entry present
  simp only [shortPushes, List.mem_cons, List.not_mem_nil, or_false] at present
  rcases present with rfl | rfl | rfl | rfl | rfl | rfl | rfl | rfl | rfl <;>
    exact ⟨⟨by decide, by decide, by decide, by decide⟩, by decide, by decide, by decide⟩

theorem pushText_of_mem_shortPushes :
    ∀ entry ∈ shortPushes, entry.1.pushText = entry.2.mnemonic ∧
      Opcode.ofMnemonic? entry.2.mnemonic = some entry.2 ∧
      entry.1.shortOpcode? = some entry.2 := by
  decide +kernel

/-- A push of a small constant is read as the operation for it. -/
theorem canReread_of_mem_shortPushes {entry : Constant × Opcode} (short : entry ∈ shortPushes) :
    CanRereadInstruction (.push entry.1) := by
  obtain ⟨bare, plain⟩ := isBareOpcode_of_mem_shortPushes entry short
  obtain ⟨written, named, becomes⟩ := pushText_of_mem_shortPushes entry short
  refine @canReread_of_plain _ _ _ [] (.simple entry.2) named plain ?_ ?_
    isClear_nil rfl (fun rename => ?_) fun text same => ?_
  · change entry.1.pushText.toList = _
    rw [written, spacedStrings_nil, List.append_nil]
  · exact fun _ absent => absurd absent List.not_mem_nil
  · simp only [Instruction.shortened, becomes, Instruction.relabel]
  · rw [readPlain_of_bare bare, same]
    rfl

theorem shortOpcode?_eq_none {constant : Constant}
    (long : ∀ entry ∈ shortPushes, entry.1 ≠ constant) : constant.shortOpcode? = none := by
  refine List.lookup_eq_none_iff.mpr fun entry present => ?_
  simpa using (long entry present).symm

/-- The integers without a short push. -/
theorem integer_of_notMem_shortPushes {value : Int32}
    (long : ∀ entry ∈ shortPushes, entry.1 ≠ .integer value) :
    ¬value.toInt = -1 ∧ ¬(0 ≤ value.toInt ∧ value.toInt ≤ 5) := by
  have known : ∀ small : Int32, (∃ opcode, (.integer small, opcode) ∈ shortPushes) →
      value.toInt ≠ small.toInt := by
    rintro small ⟨opcode, present⟩ same
    exact long _ present (congrArg Constant.integer (Int32.toInt_inj.mp same).symm)
  refine ⟨known (-1) ⟨.iconstM1, by decide⟩, ?_⟩
  rintro ⟨least, greatest⟩
  have h0 := known 0 ⟨.iconst0, by decide⟩
  have h1 := known 1 ⟨.iconst1, by decide⟩
  have h2 := known 2 ⟨.iconst2, by decide⟩
  have h3 := known 3 ⟨.iconst3, by decide⟩
  have h4 := known 4 ⟨.iconst4, by decide⟩
  have h5 := known 5 ⟨.iconst5, by decide⟩
  simp at h0 h1 h2 h3 h4 h5
  omega

theorem becomes_push {constant : Constant} (long : constant.shortOpcode? = none)
    (rename : Label → Label) :
    (Instruction.push constant).shortened.relabel rename = .push constant := by
  simp only [Instruction.shortened, long, Instruction.relabel]

/-- A push of an integer in a range is written with the operation for that range. -/
theorem canReread_of_readSmall
    {value : Int32}
    {least greatest : Int}
    (named : Opcode.ofMnemonic? mnemonic = some opcode)
    (plain : IsPlainOpcode opcode)
    (long : (Constant.integer value).shortOpcode? = none)
    (written : (Constant.integer value).pushText = mnemonic ++ " " ++ toString value.toInt)
    (inRange : least ≤ value.toInt ∧ value.toInt ≤ greatest)
    (reads : ∀ text, readPlain opcode mnemonic text =
      readSmall mnemonic least greatest (wordStrings text)) :
    CanRereadInstruction (.push (.integer value)) := by
  have isWord : IsWord (toString value.toInt).toList := by
    rw [toString_int]
    exact Numeral.isWord_repr value.toInt
  have isPlain : IsPlain (toString value.toInt).toList := by
    rw [toString_int]
    exact Numeral.isPlain_repr value.toInt
  refine @canReread_of_plain _ _ _ [toString value.toInt] _ named plain ?_ ?_ ?_ rfl
    (becomes_push long) fun text same => ?_
  · change (Constant.integer value).pushText.toList = _
    rw [written]
    simp
  · simpa [AreWords] using isWord
  · exact (@isPlain_spaced [(toString value.toInt).toList] (by simpa using isPlain)).isClear
  · have fits : ¬(value.toInt < least || greatest < value.toInt) = true := by
      simpa using inRange
    rw [reads, same, readSmall]
    change (readInt _ >>= _) = _
    rw [readInt_toString]
    change (if _ then _ else _) = _
    rw [if_neg fits]
    rfl

theorem canReread_push_integer (value : Int32) : CanRereadInstruction (.push (.integer value)) := by
  by_cases short : ∃ entry ∈ shortPushes, entry.1 = .integer value
  · obtain ⟨entry, present, same⟩ := short
    exact same ▸ canReread_of_mem_shortPushes present
  · have apart : ∀ entry ∈ shortPushes, entry.1 ≠ .integer value := fun entry present same =>
      short ⟨entry, present, same⟩
    have long := shortOpcode?_eq_none apart
    obtain ⟨notMinus, notSmall⟩ := integer_of_notMem_shortPushes apart
    have pushText : (Constant.integer value).pushText = Constant.integerPush value.toInt := rfl
    rw [Constant.integerPush, if_neg notMinus, if_neg (by simpa using notSmall)] at pushText
    by_cases isByte : -128 ≤ value.toInt ∧ value.toInt ≤ 127
    · rw [if_pos (by simpa using isByte)] at pushText
      exact @canReread_of_readSmall .bipush "bipush" _ _ _
          (Opcode.ofMnemonic?_of_mem_pushes (by simp [Opcode.pushes])) (by decide)
        long pushText isByte fun _ => rfl
    · rw [if_neg (by simpa using isByte)] at pushText
      by_cases isShort : -32768 ≤ value.toInt ∧ value.toInt ≤ 32767
      · rw [if_pos (by simpa using isShort)] at pushText
        exact @canReread_of_readSmall .sipush "sipush" _ _ _
          (Opcode.ofMnemonic?_of_mem_pushes (by simp [Opcode.pushes])) (by decide)
          long pushText isShort fun _ => rfl
      · rw [if_neg (by simpa using isShort)] at pushText
        refine @canReread_of_load .ldc "ldc" _ (rereads_integer value)
          (Opcode.ofMnemonic?_of_mem_pushes (by simp [Opcode.pushes])) (by decide) ?_ long rfl
        change (Constant.integer value).pushText.toList = _
        rw [pushText]
        simp [Constant.text, toString_string]

theorem canReread_push_long (value : Int64) : CanRereadInstruction (.push (.long value)) := by
  by_cases short : ∃ entry ∈ shortPushes, entry.1 = .long value
  · obtain ⟨entry, present, same⟩ := short
    exact same ▸ canReread_of_mem_shortPushes present
  · have apart : ∀ entry ∈ shortPushes, entry.1 ≠ .long value := fun entry present same =>
      short ⟨entry, present, same⟩
    have notZero : value ≠ 0 := fun isZero =>
      apart (.long 0, .lconst0) (by decide) (congrArg Constant.long isZero.symm)
    have notOne : value ≠ 1 := fun isOne =>
      apart (.long 1, .lconst1) (by decide) (congrArg Constant.long isOne.symm)
    have pushText : (Constant.long value).pushText = "ldc2_w " ++ (Constant.long value).text :=
      if_neg (by simp [notZero, notOne])
    refine @canReread_of_load .ldc2W "ldc2_w" _ (rereads_long value)
      (Opcode.ofMnemonic?_of_mem_pushes (by simp [Opcode.pushes])) (by decide) ?_
      (shortOpcode?_eq_none apart) rfl
    change (Constant.long value).pushText.toList = _
    rw [pushText]
    simp

/-- A push of a constant that can be read again can be read again. -/
theorem canReread_push {constant : Constant} (rereads : Rereads constant)
    (isExact : constant.IsExact) : CanRereadInstruction (.push constant) := by
  have symbolic : constant.shortOpcode? = none →
      constant.pushText = (if constant.isWide then "ldc2_w " else "ldc ") ++ constant.text →
      CanRereadInstruction (.push constant) := by
    intro long pushText
    by_cases isWide : constant.isWide = true
    · rw [if_pos isWide] at pushText
      refine @canReread_of_load .ldc2W "ldc2_w" _ rereads
        (Opcode.ofMnemonic?_of_mem_pushes (by simp [Opcode.pushes])) (by decide) ?_ long
        (by rw [isWide]; rfl)
      change constant.pushText.toList = _
      rw [pushText]
      simp
    · rw [if_neg isWide] at pushText
      rw [Bool.not_eq_true] at isWide
      refine @canReread_of_load .ldc "ldc" _ rereads
        (Opcode.ofMnemonic?_of_mem_pushes (by simp [Opcode.pushes])) (by decide) ?_ long
        (by rw [isWide]; rfl)
      change constant.pushText.toList = _
      rw [pushText]
      simp
  cases constant with
  | integer value => exact canReread_push_integer value
  | long value => exact canReread_push_long value
  | float bits => exact isExact.elim
  | double bits => exact isExact.elim
  | string text => exact symbolic rfl rfl
  | classRef type => exact symbolic rfl rfl
  | methodType descriptor => exact symbolic rfl rfl
  | methodHandle handle => exact symbolic rfl rfl
  | dynamic name type => exact symbolic rfl rfl

/-! ## Other instructions without labels -/

theorem eq_of_oneOperand {operands : List String} {first : String}
    (read : oneOperand mnemonic operands = .ok first) : operands = [first] := by
  unfold oneOperand at read
  split at read
  · rw [Except.ok.inj read]
  · contradiction

theorem eq_of_twoOperands {operands : List String} {both : String × String}
    (read : twoOperands mnemonic operands = .ok both) : operands = [both.1, both.2] := by
  unfold twoOperands at read
  split at read
  · rw [← Except.ok.inj read]
  · contradiction

theorem eq_of_threeOperands {operands : List String} {all : String × String × String}
    (read : threeOperands mnemonic operands = .ok all) :
    operands = [all.1, all.2.1, all.2.2] := by
  unfold threeOperands at read
  split at read
  · rw [← Except.ok.inj read]
  · contradiction

/-- An instruction that is written with the words from which it was read can be read
again. -/
theorem canReread_of_sameWords
    (named : Opcode.ofMnemonic? mnemonic = some opcode)
    (plain : IsPlainOpcode opcode)
    (wordwise : opcode ∉ loadOpcodes)
    (clear : IsClear .start text)
    (read : readPlain opcode mnemonic text = .ok instruction)
    (unlabelled : instruction.mentions = [])
    (becomes : ∀ rename, instruction.shortened.relabel rename = instruction)
    (written : instruction.text.toList = mnemonic.toList ++ spacedStrings (wordStrings text)) :
    CanRereadInstruction instruction :=
  canReread_of_plain named plain written (areWords_wordStrings text) clear.spacedStrings
    unlabelled becomes fun _ same => (readPlain_congr wordwise same).trans read

/-- Numbers behind the mnemonic are written anew. -/
theorem canReread_of_numbers
    {words : List String}
    (named : Opcode.ofMnemonic? mnemonic = some opcode)
    (plain : IsPlainOpcode opcode)
    (numbers : ∀ word ∈ words, IsWord word.toList ∧ IsPlain word.toList)
    (unlabelled : instruction.mentions = [])
    (becomes : ∀ rename, instruction.shortened.relabel rename = instruction)
    (written : instruction.text.toList = mnemonic.toList ++ spacedStrings words)
    (reads : ∀ text, wordStrings text = words →
      readPlain opcode mnemonic text = .ok instruction) :
    CanRereadInstruction instruction := by
  have plainWords : ∀ text ∈ words.map String.toList, IsPlain text := by
    intro text present
    obtain ⟨word, isListed, rfl⟩ := List.mem_map.mp present
    exact (numbers word isListed).2
  exact canReread_of_plain named plain written (fun word present => (numbers word present).1)
    (isPlain_spaced plainWords).isClear unlabelled becomes reads

theorem canReread_increment (index : UInt16) (value : Int16)
    (named : Opcode.ofMnemonic? mnemonic = some .iinc) :
    CanRereadInstruction (.increment index value) := by
  obtain rfl : "iinc" = mnemonic := Opcode.eq_of_mem_spelled (by simp [Opcode.spelled]) named
  refine @canReread_of_numbers .iinc "iinc" _ [toString index, toString value.toInt]
    named (by decide) ?_ rfl (fun _ => rfl) ?_ fun text same => ?_
  · rw [toString_int]
    simp only [List.forall_mem_cons, List.not_mem_nil, false_implies, implies_true, and_true]
    exact ⟨⟨isWord_toString_nat index.toNat, isPlain_toString_nat index.toNat⟩,
      Numeral.isWord_repr value.toInt, Numeral.isPlain_repr value.toInt⟩
  · change (s!"iinc {index} {value.toInt}").toList = _
    simp [toString_string]
  · unfold readPlain
    dsimp only
    rw [same]
    change (readWord _ >>= _) = _
    rw [readWord_toString]
    change (readShort _ >>= _) = _
    rw [readShort_toString]
    rfl

theorem canReread_var (index : UInt16)
    (named : Opcode.ofMnemonic? mnemonic = some opcode)
    (plain : IsPlainOpcode opcode)
    (usual : opcode ∉ specialOpcodes)
    (isVariable : (opcode.variableAccess?.isSome || opcode == .ret) = true) :
    CanRereadInstruction (.var opcode index) := by
  refine @canReread_of_numbers _ _ _ [toString index] named plain ?_ rfl (fun _ => rfl) ?_
    fun text same => ?_
  · exact List.forall_mem_singleton.mpr
      ⟨isWord_toString_nat index.toNat, isPlain_toString_nat index.toNat⟩
  · change (s!"{opcode.mnemonic} {index}").toList = _
    rw [Opcode.mnemonic_of_ofMnemonic? named]
    simp [toString_string]
  · rw [readPlain_of_notMem usual, if_pos isVariable, same]
    change (readWord _ >>= _) = _
    rw [readWord_toString]
    rfl

theorem canReread_multiNewArray {type : RefType} {operand count : String} {dimensions : UInt8}
    (named : Opcode.ofMnemonic? mnemonic = some .multianewarray)
    (read : readClass operand = .ok type)
    (isWord : IsWord operand.toList)
    (clear : IsClear .start (spacedStrings [operand, count])) :
    CanRereadInstruction (.multiNewArray type dimensions) := by
  obtain rfl : "multianewarray" = mnemonic :=
    Opcode.eq_of_mem_spelled (by simp [Opcode.spelled]) named
  have written := operand_of_readClass read
  refine @canReread_of_plain .multianewarray "multianewarray" _ [operand, toString dimensions] _
    named (by decide) ?_ ?_ ?_ rfl (fun _ => rfl)
    fun text same => ?_
  · change (s!"multianewarray {type.operand} {dimensions}").toList = _
    rw [written]
    simp [toString_string]
  · exact List.forall_mem_cons.mpr
      ⟨isWord, List.forall_mem_singleton.mpr (isWord_toString_nat dimensions.toNat)⟩
  · rw [spacedStrings_cons, ← List.cons_append, spacedStrings_cons, spacedStrings_nil,
      List.append_nil] at clear ⊢
    exact clear.of_append.append_cons_plain (isPlain_toString_nat dimensions.toNat)
  · unfold readPlain
    dsimp only
    rw [same]
    change (readClass _ >>= _) = _
    rw [read]
    change (readByte _ >>= _) = _
    rw [readByte_toString]
    rfl

/-- The operands of an access to a field are written as they were read. -/
theorem text_of_readField {operands : List String}
    (named : Opcode.ofMnemonic? mnemonic = some opcode)
    (read : readField opcode mnemonic operands = .ok instruction) :
    instruction.text.toList = mnemonic.toList ++ spacedStrings operands ∧
      instruction.mentions = [] ∧
      ∀ rename, instruction.shortened.relabel rename = instruction := by
  obtain ⟨⟨owner, name, descriptor⟩, isOperands, read⟩ := bind_eq_ok.mp read
  obtain ⟨ownerName, isOwner, read⟩ := bind_eq_ok.mp read
  obtain ⟨memberName, isName, read⟩ := bind_eq_ok.mp read
  obtain ⟨declared, isDeclared, read⟩ := bind_eq_ok.mp read
  rw [eq_of_threeOperands isOperands, ← Except.ok.inj read]
  refine ⟨?_, rfl, fun _ => rfl⟩
  change (s!"{opcode.mnemonic} {ownerName.text} {memberName.text} {declared.render}").toList = _
  rw [Opcode.mnemonic_of_ofMnemonic? named, text_of_readBinaryName isOwner,
    text_of_readUnqualifiedName isName, render_of_readField isDeclared]
  simp [toString_string]

/-- A call is read from the words of its owner, its name and its descriptor, and maybe one
more word for an interface. -/
theorem words_of_readCall {operands : List String}
    (read : readCall opcode mnemonic operands = .ok instruction) :
    ∃ owner name descriptor interface,
      instruction = .method opcode owner name descriptor
        (interface || opcode == .invokeinterface) ∧
      operands = [owner.text, name.text, descriptor.render] ++
        (if interface then ["interface"] else []) ∧
      ∀ interface, readCall opcode mnemonic
        ([owner.text, name.text, descriptor.render] ++
          if interface then ["interface"] else []) =
        .ok (.method opcode owner name descriptor (interface || opcode == .invokeinterface)) := by
  have inverted : ∀ (owner name descriptor : String) (interface : Bool),
      (do
        let owner ← readBinaryName owner
        let name ← readUnqualifiedName name
        let descriptor ← readDescriptor MethodDescriptor.parse descriptor
        pure (.method opcode owner name descriptor (interface || opcode == .invokeinterface))) =
        Except.ok instruction →
      ∃ ownerName memberName type, ownerName.text = owner ∧ memberName.text = name ∧
        type.render = descriptor ∧
        readDescriptor MethodDescriptor.parse descriptor = .ok type ∧
        instruction = .method opcode ownerName memberName type
          (interface || opcode == .invokeinterface) := by
    intro owner name descriptor interface read
    obtain ⟨ownerName, isOwner, read⟩ := bind_eq_ok.mp read
    obtain ⟨memberName, isName, read⟩ := bind_eq_ok.mp read
    obtain ⟨type, isType, read⟩ := bind_eq_ok.mp read
    exact ⟨ownerName, memberName, type, text_of_readBinaryName isOwner,
      text_of_readUnqualifiedName isName, render_of_readMethod isType, isType,
      (Except.ok.inj read).symm⟩
  have rereads : ∀ (owner : BinaryName) (name : UnqualifiedName) (type : MethodDescriptor),
      readDescriptor MethodDescriptor.parse type.render = .ok type → ∀ interface,
      readCall opcode mnemonic ([owner.text, name.text, type.render] ++
        if interface then ["interface"] else []) =
        .ok (.method opcode owner name type (interface || opcode == .invokeinterface)) := by
    intro owner name type isType interface
    cases interface <;>
    · change (readBinaryName _ >>= _) = _
      rw [readBinaryName_text]
      change (readUnqualifiedName _ >>= _) = _
      rw [readUnqualifiedName_text]
      change (readDescriptor MethodDescriptor.parse type.render >>= _) = _
      rw [isType]
      rfl
  unfold readCall at read
  dsimp only at read
  split at read
  · obtain ⟨owner, name, type, rfl, rfl, rfl, isType, rfl⟩ := inverted _ _ _ false read
    exact ⟨owner, name, type, false, rfl, rfl, rereads owner name type isType⟩
  · obtain ⟨owner, name, type, rfl, rfl, rfl, isType, rfl⟩ := inverted _ _ _ true read
    exact ⟨owner, name, type, true, rfl, rfl, rereads owner name type isType⟩
  · contradiction

theorem canReread_of_readCall
    (named : Opcode.ofMnemonic? mnemonic = some opcode)
    (plain : IsPlainOpcode opcode)
    (clear : IsClear .start text)
    (reads : ∀ other, readPlain opcode mnemonic other =
      readCall opcode mnemonic (wordStrings other))
    (read : readCall opcode mnemonic (wordStrings text) = .ok instruction) :
    CanRereadInstruction instruction := by
  obtain ⟨owner, name, descriptor, interface, rfl, operands, rereads⟩ := words_of_readCall read
  -- The word for an interface is left out where the operation says it.
  have written : (Instruction.method opcode owner name descriptor
      (interface || opcode == .invokeinterface)).text.toList =
      mnemonic.toList ++ spacedStrings ([owner.text, name.text, descriptor.render] ++
        if interface && opcode != .invokeinterface then ["interface"] else []) := by
    change (s!"{opcode.mnemonic} {owner.text} {name.text} {descriptor.render}" ++
      if (interface || opcode == .invokeinterface) && opcode != .invokeinterface then
        " interface" else "").toList = _
    rw [Opcode.mnemonic_of_ofMnemonic? named]
    by_cases isInterfaceCall : opcode = .invokeinterface
    · simp [isInterfaceCall, toString_string]
    · cases interface <;> simp [isInterfaceCall, toString_string]
  have areWords := areWords_wordStrings text
  have clearWords := clear.spacedStrings
  rw [operands] at areWords clearWords
  refine canReread_of_plain named plain written ?_ ?_ rfl (fun _ => rfl) fun other same => ?_
  · intro word present
    refine areWords word ?_
    rcases List.mem_append.mp present with inFront | inBack
    · exact List.mem_append_left _ inFront
    · refine List.mem_append_right _ ?_
      cases interface <;> simp_all
  · have clearFront : IsClear .start
        (spacedStrings [owner.text, name.text, descriptor.render]) := by
      rw [spacedStrings, List.map_append, spaced_append] at clearWords
      exact clearWords.of_append
    cases interface with
    | false => exact clearFront
    | true =>
        split
        · exact clearWords
        · rw [List.append_nil]
          exact clearFront
  · have flag : (interface && opcode != .invokeinterface || opcode == .invokeinterface) =
        (interface || opcode == .invokeinterface) := by
      rw [bne]
      cases interface <;> cases opcode == .invokeinterface <;> rfl
    rw [reads, same, rereads, flag]

/-- An instruction of one of the families can be read again. -/
theorem canReread_of_usual
    (named : Opcode.ofMnemonic? mnemonic = some opcode)
    (plain : IsPlainOpcode opcode)
    (usual : opcode ∉ specialOpcodes)
    (clear : IsClear .start text)
    (read : readPlain opcode mnemonic text = .ok instruction) :
    CanRereadInstruction instruction := by
  have wordwise : opcode ∉ loadOpcodes := by
    have within : ∀ opcode ∈ loadOpcodes, opcode ∈ specialOpcodes := by decide
    exact fun present => usual (within opcode present)
  have readAgain := read
  rw [readPlain_of_notMem usual] at read
  split at read
  · rename_i isVariable
    obtain ⟨operand, _, read⟩ := bind_eq_ok.mp read
    obtain ⟨index, _, read⟩ := bind_eq_ok.mp read
    exact Except.ok.inj read ▸ canReread_var index named plain usual isVariable
  · rename_i noVariable
    split at read
    · obtain ⟨written, unlabelled, becomes⟩ := text_of_readField named read
      exact canReread_of_sameWords named plain wordwise clear readAgain unlabelled becomes written
    · rename_i noField
      split at read
      · rename_i isCall
        refine canReread_of_readCall named plain clear (fun other => ?_) read
        rw [readPlain_of_notMem usual, if_neg noVariable, if_neg noField, if_pos isCall]
      · split at read
        · rename_i empty
          have isSimple : Instruction.simple opcode = instruction := Except.ok.inj read
          subst isSimple
          refine canReread_of_sameWords named plain wordwise clear readAgain rfl (fun _ => rfl) ?_
          change opcode.mnemonic.toList = _
          rw [List.isEmpty_iff.mp empty, Opcode.mnemonic_of_ofMnemonic? named, spacedStrings_nil,
            List.append_nil]
        · contradiction

/-- An operation on a class is written as it was read. -/
theorem canReread_of_class
    {type : RefType}
    {operand : String}
    (named : Opcode.ofMnemonic? mnemonic = some opcode)
    (plain : IsPlainOpcode opcode)
    (wordwise : opcode ∉ loadOpcodes)
    (clear : IsClear .start text)
    (readAgain : readPlain opcode mnemonic text = .ok instruction)
    (isOperand : oneOperand mnemonic (wordStrings text) = .ok operand)
    (read : readClass operand = .ok type)
    (unlabelled : instruction.mentions = [])
    (becomes : ∀ rename, instruction.shortened.relabel rename = instruction)
    (written : instruction.text = mnemonic ++ " " ++ type.operand) :
    CanRereadInstruction instruction := by
  refine canReread_of_sameWords named plain wordwise clear readAgain unlabelled becomes ?_
  rw [eq_of_oneOperand isOperand, written, operand_of_readClass read]
  simp

/-- Allocations, casts and tests are written as they were read. -/
theorem canReread_of_type
    (named : Opcode.ofMnemonic? mnemonic = some opcode)
    (plain : IsPlainOpcode opcode)
    (wordwise : opcode ∉ loadOpcodes)
    (clear : IsClear .start text)
    (reads : readPlain opcode mnemonic text = (do
      let operand ← readClass (← oneOperand mnemonic (wordStrings text))
      pure (.type opcode operand)))
    (read : readPlain opcode mnemonic text = .ok instruction) :
    CanRereadInstruction instruction := by
  have readAgain := read
  rw [reads] at read
  obtain ⟨operand, isOperand, read⟩ := bind_eq_ok.mp read
  obtain ⟨type, isType, read⟩ := bind_eq_ok.mp read
  have isInstruction : Instruction.type opcode type = instruction := Except.ok.inj read
  subst isInstruction
  refine canReread_of_class named plain wordwise clear readAgain isOperand isType rfl
    (fun _ => rfl) ?_
  rw [← Opcode.mnemonic_of_ofMnemonic? named]
  rfl

/-- Creations of arrays of a primitive type are written as they were read. -/
theorem canReread_of_newarray
    (named : Opcode.ofMnemonic? mnemonic = some .newarray)
    (clear : IsClear .start text)
    (read : readPlain .newarray mnemonic text = .ok instruction) :
    CanRereadInstruction instruction := by
  have readAgain := read
  unfold readPlain at read
  obtain ⟨keyword, isKeyword, read⟩ := bind_eq_ok.mp read
  split at read
  · rename_i element found
    have isNewArray : Instruction.newArray (.base element) = instruction := Except.ok.inj read
    subst isNewArray
    have isElement : element.keyword = keyword := by
      simpa using List.find?_some found
    have isMnemonic : "newarray" = mnemonic :=
      Opcode.eq_of_mem_spelled (by simp [Opcode.spelled]) named
    refine canReread_of_sameWords named (by decide) (by decide) clear readAgain rfl
      (fun _ => rfl) ?_
    change ("newarray " ++ element.keyword).toList = _
    rw [isElement, eq_of_oneOperand isKeyword, ← isMnemonic]
    simp
  · cases read

/-- Creations of arrays of references are written as they were read. -/
theorem canReread_of_anewarray
    (named : Opcode.ofMnemonic? mnemonic = some .anewarray)
    (clear : IsClear .start text)
    (read : readPlain .anewarray mnemonic text = .ok instruction) :
    CanRereadInstruction instruction := by
  have readAgain := read
  unfold readPlain at read
  obtain ⟨operand, isOperand, read⟩ := bind_eq_ok.mp read
  obtain ⟨type, isType, read⟩ := bind_eq_ok.mp read
  have isNewArray : Instruction.newArray (.ref type) = instruction := Except.ok.inj read
  subst isNewArray
  have isMnemonic : "anewarray" = mnemonic :=
    Opcode.eq_of_mem_spelled (by simp [Opcode.spelled]) named
  refine canReread_of_class named (by decide) (by decide) clear readAgain isOperand isType rfl
    (fun _ => rfl) ?_
  change "anewarray " ++ type.operand = _
  rw [← isMnemonic]
  rfl

theorem canReread_of_multianewarray
    (named : Opcode.ofMnemonic? mnemonic = some .multianewarray)
    (clear : IsClear .start text)
    (read : readPlain .multianewarray mnemonic text = .ok instruction) :
    CanRereadInstruction instruction := by
  unfold readPlain at read
  obtain ⟨operands, isOperands, read⟩ := bind_eq_ok.mp read
  obtain ⟨type, isType, read⟩ := bind_eq_ok.mp read
  obtain ⟨dimensions, _, read⟩ := bind_eq_ok.mp read
  have areWords := areWords_wordStrings text
  have clearWords := clear.spacedStrings
  rw [eq_of_twoOperands isOperands] at areWords clearWords
  exact Except.ok.inj read ▸
    canReread_multiNewArray named isType (areWords _ List.mem_cons_self) clearWords

theorem canReread_of_readSmall_eq_ok {operands : List String} {least greatest : Int}
    (read : readSmall mnemonic least greatest operands = .ok instruction) :
    CanRereadInstruction instruction := by
  rw [readSmall] at read
  obtain ⟨operand, _, read⟩ := bind_eq_ok.mp read
  obtain ⟨value, _, read⟩ := bind_eq_ok.mp read
  split at read
  · contradiction
  · exact Except.ok.inj read ▸ canReread_push_integer value

theorem canReread_of_readLoad {wide : Bool}
    (clear : IsClear .start text)
    (single : '\n' ∉ text)
    (isExact : instruction.IsExact)
    (read : readLoad mnemonic wide text = .ok instruction) :
    CanRereadInstruction instruction := by
  rw [readLoad] at read
  obtain ⟨constant, isConstant, read⟩ := bind_eq_ok.mp read
  split at read
  · contradiction
  · have isPush : Instruction.push constant = instruction := Except.ok.inj read
    subst isPush
    exact canReread_push
      ((rereadsFrom_of_readConstant single isExact isConstant).rereads clear) isExact

/-- A dynamic call is read as nothing else. -/
theorem not_isExact_of_readDynamicCall (read : readDynamicCall text = .ok instruction) :
    ¬instruction.IsExact := by
  unfold readDynamicCall at read
  dsimp only at read
  split at read
  · obtain ⟨arguments, _, read⟩ := bind_eq_ok.mp read
    obtain ⟨name, _, read⟩ := bind_eq_ok.mp read
    obtain ⟨descriptor, _, read⟩ := bind_eq_ok.mp read
    obtain ⟨bootstrap, _, read⟩ := bind_eq_ok.mp read
    exact Except.ok.inj read ▸ not_false
  · contradiction

/-- An instruction without labels that has been read can be read again. -/
theorem canReread_of_readPlain
    (named : Opcode.ofMnemonic? mnemonic = some opcode)
    (plain : IsPlainOpcode opcode)
    (clear : IsClear .start text)
    (single : '\n' ∉ text)
    (isExact : instruction.IsExact)
    (read : readPlain opcode mnemonic text = .ok instruction) :
    CanRereadInstruction instruction := by
  by_cases usual : opcode ∉ specialOpcodes
  · exact canReread_of_usual named plain usual clear read
  · rw [not_not, specialOpcodes] at usual
    simp only [List.mem_cons, List.not_mem_nil, or_false] at usual
    rcases usual with rfl | rfl | rfl | rfl | rfl | rfl | rfl | rfl | rfl | rfl | rfl | rfl | rfl |
      rfl
    · exact canReread_of_readSmall_eq_ok read
    · exact canReread_of_readSmall_eq_ok read
    · exact canReread_of_readLoad clear single isExact read
    · exact canReread_of_readLoad clear single isExact read
    · exact canReread_of_readLoad clear single isExact read
    · unfold readPlain at read
      obtain ⟨operands, _, read⟩ := bind_eq_ok.mp read
      obtain ⟨index, _, read⟩ := bind_eq_ok.mp read
      obtain ⟨value, _, read⟩ := bind_eq_ok.mp read
      exact Except.ok.inj read ▸ canReread_increment index value named
    · exact absurd isExact (not_isExact_of_readDynamicCall read)
    · exact canReread_of_type named plain (by decide) clear rfl read
    · exact canReread_of_type named plain (by decide) clear rfl read
    · exact canReread_of_type named plain (by decide) clear rfl read
    · exact canReread_of_newarray named clear read
    · exact canReread_of_anewarray named clear read
    · exact canReread_of_multianewarray named clear read
    · cases read

/-! ## Instructions with labels -/

theorem liftM_bind_of_eq_ok
    {α β : Type}
    {read : Reading α}
    {value : α}
    {next : α → LabelReading β}
    (reads : read = .ok value) :
    (liftM read >>= next) = next value := by
  rw [reads]
  rfl

theorem areWords_labels (labels : List Label) : AreWords (labels.map Label.text) := by
  intro word present
  obtain ⟨label, _, rfl⟩ := List.mem_map.mp present
  exact isWord_labelText label

theorem canReread_branch (target : Label)
    (named : Opcode.ofMnemonic? mnemonic = some opcode)
    (jump : isJump opcode = true) :
    CanRereadInstruction (.branch opcode target) := by
  refine @canReread_of_words _ _ _ [target.text] named ?_ ?_ ?_ fun line text same => ?_
  · change (s!"{opcode.mnemonic} {target.text}").toList = _
    rw [Opcode.mnemonic_of_ofMnemonic? named]
    simp [toString_string]
  · exact List.forall_mem_singleton.mpr (isWord_labelText target)
  · exact (isPlain_spaced (List.forall_mem_singleton.mpr (isPlain_labelText target))).isClear
  · have isOperand : oneOperand mnemonic [target.text] = .ok target.text := rfl
    rw [readInstruction_of_isJump named jump, same, liftM_bind_of_eq_ok isOperand]
    exact ((mentions_readLabel line target).bind fun label =>
      Mentions.pure (Instruction.branch opcode label)).congr rfl rfl

/-- The word for the default of a switch. -/
def defaultWord (label : Label) : String :=
  "default:" ++ label.text

/-- The default stands behind the other operands. -/
theorem mentions_readDefault (line : Nat) (front : List String) (label : Label) :
    Mentions (readDefault line (front ++ [defaultWord label])) [label] fun rename =>
      (rename label, front) := by
  have isPrefix : "default:".toList.isPrefixOf (defaultWord label).toList = true := by
    rw [defaultWord, String.toList_append, List.isPrefixOf_iff_prefix]
    exact List.prefix_append _ _
  have target : String.ofList ((defaultWord label).toList.drop "default:".toList.length) =
      label.text := by
    rw [defaultWord, String.toList_append, List.drop_left, String.ofList_toList]
  unfold readDefault
  rw [List.getLast?_concat]
  dsimp only
  rw [if_pos isPrefix, target, List.dropLast_concat]
  exact ((mentions_readLabel line label).bind fun fallback =>
    Mentions.pure (fallback, front)).congr rfl rfl

/-- Reading goes on with the other operands. -/
theorem mentions_readDefault_bind
    {α : Type}
    {front : List String}
    {label : Label}
    {next : Label × List String → LabelReading α}
    {others : List Label}
    {result : Label → (Label → Label) → α}
    (second : ∀ fallback, Mentions (next (fallback, front)) others (result fallback)) :
    Mentions (readDefault line (front ++ [defaultWord label]) >>= next) (label :: others)
      fun rename => result (rename label) rename :=
  @Mentions.bind_of _ _ _ _ _ _ _ (fun both => result both.1)
    (mentions_readDefault line front label) fun rename => second (rename label)

theorem isWord_defaultWord (label : Label) : IsWord (defaultWord label).toList := by
  rw [defaultWord, String.toList_append]
  have front : IsWord "default:".toList := by decide
  exact ⟨by simp, List.forall_mem_append.mpr ⟨front.solid, (isWord_labelText label).solid⟩⟩

theorem isPlain_defaultWord (label : Label) : IsPlain (defaultWord label).toList := by
  rw [defaultWord, String.toList_append]
  exact IsPlain.append (by decide) (isPlain_labelText label)

theorem isPlain_spacedStrings {words : List String}
    (plain : ∀ word ∈ words, IsPlain word.toList) : IsPlain (spacedStrings words) := by
  refine isPlain_spaced fun text present => ?_
  obtain ⟨word, isListed, rfl⟩ := List.mem_map.mp present
  exact plain word isListed

theorem spacedStrings_append (front back : List String) :
    spacedStrings (front ++ back) = spacedStrings front ++ spacedStrings back := by
  rw [spacedStrings, List.map_append, spaced_append]
  rfl

theorem toList_join_map {α : Type} (write : α → String) (elements : List α) :
    (String.join (elements.map fun element => " " ++ write element)).toList =
      spacedStrings (elements.map write) := by
  induction elements with
  | nil => rfl
  | cons element elements hypothesis => simp [hypothesis]

theorem canReread_tableSwitch (fallback : Label) (low : Int32) (targets : List Label)
    (named : Opcode.ofMnemonic? mnemonic = some .tableswitch) :
    CanRereadInstruction (.tableSwitch fallback low targets) := by
  obtain rfl : "tableswitch" = mnemonic :=
    Opcode.eq_of_mem_spelled (by simp [Opcode.spelled]) named
  refine @canReread_of_words .tableswitch "tableswitch" _
    (toString low.toInt :: (targets.map Label.text ++ [defaultWord fallback])) named
    ?_ ?_ ?_ fun line text same => ?_
  · change (s!"tableswitch {low.toInt}" ++
      String.join (targets.map fun target => " " ++ target.text) ++
      s!" default:{fallback.text}").toList = _
    simp only [String.toList_append, toList_join_map]
    simp [toString_string, spacedStrings_append, defaultWord]
  · rw [toString_int]
    exact List.forall_mem_cons.mpr ⟨Numeral.isWord_repr _, List.forall_mem_append.mpr
      ⟨areWords_labels targets, List.forall_mem_singleton.mpr (isWord_defaultWord fallback)⟩⟩
  · rw [toString_int]
    refine (isPlain_spacedStrings (List.forall_mem_cons.mpr ⟨Numeral.isPlain_repr _,
      List.forall_mem_append.mpr ⟨?_, List.forall_mem_singleton.mpr
        (isPlain_defaultWord fallback)⟩⟩)).isClear
    intro word present
    obtain ⟨label, _, rfl⟩ := List.mem_map.mp present
    exact isPlain_labelText label
  · have reads : readInstruction line "tableswitch" text =
        readTableSwitch line (wordStrings text) := by
      unfold readInstruction
      rw [named]
    rw [reads, same, readTableSwitch, liftM_bind_of_eq_ok (readInt_toString low)]
    refine (mentions_readDefault_bind fun fallback =>
      (Mentions.mapM (fun target => mentions_readLabel line target) targets).bind
        fun labels => Mentions.pure (Instruction.tableSwitch fallback low labels)).congr ?_ rfl
    simp [Instruction.mentions]

/-- The word for an entry of a switch by key. -/
def entryWord (entry : Int32 × Label) : String :=
  toString entry.1.toInt ++ ":" ++ entry.2.text

theorem toList_entryWord (entry : Int32 × Label) :
    (entryWord entry).toList = entry.1.toInt.repr.toList ++ ':' :: entry.2.text.toList := by
  rw [entryWord, toString_int]
  simp

theorem mentions_readEntry (line : Nat) (entry : Int32 × Label) :
    Mentions (readEntry line (entryWord entry)) [entry.2] fun rename =>
      (entry.1, rename entry.2) := by
  have noColon : ∀ character ∈ entry.1.toInt.repr.toList, (character != ':') = true :=
    Numeral.forall_mem_repr (by decide) (by decide) _
  have key : (entryWord entry).toList.takeWhile (· != ':') = entry.1.toInt.repr.toList := by
    rw [toList_entryWord, List.takeWhile_append_of_pos noColon,
      List.takeWhile_cons_of_neg (by decide), List.append_nil]
  have target : (entryWord entry).toList.dropWhile (· != ':') = ':' :: entry.2.text.toList := by
    rw [toList_entryWord, List.dropWhile_append_of_pos noColon,
      List.dropWhile_cons_of_neg (by decide)]
  have isKey : readInt (String.ofList entry.1.toInt.repr.toList) = .ok entry.1 := by
    rw [String.ofList_toList, ← toString_int]
    exact readInt_toString entry.1
  unfold readEntry
  dsimp only
  rw [target, key]
  dsimp only
  rw [liftM_bind_of_eq_ok isKey, String.ofList_toList]
  exact ((mentions_readLabel line entry.2).bind fun label =>
    Mentions.pure (entry.1, label)).congr rfl rfl

theorem isWord_entryWord (entry : Int32 × Label) : IsWord (entryWord entry).toList := by
  rw [toList_entryWord]
  refine ⟨by simp, List.forall_mem_append.mpr ⟨(Numeral.isWord_repr _).solid,
    List.forall_mem_cons.mpr ⟨by decide, (isWord_labelText entry.2).solid⟩⟩⟩

theorem isPlain_entryWord (entry : Int32 × Label) : IsPlain (entryWord entry).toList := by
  rw [toList_entryWord]
  exact (Numeral.isPlain_repr _).append
    (List.forall_mem_cons.mpr ⟨by decide, isPlain_labelText entry.2⟩)

theorem canReread_lookupSwitch (fallback : Label) (targets : List (Int32 × Label))
    (named : Opcode.ofMnemonic? mnemonic = some .lookupswitch) :
    CanRereadInstruction (.lookupSwitch fallback targets) := by
  obtain rfl : "lookupswitch" = mnemonic :=
    Opcode.eq_of_mem_spelled (by simp [Opcode.spelled]) named
  refine @canReread_of_words .lookupswitch "lookupswitch" _
    (targets.map entryWord ++ [defaultWord fallback]) named
    ?_ ?_ ?_ fun line text same => ?_
  · have entries : targets.map (fun entry => s!" {entry.1.toInt}:{entry.2.text}") =
        targets.map fun entry => " " ++ entryWord entry := by
      refine List.map_congr_left fun entry _ => ?_
      simp [entryWord, toString_string, String.append_assoc]
    change ("lookupswitch" ++
      String.join (targets.map fun entry => s!" {entry.1.toInt}:{entry.2.text}") ++
      s!" default:{fallback.text}").toList = _
    rw [entries]
    simp only [String.toList_append, toList_join_map]
    simp [toString_string, spacedStrings_append, defaultWord]
  · refine List.forall_mem_append.mpr
      ⟨?_, List.forall_mem_singleton.mpr (isWord_defaultWord fallback)⟩
    intro word present
    obtain ⟨entry, _, rfl⟩ := List.mem_map.mp present
    exact isWord_entryWord entry
  · refine (isPlain_spacedStrings (List.forall_mem_append.mpr
      ⟨?_, List.forall_mem_singleton.mpr (isPlain_defaultWord fallback)⟩)).isClear
    intro word present
    obtain ⟨entry, _, rfl⟩ := List.mem_map.mp present
    exact isPlain_entryWord entry
  · have reads : readInstruction line "lookupswitch" text =
        readLookupSwitch line (wordStrings text) := by
      unfold readInstruction
      rw [named]
    rw [reads, same, readLookupSwitch]
    refine (mentions_readDefault_bind fun fallback =>
      (Mentions.mapM (fun entry => mentions_readEntry line entry) targets).bind
        fun entries => Mentions.pure (Instruction.lookupSwitch fallback entries)).congr ?_ rfl
    simp [Instruction.mentions]

theorem labelReading_bind_eq_ok
    {α β : Type}
    {read : LabelReading α}
    {next : α → LabelReading β}
    {scope : Option LabelTable}
    {result : β × Option LabelTable} :
    (read >>= next) scope = .ok result ↔
      ∃ value between, read scope = .ok (value, between) ∧ next value between = .ok result := by
  change (read scope >>= fun state => next state.1 state.2) = _ ↔ _
  rw [bind_eq_ok, Prod.exists]

theorem liftM_eq_ok
    {α : Type}
    {read : Reading α}
    {value : α}
    {scope after : Option LabelTable} :
    (liftM read : LabelReading α) scope = .ok (value, after) ↔
      read = .ok value ∧ scope = after := by
  cases read with
  | error fault => exact iff_of_false (by rintro ⟨⟩) (by rintro ⟨⟨⟩, _⟩)
  | ok result =>
      change Except.ok (result, scope) = _ ↔ _
      simp

/-- The shape of a switch by index that has been read. -/
theorem exists_of_readTableSwitch
    {operands : List String}
    {scope after : Option LabelTable}
    (read : readTableSwitch line operands scope = .ok (instruction, after)) :
    ∃ fallback low targets, instruction = .tableSwitch fallback low targets := by
  unfold readTableSwitch at read
  split at read
  · contradiction
  · obtain ⟨low, _, _, read⟩ := labelReading_bind_eq_ok.mp read
    obtain ⟨⟨fallback, others⟩, _, _, read⟩ := labelReading_bind_eq_ok.mp read
    obtain ⟨targets, _, _, read⟩ := labelReading_bind_eq_ok.mp read
    have same := congrArg Prod.fst (Except.ok.inj read)
    exact ⟨fallback, low, targets, same.symm⟩

/-- The shape of a switch by key that has been read. -/
theorem exists_of_readLookupSwitch
    {operands : List String}
    {scope after : Option LabelTable}
    (read : readLookupSwitch line operands scope = .ok (instruction, after)) :
    ∃ fallback targets, instruction = .lookupSwitch fallback targets := by
  unfold readLookupSwitch at read
  obtain ⟨⟨fallback, others⟩, _, _, read⟩ := labelReading_bind_eq_ok.mp read
  obtain ⟨targets, _, _, read⟩ := labelReading_bind_eq_ok.mp read
  have same := congrArg Prod.fst (Except.ok.inj read)
  exact ⟨fallback, targets, same.symm⟩

/-- What is read is an instruction without labels, a jump or a switch, as the mnemonic says. -/
theorem exists_of_readInstruction
    {scope after : Option LabelTable}
    (read : readInstruction line mnemonic text scope = .ok (instruction, after)) :
    ∃ opcode, Opcode.ofMnemonic? mnemonic = some opcode ∧
      (IsPlainOpcode opcode ∧ readPlain opcode mnemonic text = .ok instruction ∨
        isJump opcode = true ∧ (∃ target, .branch opcode target = instruction) ∨
        opcode = .tableswitch ∧
          (∃ fallback low targets, .tableSwitch fallback low targets = instruction) ∨
        opcode = .lookupswitch ∧
          ∃ fallback targets, .lookupSwitch fallback targets = instruction) := by
  cases named : Opcode.ofMnemonic? mnemonic with
  | none =>
      unfold readInstruction at read
      rw [named] at read
      cases read
  | some opcode =>
      refine ⟨opcode, rfl, ?_⟩
      by_cases plain : IsPlainOpcode opcode
      · rw [readInstruction_of_plain named plain] at read
        exact Or.inl ⟨plain, (liftM_eq_ok.mp read).1⟩
      · by_cases jump : isJump opcode = true
        · rw [readInstruction_of_isJump named jump] at read
          obtain ⟨operand, _, _, read⟩ := labelReading_bind_eq_ok.mp read
          obtain ⟨target, _, _, read⟩ := labelReading_bind_eq_ok.mp read
          exact Or.inr (Or.inl ⟨jump, target, congrArg Prod.fst (Except.ok.inj read)⟩)
        · have isSwitch : opcode = .tableswitch ∨ opcode = .lookupswitch := by
            rw [IsPlainOpcode, not_and_or, not_and_or, not_not, not_not] at plain
            simp only [jump, not_true_eq_false, or_false] at plain
            exact plain
          unfold readInstruction at read
          rw [named] at read
          rcases isSwitch with rfl | rfl
          · obtain ⟨fallback, low, targets, rfl⟩ := exists_of_readTableSwitch read
            exact Or.inr (Or.inr (Or.inl ⟨rfl, fallback, low, targets, rfl⟩))
          · obtain ⟨fallback, targets, rfl⟩ := exists_of_readLookupSwitch read
            exact Or.inr (Or.inr (Or.inr ⟨rfl, fallback, targets, rfl⟩))

/-- An instruction that has been read from a clear text can be read again. -/
theorem canReread_of_readInstruction
    {scope after : Option LabelTable}
    (clear : IsClear .start text)
    (single : '\n' ∉ text)
    (isExact : instruction.IsExact)
    (read : readInstruction line mnemonic text scope = .ok (instruction, after)) :
    CanRereadInstruction instruction := by
  obtain ⟨opcode, named, ⟨plain, read⟩ | ⟨jump, target, rfl⟩ |
    ⟨rfl, fallback, low, targets, rfl⟩ | ⟨rfl, fallback, targets, rfl⟩⟩ :=
      exists_of_readInstruction read
  · exact canReread_of_readPlain named plain clear single isExact read
  · exact canReread_branch target named jump
  · exact canReread_tableSwitch fallback low targets named
  · exact canReread_lookupSwitch fallback targets named

end Listing

end StackMaps
