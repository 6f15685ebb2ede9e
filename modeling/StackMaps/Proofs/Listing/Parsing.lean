import StackMaps.Proofs.Listing.Reading

/-!
# Listings that have been read

Every line that is read keeps what is known about the classes before it, about the unfinished
class and about the unfinished method. So a listing that has been read can be written and read
again.
-/

namespace StackMaps

open Text Listing

/-- The instructions of a body have been read, with a mark for every label, and no frames have
been found yet. -/
structure Body.IsRead (body : Body) : Prop where
  instructions : ∀ instruction ∈ body.instructions,
    instruction.marks? = none → Listing.IsRead instruction
  frames : body.frames = []
  isMarked : body.IsMarked

/-- What is known about a class when a part of it has been read. -/
structure ClassDefinition.IsRead (definition : ClassDefinition) : Prop where
  canReread : definition.IsExact → definition.CanReread
  bodies : ∀ method ∈ definition.methods, ∀ body ∈ method.body, body.IsRead

namespace Listing

variable {state after : ParseState} {opened extended : OpenMethod} {names : List String}
  {definition : ClassDefinition} {line : Nat} {text : List Char}

/-- What is known when some lines have been read. -/
structure IsSound (state : ParseState) : Prop where
  classes : ∀ definition ∈ state.classes, definition.IsRead
  current : ∀ definition ∈ state.current, definition.IsRead
  method : ∀ opened ∈ state.method, ∃ names, IsOpen opened names

theorem isSound_start : IsSound .start where
  classes := fun _ absent => absurd absent List.not_mem_nil
  current := fun _ absent => nomatch absent
  method := fun _ absent => nomatch absent

theorem IsSound.of_method
    (sound : IsSound state)
    (isOpen : IsOpen opened names) :
    IsSound { state with method := some opened } where
  classes := sound.classes
  current := sound.current
  method := fun _ same => Option.some.inj same ▸ ⟨names, isOpen⟩

theorem isRead_finishClass (isRead : definition.IsRead) : (finishClass definition).IsRead where
  canReread := fun isExact => by
    have read := isRead.canReread fun method present =>
      isExact method (List.mem_reverse.mpr present)
    exact ⟨read.flags, read.isWord, read.isClear, read.superclass, read.isRoot, read.interfaces,
      fun method present => read.methods method (List.mem_reverse.mp present)⟩
  bodies := fun method present => isRead.bodies method (List.mem_reverse.mp present)

/-- The same is known about the classes that have been finished. -/
theorem IsSound.finished (sound : IsSound state) :
    ∀ definition ∈ finished state, definition.IsRead := by
  intro definition present
  rcases List.mem_append.mp present with isCurrent | isEarlier
  · obtain ⟨current, inClass, rfl⟩ := Option.map_eq_some_iff.mp (Option.mem_toList.mp isCurrent)
    exact isRead_finishClass (sound.current current inClass)
  · exact sound.classes definition isEarlier

/-! ## Headers -/

/-- The last word of a clear text is clear itself if there are no quotes in front of it. -/
theorem isClear_of_getLast?
    {last : String}
    (clear : IsClear .start text)
    (isLast : (wordStrings text).getLast? = some last)
    (plain : ∀ word ∈ (wordStrings text).dropLast, IsPlain word.toList) :
    IsWord last.toList ∧ IsClear .start last.toList := by
  have whole := List.dropLast_append_getLast? last isLast
  have isWord := areWords_wordStrings text last (List.mem_of_getLast? isLast)
  have words := clear.spacedStrings
  rw [← whole, spacedStrings_append, spacedStrings_cons, spacedStrings_nil,
    List.append_nil] at words
  have behind := (isPlain_spacedStrings plain).isClear_append_iff.mp words
  exact ⟨isWord, (isClear_cons_of_isBlank (by decide)).mp behind⟩

theorem isStatement_object : IsStatement BinaryName.object.text.toList where
  isPhrase := (by decide : IsWord BinaryName.object.text.toList).isPhrase
  isClear := by decide

theorem IsSound.startClass
    (sound : IsSound state)
    (clear : IsClear .start text)
    (read : startClass state text = .ok after) :
    IsSound after := by
  unfold Listing.startClass at read
  split at read
  · cases read
  dsimp only at read
  split at read
  · cases read
  · rename_i outside _ last isLast
    obtain ⟨name, isName, read⟩ := bind_eq_ok.mp read
    obtain ⟨flags, areFlags, read⟩ := bind_eq_ok.mp read
    rw [← Except.ok.inj read]
    have written := text_of_readBinaryName isName
    obtain ⟨isWord, isClear⟩ := isClear_of_getLast? clear isLast
      (isPlain_of_readClassFlags areFlags)
    rw [← written] at isWord isClear
    refine ⟨sound.finished, fun definition isNew => ?_, sound.method⟩
    rw [← Option.some.inj isNew]
    constructor
    · intro _
      refine ⟨ofBits_of_readClassFlags areFlags, isWord, isClear, fun above isAbove => ?_,
        fun isRoot => ?_, fun _ absent => absurd absent List.not_mem_nil,
        fun _ absent => absurd absent List.not_mem_nil⟩
      · dsimp only at isAbove
        split at isAbove
        · cases isAbove
        · exact Option.some.inj isAbove ▸ isStatement_object
      · dsimp only at isRoot
        split at isRoot
        · assumption
        · cases isRoot
    · exact fun _ absent => absurd absent List.not_mem_nil

/-- A name on a line of its own is a statement. -/
theorem IsSound.extendHeader
    {directive : String}
    {extend : ClassDefinition → BinaryName → ClassDefinition}
    (sound : IsSound state)
    (clear : IsClear .start text)
    (single : '\n' ∉ text)
    (extends_ : ∀ definition name, definition.IsRead → IsStatement name.text.toList →
      (extend definition name).IsRead)
    (read : extendHeader state directive text extend = .ok after) :
    IsSound after := by
  obtain ⟨name, isName, read⟩ := bind_eq_ok.mp read
  have written := text_of_readBinaryName isName
  have isStatement : IsStatement name.text.toList := by
    rw [written, String.toList_ofList]
    refine ⟨isPhrase_trim single fun empty => ?_, clear.trim⟩
    rw [empty] at isName
    exact absurd isName (by rintro ⟨⟩)
  split at read
  · rename_i current inClass _
    rw [← Except.ok.inj read]
    refine ⟨sound.classes, fun definition isNew => ?_, sound.method⟩
    rw [← Option.some.inj isNew]
    exact extends_ current name (sound.current current inClass) isStatement
  · cases read

theorem isRead_withSuperclass
    {name : BinaryName}
    (isRead : definition.IsRead)
    (isStatement : IsStatement name.text.toList) :
    { definition with superclass := some name : ClassDefinition }.IsRead where
  canReread := fun isExact => by
    have read := isRead.canReread isExact
    exact ⟨read.flags, read.isWord, read.isClear, fun _ same => Option.some.inj same ▸ isStatement,
      fun absent => absurd absent (Option.some_ne_none name), read.interfaces, read.methods⟩
  bodies := isRead.bodies

theorem isRead_withInterface
    {name : BinaryName}
    (isRead : definition.IsRead)
    (isStatement : IsStatement name.text.toList) :
    { definition with interfaces := definition.interfaces ++ [name] : ClassDefinition }.IsRead where
  canReread := fun isExact => by
    have read := isRead.canReread isExact
    exact ⟨read.flags, read.isWord, read.isClear, read.superclass, read.isRoot,
      List.forall_mem_append.mpr ⟨read.interfaces, List.forall_mem_singleton.mpr isStatement⟩,
      read.methods⟩
  bodies := isRead.bodies

/-! ## Methods -/

theorem IsSound.startMethod
    (sound : IsSound state)
    (clear : IsClear .start text)
    (read : startMethod state text = .ok after) :
    IsSound after := by
  unfold Listing.startMethod at read
  dsimp only at read
  split at read
  · cases read
  split at read
  · cases read
  split at read
  · cases read
  · rename_i last isLast
    obtain ⟨flags, areFlags, read⟩ := bind_eq_ok.mp read
    split at read
    · cases read
    obtain ⟨name, isName, read⟩ := bind_eq_ok.mp read
    obtain ⟨descriptor, isDescriptor, read⟩ := bind_eq_ok.mp read
    rw [← Except.ok.inj read]
    have writtenName := text_of_readUnqualifiedName isName
    have writtenDescriptor := render_of_readMethod isDescriptor
    obtain ⟨isWord, isClear⟩ := isClear_of_getLast? clear isLast
      (isPlain_of_readMethodFlags areFlags)
    have whole : (name.text ++ descriptor.render).toList = last.toList := by
      rw [writtenName, writtenDescriptor, String.toList_append, String.toList_ofList,
        String.toList_ofList, List.takeWhile_append_dropWhile]
    refine @IsSound.of_method _ _ [] sound ?_
    refine ⟨⟨ofBits_of_readMethodFlags areFlags, whole ▸ isWord, whole ▸ isClear, ?_, ?_⟩,
      ⟨LabelTable.lists_empty, fun label => by simp [LabelTable.empty]⟩, List.nodup_nil,
      fun _ absent => absurd absent List.not_mem_nil,
      fun _ absent => absurd absent List.not_mem_nil,
      fun _ absent => absurd absent List.not_mem_nil,
      fun _ absent => absurd absent List.not_mem_nil⟩
    · intro character present
      rw [writtenName, String.toList_ofList] at present
      exact @List.mem_takeWhile_imp _ (· != '(') _ _ present
    · rw [writtenDescriptor]
      exact isDescriptor

/-- The method that is being read is known, and it has not been ended without its labels. -/
theorem IsOpen.isRead
    {bodiless : Bool}
    (isOpen : IsOpen opened names)
    (isRead : definition.IsRead)
    (placed : opened.labels.unplaced? = none)
    (isBodiless : opened.flags.isBodiless = bodiless) :
    { definition with
      methods :=
        { name := opened.name
          descriptor := opened.descriptor
          flags := opened.flags
          body := if bodiless then none else some opened.body } ::
          definition.methods : ClassDefinition }.IsRead where
  canReread := fun isExact => by
    obtain ⟨isExactNew, isExactOthers⟩ := List.forall_mem_cons.mp isExact
    have read := isRead.canReread isExactOthers
    refine ⟨read.flags, read.isWord, read.isClear, read.superclass, read.isRoot, read.interfaces,
      List.forall_mem_cons.mpr ⟨⟨isOpen.header, ?_, fun body isBody => ?_⟩, read.methods⟩⟩
    · rw [isBodiless]
      cases bodiless <;> rfl
    · cases bodiless with
      | true => cases isBody
      | false =>
          rw [← Option.some.inj isBody]
          exact isOpen.canReread placed (isExactNew opened.body rfl)
  bodies := List.forall_mem_cons.mpr ⟨fun body isBody => by
    cases bodiless with
    | true => cases isBody
    | false =>
        rw [← Option.some.inj isBody]
        exact ⟨fun instruction present =>
          isOpen.instructions instruction (List.mem_reverse.mp present), rfl,
          isOpen.isMarked placed⟩, isRead.bodies⟩

theorem IsSound.endMethod
    (sound : IsSound state)
    (read : endMethod line state text = .ok after) :
    IsSound after := by
  unfold Listing.endMethod at read
  dsimp only at read
  split at read
  · cases read
  split at read
  · cases read
  rename_i opened inMethod
  split at read
  · cases read
  rename_i placed
  split at read
  · cases read
  rw [← Except.ok.inj read]
  obtain ⟨names, isOpen⟩ := sound.method opened inMethod
  refine ⟨sound.classes, fun definition isNew => ?_, fun _ absent => nomatch absent⟩
  obtain ⟨current, inClass, rfl⟩ := Option.map_eq_some_iff.mp isNew
  exact isOpen.isRead (sound.current current inClass) placed rfl

/-! ## Lines of methods -/

/-- A reader with labels keeps the table of the method that is being read in order. -/
theorem IsSound.withLabels
    {α : Type}
    {read : LabelReading α}
    {value : α}
    {Fits : Nat → α → Prop}
    (sound : IsSound state)
    (issues : ∀ count, Issues count read Fits)
    (reads : withLabels state read = .ok (value, some extended)) :
    ∃ opened labels names more, extended = { opened with labels } ∧ IsOpen opened names ∧
      read (some opened.labels) = .ok (value, some labels) ∧ labels.Lists more ∧
      names.length ≤ more.length ∧ labels.placed = opened.labels.placed ∧
      Fits more.length value := by
  obtain ⟨opened, labels, inMethod, readValue, isExtended⟩ := exists_of_withLabels reads
  obtain ⟨names, isOpen⟩ := sound.method opened inMethod
  obtain ⟨more, issued, same, lists, longer, samePlaced, fits⟩ :=
    issues names.length names opened.labels value (some labels) isOpen.tracks.lists
      (Nat.le_refl _) readValue
  rw [← Option.some.inj same] at lists samePlaced
  exact ⟨opened, labels, names, more, isExtended, isOpen, readValue, lists, longer, samePlaced,
    fits⟩

theorem IsSound.addInstruction
    {mnemonic : String}
    (sound : IsSound state)
    (clear : IsClear .start (trim text))
    (single : '\n' ∉ trim text)
    (read : addInstruction line state mnemonic text = .ok after) :
    IsSound after := by
  obtain ⟨⟨instruction, method⟩, isInstruction, read⟩ := bind_eq_ok.mp read
  cases method with
  | none => cases read
  | some extended =>
      obtain ⟨opened, labels, names, more, rfl, isOpen, readInstruction, lists, longer, samePlaced,
        isIssued⟩ := sound.withLabels (fun _ => issues_readInstruction) isInstruction
      rw [← Except.ok.inj read]
      exact sound.of_method (isOpen.instruction lists longer samePlaced isIssued
        ⟨line, mnemonic, trim text, _, _, clear, single, readInstruction⟩)

theorem IsSound.placeLabel
    {name : String}
    (sound : IsSound state)
    (read : placeLabel line state name = .ok after) :
    IsSound after := by
  obtain ⟨⟨label, method⟩, isLabel, read⟩ := bind_eq_ok.mp read
  cases method with
  | none => cases read
  | some extended =>
      obtain ⟨opened, labels, names, more, rfl, isOpen, _, lists, longer, samePlaced, issued⟩ :=
        sound.withLabels (fun _ => issues_readLabel line name) isLabel
      dsimp only at read
      split at read
      · cases read
      · rename_i unplaced
        rw [← Except.ok.inj read]
        exact sound.of_method (isOpen.mark lists longer samePlaced issued unplaced)

/-- The labels of a range are in use when it has been read. -/
theorem issues_readRange {count : Nat} {start stop handler : String}
    (catchType : Option BinaryName) :
    Issues count (do
      let start ← readLabel line start
      let stop ← readLabel line stop
      let handler ← readLabel line handler
      pure { start, stop, handler, catchType : ExceptionRange })
      fun more range =>
        range.catchType = catchType ∧ ∀ label ∈ range.mentions, label.id < more := by
  refine (issues_readLabel line start).bind fun first more _ issuedFirst => ?_
  refine (issues_readLabel line stop).bind fun second most longer issuedSecond => ?_
  refine (issues_readLabel line handler).bind fun third all evenLonger issuedThird => ?_
  refine Issues.pure fun last enough => ⟨rfl, ?_⟩
  simp only [ExceptionRange.mentions, List.forall_mem_cons, List.not_mem_nil, false_implies,
    implies_true, and_true]
  exact ⟨by omega, by omega, by omega⟩

/-- The first word of a clear text is clear. -/
theorem isClear_of_wordStrings_eq_cons
    {first : String}
    {others : List String}
    (clear : IsClear .start text)
    (words_eq : wordStrings text = first :: others) :
    IsWord first.toList ∧ IsClear .start first.toList := by
  have isWord := areWords_wordStrings text first (by rw [words_eq]; exact List.mem_cons_self)
  have words := clear.spacedStrings
  rw [words_eq, spacedStrings_cons, isClear_cons_of_isBlank (by decide)] at words
  exact ⟨isWord, words.of_append⟩

/-- What a range catches can be read again. -/
theorem canCatchAgain_of_read
    {caught : String}
    {catchType : Option BinaryName}
    (isWord : IsWord caught.toList)
    (isClear : IsClear .start caught.toList)
    (read : (if caught = "any" then pure none else (readBinaryName caught).map some :
      Reading (Option BinaryName)) = .ok catchType) :
    CanCatchAgain catchType := by
  split at read
  · rw [← Except.ok.inj read]
    exact ⟨by decide, by decide, fun isName => absurd rfl isName⟩
  · rename_i notAny
    obtain ⟨name, isName, rfl⟩ := map_eq_ok.mp read
    have written : caughtWord (some name) = caught := text_of_readBinaryName isName
    exact ⟨written ▸ isWord, written ▸ isClear, fun _ => written ▸ notAny⟩

theorem ite_bind_eq_ok
    {α β : Type}
    {condition : Prop}
    [Decidable condition]
    {first second : Reading α}
    {next : α → Reading β}
    {result : β} :
    (if condition then first >>= next else second >>= next) = .ok result ↔
      ∃ value, (if condition then first else second) = .ok value ∧ next value = .ok result := by
  split
  · exact bind_eq_ok
  · exact bind_eq_ok

theorem IsSound.addRange
    (sound : IsSound state)
    (clear : IsClear .start text)
    (read : addRange line state text = .ok after) :
    IsSound after := by
  unfold Listing.addRange at read
  split at read
  · rename_i caught start stop handler words_eq
    obtain ⟨isWord, isClear⟩ := isClear_of_wordStrings_eq_cons clear words_eq
    dsimp only at read
    obtain ⟨catchType, isCaught, read⟩ := ite_bind_eq_ok.mp read
    have canCatch := canCatchAgain_of_read isWord isClear isCaught
    obtain ⟨⟨range, method⟩, isRange, read⟩ := bind_eq_ok.mp read
    cases method with
    | none => cases read
    | some extended =>
        obtain ⟨opened, labels, names, more, rfl, isOpen, _, lists, longer, samePlaced, same,
          issued⟩ := sound.withLabels (fun _ => issues_readRange catchType) isRange
        rw [← Except.ok.inj read]
        exact sound.of_method (isOpen.range lists longer samePlaced issued (same ▸ canCatch))
  · cases read

/-- The limits do not matter. -/
theorem IsOpen.withLimits (isOpen : IsOpen opened names) (maxStack maxLocals : UInt16) :
    IsOpen { opened with maxStack, maxLocals } names :=
  ⟨isOpen.header, ⟨isOpen.tracks.lists, isOpen.tracks.placed⟩, isOpen.nodup, isOpen.issued,
    isOpen.issuedRanges, isOpen.instructions, isOpen.ranges⟩

theorem IsSound.setLimit
    (sound : IsSound state)
    (read : setLimit state text = .ok after) :
    IsSound after := by
  unfold Listing.setLimit at read
  split at read
  · obtain ⟨value, _, read⟩ := bind_eq_ok.mp read
    split at read
    · cases read
    · rename_i opened inMethod
      obtain ⟨names, isOpen⟩ := sound.method opened inMethod
      split at read
      · exact Except.ok.inj read ▸ sound.of_method (isOpen.withLimits value opened.maxLocals)
      · exact Except.ok.inj read ▸ sound.of_method (isOpen.withLimits opened.maxStack value)
      · cases read
  · cases read

/-! ## Lines -/

/-- What stands behind a plain first word is clear and on one line. -/
theorem clear_of_splitWord
    (isStatement : IsStatement text)
    (plain : IsPlain (splitWord text).1) :
    IsClear .start (splitWord text).2 ∧ '\n' ∉ (splitWord text).2 := by
  obtain ⟨whole, _, _⟩ := splitWord_spec text
  have clear := isStatement.isClear
  have single := isStatement.isPhrase.single
  rw [← whole] at clear single
  exact ⟨plain.isClear_append_iff.mp clear, fun present =>
    single (List.mem_append_right _ present)⟩

theorem atLine_eq_ok {α : Type} {reading : Reading α} {value : α} :
    atLine line reading = .ok value ↔ reading = .ok value :=
  mapError_eq_ok

/-- Only what begins with a mnemonic is read as an instruction. -/
theorem isPlain_of_addInstruction
    {mnemonic : String}
    (read : addInstruction line state mnemonic text = .ok after) :
    IsPlain mnemonic.toList := by
  obtain ⟨_, isInstruction, _⟩ := bind_eq_ok.mp read
  obtain ⟨_, isInstruction, _⟩ := bind_eq_ok.mp isInstruction
  cases named : Opcode.ofMnemonic? mnemonic with
  | some opcode => exact (Opcode.isMnemonicText_of_ofMnemonic? named).isPlain
  | none =>
      unfold readInstruction at isInstruction
      rw [named] at isInstruction
      cases isInstruction

theorem IsSound.readLine
    (sound : IsSound state)
    (isStatement : IsStatement text)
    (read : readLine line state text = .ok after) :
    IsSound after := by
  have behind : ∀ word : String, String.ofList (splitWord text).1 = word → IsPlain word.toList →
      IsClear .start (splitWord text).2 ∧ '\n' ∉ (splitWord text).2 := by
    rintro word rfl plain
    rw [String.toList_ofList] at plain
    exact clear_of_splitWord isStatement plain
  unfold Listing.readLine at read
  dsimp only at read
  split at read
  · exact sound.startClass (behind _ ‹_› (by decide)).1 (atLine_eq_ok.mp read)
  · obtain ⟨clear, single⟩ := behind _ ‹_› (by decide)
    exact sound.extendHeader clear single (fun _ _ => isRead_withSuperclass) (atLine_eq_ok.mp read)
  · obtain ⟨clear, single⟩ := behind _ ‹_› (by decide)
    exact sound.extendHeader clear single (fun _ _ => isRead_withInterface) (atLine_eq_ok.mp read)
  · exact sound.startMethod (behind _ ‹_› (by decide)).1 (atLine_eq_ok.mp read)
  · exact sound.endMethod read
  · exact sound.addRange (behind _ ‹_› (by decide)).1 (atLine_eq_ok.mp read)
  · exact sound.setLimit (atLine_eq_ok.mp read)
  · split at read
    · cases read
    split at read
    · exact sound.placeLabel (atLine_eq_ok.mp read)
    · have reads := atLine_eq_ok.mp read
      obtain ⟨clear, single⟩ := behind _ rfl (isPlain_of_addInstruction reads)
      exact sound.addInstruction clear.trim (fun present => single (mem_of_mem_trim present)) reads

theorem IsSound.readNumbered
    {numbered : List Char × Nat}
    (sound : IsSound state)
    (single : '\n' ∉ numbered.1)
    (read : readNumbered state numbered = .ok after) :
    IsSound after := by
  unfold Listing.readNumbered at read
  split at read
  · exact Except.ok.inj read ▸ sound
  · rename_i filled
    exact sound.readLine (isStatement_trim_stripComment single filled) read

/-- What is known when no line has been read is known when all of them have been. -/
theorem IsSound.readAll
    {lines : List (List Char × Nat)}
    (sound : IsSound state)
    (single : ∀ numbered ∈ lines, '\n' ∉ numbered.1)
    (read : lines.foldlM Listing.readNumbered state = .ok after) :
    IsSound after := by
  induction lines generalizing state with
  | nil => exact Except.ok.inj read ▸ sound
  | cons first lines hypothesis =>
      obtain ⟨singleFirst, singleOthers⟩ := List.forall_mem_cons.mp single
      obtain ⟨next, readFirst, readOthers⟩ := bind_eq_ok.mp read
      exact hypothesis (sound.readNumbered singleFirst readFirst) singleOthers readOthers

variable {source : String} {listing : Listing}

/-- The same is known about all classes of a listing. -/
theorem isRead_of_parse
    (parsed : parse source = .ok listing) :
    ∀ definition ∈ listing.classes, definition.IsRead := by
  obtain ⟨state, read, parsed⟩ := bind_eq_ok.mp parsed
  have single : ∀ numbered ∈ (Text.lines source.toList).zipIdx 1, '\n' ∉ numbered.1 :=
    fun numbered present => single_of_mem_lines (List.fst_mem_of_mem_zipIdx present)
  have sound := isSound_start.readAll single read
  split at parsed
  · cases parsed
  · rw [← Except.ok.inj parsed]
    exact fun definition present => sound.finished definition (List.mem_reverse.mp present)

end Listing
end StackMaps
