import StackMaps.Listing.Parser
import StackMaps.Proofs.Instruction.Rereading
import StackMaps.Proofs.Listing.Lines

/-!
# Bodies read back

The lines of a body are read one by one. While a method is being read, its table of
labels lists the names in the order of their mention, and the labels with marks are those
among its instructions.
-/

namespace StackMaps
namespace Listing

open Text

/-! ## Reading line by line -/

/-- Read lines that are numbered from a start. -/
def readLines (state : ParseState) (start : Nat) (lines : List (List Char)) :
    Except SyntaxError ParseState :=
  (lines.zipIdx start).foldlM readNumbered state

variable {state : ParseState} {start line : Nat} {text operands : List Char}

@[simp] theorem readLines_nil (state : ParseState) (start : Nat) :
    readLines state start [] = .ok state := rfl

theorem readLines_cons (state : ParseState) (start : Nat) (text : List Char)
    (lines : List (List Char)) :
    readLines state start (text :: lines) =
      readNumbered state (text, start) >>= fun next => readLines next (start + 1) lines := rfl

theorem readLines_append (state : ParseState) (start : Nat) (front back : List (List Char)) :
    readLines state start (front ++ back) =
      readLines state start front >>= fun next =>
        readLines next (start + front.length) back := by
  rw [readLines, List.zipIdx_append, List.foldlM_append]
  rfl

theorem readLines_append_of_eq_ok
    {next : ParseState}
    {front : List (List Char)}
    (read : readLines state start front = .ok next)
    (back : List (List Char)) :
    readLines state start (front ++ back) = readLines next (start + front.length) back := by
  rw [readLines_append, read]
  rfl

theorem readLines_cons_of_eq_ok
    {next : ParseState}
    (read : readNumbered state (text, start) = .ok next)
    (lines : List (List Char)) :
    readLines state start (text :: lines) = readLines next (start + 1) lines := by
  rw [readLines_cons, read]
  rfl

/-- A statement is read behind any indentation. -/
theorem readNumbered_append
    {front : List Char}
    (isStatement : IsStatement text)
    (blanks : ∀ character ∈ front, isBlank character = true) :
    readNumbered state (front ++ text, line) = readLine line state text := by
  rw [readNumbered, isStatement.trim_stripComment blanks]
  split
  · exact absurd rfl isStatement.isPhrase.nonempty
  · rfl

theorem readNumbered_indented (isStatement : IsStatement text) :
    readNumbered state (indented text, line) = readLine line state text :=
  readNumbered_append isStatement isBlank_indentation

theorem readNumbered_statement (isStatement : IsStatement text) :
    readNumbered state (text, line) = readLine line state text :=
  @readNumbered_append _ _ _ [] isStatement fun _ absent => absurd absent List.not_mem_nil

theorem readNumbered_nil : readNumbered state ([], line) = .ok state := rfl

theorem readNumbered_frameComment (frame : BodyFrame) :
    readNumbered state (indented (frameComment frame), line) = .ok state := by
  have isComment : indented (frameComment frame) =
      "    ".toList ++ '#' :: (" frame: ".toList ++ (frame.text Label.text).toList) := rfl
  rw [readNumbered, isComment, trim_stripComment_comment isBlank_indentation]

/-- A statement out of plain words. -/
theorem isStatement_of_plain
    {directive : String}
    {words : List String}
    (isWord : IsWord directive.toList)
    (plain : IsPlain directive.toList)
    (areWords : AreWords words)
    (plainWords : ∀ word ∈ words, IsPlain word.toList) :
    IsStatement (directive.toList ++ spacedStrings words) where
  isPhrase := by
    refine isWord.isPhrase.append_spaced fun text present => ?_
    obtain ⟨word, isListed, rfl⟩ := List.mem_map.mp present
    exact (areWords word isListed).isPhrase
  isClear := (plain.append (isPlain_spacedStrings plainWords)).isClear

/-! ## Limits -/

theorem readLine_limit (isBreak : IsBreak operands) :
    readLine line state (".limit".toList ++ operands) = atLine line (setLimit state operands) := by
  unfold readLine
  rw [splitWord_append (by decide : IsWord ".limit".toList).solid isBreak]
  rfl

theorem isStatement_limit {which : String} (isWord : IsWord which.toList)
    (isPlain : IsPlain which.toList) (limit : UInt16) :
    IsStatement (".limit".toList ++ spacedStrings [which, toString limit]) :=
  isStatement_of_plain (by decide) (by decide)
    (List.forall_mem_cons.mpr
      ⟨isWord, List.forall_mem_singleton.mpr (isWord_toString_nat limit.toNat)⟩)
    (List.forall_mem_cons.mpr
      ⟨isPlain, List.forall_mem_singleton.mpr (isPlain_toString_nat limit.toNat)⟩)

variable {opened : OpenMethod}

theorem wordStrings_limit {which : String} (isWord : IsWord which.toList) (limit : UInt16) :
    wordStrings (spacedStrings [which, toString limit]) = [which, toString limit] := by
  refine AreWords.wordStrings_eq (List.forall_mem_cons.mpr
    ⟨isWord, List.forall_mem_singleton.mpr (isWord_toString_nat limit.toNat)⟩)

theorem readNumbered_limit {which : String} (isWord : IsWord which.toList)
    (isPlain : IsPlain which.toList) (limit : UInt16) :
    readNumbered state (limitLine which limit, line) =
      atLine line (setLimit state (spacedStrings [which, toString limit])) := by
  rw [limitLine, readNumbered_indented (isStatement_limit isWord isPlain limit),
    readLine_limit (isBreak_spacedStrings _)]

theorem readNumbered_limit_stack (limit : UInt16) :
    readNumbered { state with method := some opened } (limitLine "stack" limit, line) =
      .ok { state with method := some { opened with maxStack := limit } } := by
  rw [readNumbered_limit (by decide) (by decide), setLimit, wordStrings_limit (by decide)]
  dsimp only
  rw [readWord_toString]
  rfl

theorem readNumbered_limit_locals (limit : UInt16) :
    readNumbered { state with method := some opened } (limitLine "locals" limit, line) =
      .ok { state with method := some { opened with maxLocals := limit } } := by
  rw [readNumbered_limit (by decide) (by decide), setLimit, wordStrings_limit (by decide)]
  dsimp only
  rw [readWord_toString]
  rfl

/-! ## Instructions and labels -/

/-- The table of labels of an unfinished method lists the names, and the labels with marks
are those among its instructions. -/
structure Tracks (opened : OpenMethod) (names : List String) : Prop where
  lists : opened.labels.Lists names
  placed : ∀ label,
    opened.labels.placed.contains label = true ↔ .mark label ∈ opened.instructions

/-- The unfinished method with another table of labels and one more instruction. -/
def extended (opened : OpenMethod) (labels : LabelTable) (instruction : Instruction) :
    OpenMethod :=
  { opened with labels, instructions := instruction :: opened.instructions }

variable {mnemonic : String} {instruction : Instruction} {order final : List Label}
  {names : List String}

/-- An instruction as it is read back, its labels by their places in an order. -/
def rewritten (final : List Label) (instruction : Instruction) : Instruction :=
  instruction.shortened.relabel (numbered final)

/-- Only labels are read back as labels. -/
theorem exists_of_rewritten_eq_mark {label : Label}
    (isMark : rewritten final instruction = .mark label) :
    ∃ other, instruction.marks? = some other ∧ numbered final other = label := by
  cases instruction with
  | mark other => exact ⟨other, rfl, Instruction.mark.inj isMark⟩
  | push constant =>
      simp only [rewritten, Instruction.shortened] at isMark
      cases short : constant.shortOpcode? with
      | none => simp [short, Instruction.relabel] at isMark
      | some opcode => simp [short, Instruction.relabel] at isMark
  | _ => simp [rewritten, Instruction.shortened, Instruction.relabel] at isMark

theorem withLabels_eq_ok
    {α : Type}
    {read : LabelReading α}
    {value : α}
    {after : LabelTable}
    (reads : read (some opened.labels) = .ok (value, some after)) :
    withLabels { state with method := some opened } read =
      .ok (value, some { opened with labels := after }) := by
  unfold withLabels
  change (read (some opened.labels) >>= _) = _
  rw [reads]
  rfl

theorem readLine_of_isMnemonicText
    (isMnemonic : Opcode.IsMnemonicText mnemonic.toList)
    (isBreak : IsBreak operands) :
    readLine line state (mnemonic.toList ++ operands) =
      atLine line (addInstruction line state mnemonic operands) := by
  have noDirective : ∀ directive : String, directive.toList.head? = some '.' →
      ¬String.ofList mnemonic.toList = directive := by
    rintro directive isDirective rfl
    rw [String.toList_ofList] at isDirective
    exact isMnemonic.noDirective isDirective
  unfold readLine
  rw [splitWord_append isMnemonic.isWord.solid isBreak]
  dsimp only
  split
  all_goals try exact absurd ‹_› (noDirective _ rfl)
  rw [if_neg isMnemonic.noDirective, if_neg (by simp [isMnemonic.noMark]), String.ofList_toList]

/-- An instruction that can be read again is read behind the others. -/
theorem readNumbered_instruction
    (canReread : CanRereadInstruction instruction)
    (unmarked : instruction.marks? = none)
    (tracks : Tracks opened (order.map Label.text))
    (isLater : enlistAll order instruction.mentions <+: final) :
    ∃ labels,
      readNumbered { state with method := some opened } (indented instruction.text.toList, line) =
        .ok { state with method := some (extended opened labels (rewritten final instruction)) } ∧
      Tracks (extended opened labels (rewritten final instruction))
        ((enlistAll order instruction.mentions).map Label.text) := by
  obtain ⟨isStatement, mnemonic, operands, written, named, isBreak, mentions⟩ := canReread
  obtain ⟨opcode, isOpcode⟩ := Option.isSome_iff_exists.mp named
  obtain ⟨labels, lists, samePlaced, reads⟩ := mentions line order opened.labels tracks.lists
  refine ⟨labels, ?_, lists, fun label => ?_⟩
  · rw [readNumbered_indented isStatement, written,
      readLine_of_isMnemonicText (Opcode.isMnemonicText_of_ofMnemonic? isOpcode) isBreak,
      addInstruction, withLabels_eq_ok (reads final isLater)]
    rfl
  · have noMark : ¬Instruction.mark label = rewritten final instruction := by
      intro isMark
      obtain ⟨other, marks, _⟩ := exists_of_rewritten_eq_mark isMark.symm
      rw [unmarked] at marks
      contradiction
    have present :
        .mark label ∈ (extended opened labels (rewritten final instruction)).instructions ↔
        .mark label ∈ opened.instructions := by
      rw [extended, List.mem_cons]
      exact or_iff_right noMark
    rw [present, ← tracks.placed label]
    exact iff_of_eq (congrArg (fun placed => placed.contains label = true) samePlaced)

theorem isStatement_mark (label : Label) : IsStatement (label.text.toList ++ [':']) where
  isPhrase := by
    have isWord : IsWord (label.text.toList ++ [':']) :=
      ⟨by simp, List.forall_mem_append.mpr
        ⟨(isWord_labelText label).solid, (by decide : IsWord [':']).solid⟩⟩
    exact isWord.isPhrase
  isClear := ((isPlain_labelText label).append (by decide)).isClear

theorem readLine_mark (label : Label) :
    readLine line state (label.text.toList ++ [':']) =
      atLine line (placeLabel line state label.text) := by
  have solid : ∀ character ∈ label.text.toList ++ [':'], isBlank character = false :=
    List.forall_mem_append.mpr ⟨(isWord_labelText label).solid, (by decide : IsWord [':']).solid⟩
  have split : splitWord (label.text.toList ++ [':']) = (label.text.toList ++ [':'], []) := by
    have := splitWord_append solid isBreak_nil
    rwa [List.append_nil] at this
  have front : (label.text.toList ++ [':']).head? = some 'L' := by
    simp [Label.text]
  have noDirective : ∀ directive : String, directive.toList.head? = some '.' →
      ¬String.ofList (label.text.toList ++ [':']) = directive := by
    rintro directive isDirective rfl
    rw [String.toList_ofList, front] at isDirective
    exact absurd isDirective (by decide)
  unfold readLine
  rw [split]
  dsimp only
  split
  all_goals try exact absurd ‹_› (noDirective _ rfl)
  rw [if_neg (by rw [front]; decide), if_pos (by simp), List.dropLast_concat, String.ofList_toList]

/-- A label without a mark so far is placed behind the other instructions. -/
theorem readNumbered_mark
    {label : Label}
    (tracks : Tracks opened (order.map Label.text))
    (isLater : enlistAll order [label] <+: final)
    (unplaced : .mark (numbered final label) ∉ opened.instructions) :
    ∃ labels,
      readNumbered { state with method := some opened } (label.text.toList ++ [':'], line) =
        .ok { state with
          method := some (extended opened labels (.mark (numbered final label))) } ∧
      Tracks (extended opened labels (.mark (numbered final label)))
        ((enlistAll order [label]).map Label.text) := by
  obtain ⟨labels, lists, samePlaced, reads⟩ :=
    mentions_readLabel line label order opened.labels tracks.lists
  have free : labels.placed[numbered final label]? = none := by
    rw [samePlaced, ← Option.not_isSome_iff_eq_none, ← Std.HashMap.contains_eq_isSome_getElem?]
    exact fun placed => unplaced ((tracks.placed _).mp placed)
  refine ⟨{ labels with placed := labels.placed.insert (numbered final label) line }, ?_,
    ⟨lists.nodup, lists.known, lists.next⟩, fun other => ?_⟩
  · rw [readNumbered_statement (isStatement_mark label), readLine_mark, placeLabel,
      withLabels_eq_ok (reads final isLater)]
    simp only [bind, Except.bind, free]
    rfl
  · have present : .mark other ∈ (extended opened
        { labels with placed := labels.placed.insert (numbered final label) line }
        (.mark (numbered final label))).instructions ↔
        numbered final label = other ∨ .mark other ∈ opened.instructions := by
      rw [extended, List.mem_cons, Instruction.mark.injEq, eq_comm]
    rw [present, ← tracks.placed other]
    change (labels.placed.insert (numbered final label) line).contains other = true ↔ _
    rw [Std.HashMap.contains_insert, samePlaced, Bool.or_eq_true, beq_iff_eq]

/-- An instruction with what it needs to be read again. A label needs nothing. -/
def CanRereadLine (instruction : Instruction) : Prop :=
  instruction.marks? = none → CanRereadInstruction instruction

/-- The lines of one instruction or label are read as one instruction or label. -/
theorem readLines_instruction
    {frames : Std.HashMap Label BodyFrame}
    (canReread : CanRereadLine instruction)
    (tracks : Tracks opened (order.map Label.text))
    (isLater : enlistAll order instruction.mentions <+: final)
    (unplaced : ∀ label ∈ instruction.marks?,
      .mark (numbered final label) ∉ opened.instructions) :
    ∃ labels,
      readLines { state with method := some opened } start (instruction.lines frames) =
        .ok { state with method := some (extended opened labels (rewritten final instruction)) } ∧
      Tracks (extended opened labels (rewritten final instruction))
        ((enlistAll order instruction.mentions).map Label.text) := by
  cases marks : instruction.marks? with
  | none =>
      obtain ⟨labels, reads, tracksAfter⟩ :=
        @readNumbered_instruction state start _ _ _ _ (canReread marks) marks tracks isLater
      rw [(instructionLines_of_marks? marks frames).2, readLines_cons_of_eq_ok reads]
      exact ⟨labels, rfl, tracksAfter⟩
  | some label =>
      obtain rfl := Instruction.marks?_eq_some_iff.mp marks
      have notPlaced := unplaced label rfl
      unfold Instruction.lines
      dsimp only
      cases frames[label]? with
      | none =>
          obtain ⟨labels, reads, tracksAfter⟩ :=
            @readNumbered_mark state start _ _ _ _ tracks isLater notPlaced
          exact ⟨labels, readLines_cons_of_eq_ok reads [], tracksAfter⟩
      | some frame =>
          obtain ⟨labels, reads, tracksAfter⟩ :=
            @readNumbered_mark state (start + 1) _ _ _ _ tracks isLater notPlaced
          refine ⟨labels, ?_, tracksAfter⟩
          have comment :=
            @readNumbered_frameComment { state with method := some opened } start frame
          exact (readLines_cons_of_eq_ok comment _).trans (readLines_cons_of_eq_ok reads [])

/-- Labels have different numbers if they are different. -/
theorem numbered_inj {left right : Label} (known : left ∈ order)
    (same : numbered order left = numbered order right) : left = right :=
  (List.idxOf_inj known).mp (congrArg Label.id same)

theorem mem_mentions_of_marks? {label : Label} (marks : instruction.marks? = some label) :
    label ∈ instruction.mentions := by
  cases instruction <;> simp_all [Instruction.marks?, Instruction.mentions]

/-- Instructions and labels are read in their order, each label with the number of its
first mention. -/
theorem readLines_instructions
    {frames : Std.HashMap Label BodyFrame}
    {instructions : List Instruction}
    (canReread : ∀ instruction ∈ instructions, CanRereadLine instruction)
    (tracks : Tracks opened (order.map Label.text))
    (isLater : enlistAll order (instructions.flatMap Instruction.mentions) <+: final)
    (nodup : (instructions.filterMap Instruction.marks?).Nodup)
    (unplaced : ∀ label ∈ instructions.filterMap Instruction.marks?,
      .mark (numbered final label) ∉ opened.instructions) :
    ∃ labels,
      readLines { state with method := some opened } start
          (instructions.flatMap (Instruction.lines frames)) =
        .ok { state with
          method := some
            { opened with
              labels
              instructions := (instructions.map (rewritten final)).reverse ++
                opened.instructions } } ∧
      labels.Lists
        ((enlistAll order (instructions.flatMap Instruction.mentions)).map Label.text) ∧
      ∀ label, labels.placed.contains label = true ↔
        .mark label ∈ (instructions.map (rewritten final)).reverse ++ opened.instructions := by
  induction instructions generalizing opened order start with
  | nil => exact ⟨opened.labels, rfl, tracks.lists, tracks.placed⟩
  | cons instruction instructions hypothesis =>
      obtain ⟨canRereadFirst, canRereadOthers⟩ := List.forall_mem_cons.mp canReread
      rw [List.flatMap_cons, enlistAll_append] at isLater
      have isLaterFirst := (prefix_enlistAll _ _).trans isLater
      obtain ⟨labels, reads, tracksFirst⟩ := @readLines_instruction state start _ _ _ _ frames
        canRereadFirst tracks isLaterFirst fun label marks => unplaced label
          (List.mem_filterMap.mpr ⟨instruction, List.mem_cons_self, marks⟩)
      have nodupOthers : (instructions.filterMap Instruction.marks?).Nodup := by
        refine nodup.sublist ?_
        exact (List.sublist_cons_self instruction instructions).filterMap _
      have unplacedOthers : ∀ label ∈ instructions.filterMap Instruction.marks?,
          .mark (numbered final label) ∉
            (extended opened labels (rewritten final instruction)).instructions := by
        intro label later present
        obtain ⟨source, isSource, marks⟩ := List.mem_filterMap.mp later
        rcases List.mem_cons.mp present with isFirst | isEarlier
        · obtain ⟨other, marksOther, same⟩ := exists_of_rewritten_eq_mark isFirst.symm
          have known : label ∈ final := isLater.subset (mem_enlistAll.mpr (Or.inr
            (List.mem_flatMap.mpr ⟨source, isSource, mem_mentions_of_marks? marks⟩)))
          have isOther : label = other := numbered_inj known same.symm
          rw [List.filterMap_cons_some marksOther, List.nodup_cons] at nodup
          exact nodup.1 (isOther ▸ later)
        · exact unplaced label
            (List.mem_filterMap.mpr ⟨source, List.mem_cons_of_mem _ isSource, marks⟩) isEarlier
      obtain ⟨after, readsOthers, lists, placed⟩ := @hypothesis (start + _) _ _
        canRereadOthers tracksFirst isLater nodupOthers unplacedOthers
      refine ⟨after, ?_, ?_, ?_⟩
      · rw [List.flatMap_cons, readLines_append_of_eq_ok reads, readsOthers]
        simp [extended]
      · rw [List.flatMap_cons, enlistAll_append]
        exact lists
      · simpa [extended] using placed

/-! ## Protected ranges -/

/-- The word for what a range catches. -/
def caughtWord (catchType : Option BinaryName) : String :=
  catchType.elim "any" BinaryName.text

/-- What a range catches is told from everything, and is a word without a comment. -/
structure CanCatchAgain (catchType : Option BinaryName) : Prop where
  isWord : IsWord (caughtWord catchType).toList
  isClear : IsClear .start (caughtWord catchType).toList
  notAny : catchType ≠ none → caughtWord catchType ≠ "any"

variable {range : ExceptionRange}

/-- The words of a range. -/
def rangeWords (range : ExceptionRange) : List String :=
  [caughtWord range.catchType, "from", range.start.text, "to", range.stop.text, "using",
    range.handler.text]

theorem toList_rangeText (range : ExceptionRange) :
    range.text.toList = ".catch".toList ++ spacedStrings (rangeWords range) := by
  obtain ⟨start, stop, handler, catchType⟩ := range
  have front : ".catch ".toList = ".catch".toList ++ [' '] := rfl
  have from' : " from ".toList = ' ' :: ("from".toList ++ [' ']) := rfl
  have to' : " to ".toList = ' ' :: ("to".toList ++ [' ']) := rfl
  have using' : " using ".toList = ' ' :: ("using".toList ++ [' ']) := rfl
  unfold ExceptionRange.text rangeWords caughtWord
  cases catchType <;>
    simp only [toString_string, String.toList_append, spacedStrings_cons, spacedStrings_nil,
      front, from', to', using', List.append_assoc, List.cons_append, List.nil_append,
      List.append_nil, Option.elim]

theorem areWords_rangeWords (canCatch : CanCatchAgain range.catchType) :
    AreWords (rangeWords range) := by
  have words := isWord_labelText
  simp only [AreWords, rangeWords, List.forall_mem_cons, List.not_mem_nil, false_implies,
    implies_true, and_true]
  exact ⟨canCatch.isWord, by decide, words _, by decide, words _, by decide, words _⟩

theorem isClear_append_spacedStrings
    {state : QuoteState}
    {front : List Char}
    {words : List String}
    (clear : IsClear state front)
    (plain : ∀ word ∈ words, IsPlain word.toList) :
    IsClear state (front ++ spacedStrings words) := by
  cases words with
  | nil => simpa using clear
  | cons word words =>
      obtain ⟨isFirst, others⟩ := List.forall_mem_cons.mp plain
      rw [spacedStrings_cons]
      exact clear.append_cons_plain (isFirst.append (isPlain_spacedStrings others))

theorem isStatement_range (canCatch : CanCatchAgain range.catchType) :
    IsStatement range.text.toList := by
  have plain := isPlain_labelText
  rw [toList_rangeText]
  refine ⟨?_, ?_⟩
  · have keyword : IsWord ".catch".toList := by decide
    refine keyword.isPhrase.append_spaced fun text present => ?_
    obtain ⟨word, isListed, rfl⟩ := List.mem_map.mp present
    exact (areWords_rangeWords canCatch word isListed).isPhrase
  · have keyword : IsPlain (".catch".toList ++ [' ']) := by decide
    have front :
        IsClear .start (".catch".toList ++ ' ' :: (caughtWord range.catchType).toList) := by
      rw [List.append_cons]
      exact keyword.isClear_append_iff.mpr canCatch.isClear
    have whole := @isClear_append_spacedStrings _ _ (rangeWords range).tail front (by
      simp only [rangeWords, List.tail_cons, List.forall_mem_cons, List.not_mem_nil,
        false_implies, implies_true, and_true]
      exact ⟨by decide, plain _, by decide, plain _, by decide, plain _⟩)
    rw [List.append_assoc] at whole
    exact whole

theorem readLine_catch (isBreak : IsBreak operands) :
    readLine line state (".catch".toList ++ operands) =
      atLine line (addRange line state operands) := by
  unfold readLine
  rw [splitWord_append (by decide : IsWord ".catch".toList).solid isBreak]
  rfl

/-- A protected range is read behind the others. -/
theorem readNumbered_range
    (canCatch : CanCatchAgain range.catchType)
    (lists : opened.labels.Lists (order.map Label.text))
    (isLater : enlistAll order range.mentions <+: final) :
    ∃ labels,
      readNumbered { state with method := some opened } (indented range.text.toList, line) =
        .ok { state with
          method := some
            { opened with
              labels
              ranges := range.relabel (numbered final) :: opened.ranges } } ∧
      labels.Lists ((enlistAll order range.mentions).map Label.text) ∧
      labels.placed = opened.labels.placed := by
  have mentions : Mentions (do
      let start ← readLabel line range.start.text
      let stop ← readLabel line range.stop.text
      let handler ← readLabel line range.handler.text
      pure { start, stop, handler, catchType := range.catchType : ExceptionRange })
      range.mentions fun rename => range.relabel rename :=
    ((mentions_readLabel line range.start).bind fun start =>
      (mentions_readLabel line range.stop).bind fun stop =>
        (mentions_readLabel line range.handler).bind fun handler =>
          Mentions.pure
            { start, stop, handler, catchType := range.catchType : ExceptionRange }).congr
      rfl rfl
  obtain ⟨labels, listsAfter, samePlaced, reads⟩ := mentions order opened.labels lists
  refine ⟨labels, ?_, listsAfter, samePlaced⟩
  rw [readNumbered_indented (isStatement_range canCatch), toList_rangeText,
    readLine_catch (isBreak_spacedStrings _), addRange,
    (areWords_rangeWords canCatch).wordStrings_eq, rangeWords]
  change atLine line (if caughtWord range.catchType = "any" then _ else _) = _
  cases caught : range.catchType with
  | none =>
      rw [caught] at reads
      rw [if_pos (show caughtWord none = "any" from rfl)]
      change atLine line (withLabels { state with method := some opened } _ >>= _) = _
      rw [withLabels_eq_ok (reads final isLater)]
      rfl
  | some name =>
      have notAny := canCatch.notAny (by rw [caught]; exact Option.some_ne_none name)
      rw [caught] at reads notAny
      rw [if_neg notAny, caughtWord, Option.elim, readBinaryName_text]
      change atLine line (withLabels { state with method := some opened } _ >>= _) = _
      rw [withLabels_eq_ok (reads final isLater)]
      rfl

/-- Protected ranges are read in their order. -/
theorem readLines_ranges
    {ranges : List ExceptionRange}
    (canCatch : ∀ range ∈ ranges, CanCatchAgain range.catchType)
    (lists : opened.labels.Lists (order.map Label.text))
    (isLater : enlistAll order (ranges.flatMap ExceptionRange.mentions) <+: final) :
    ∃ labels,
      readLines { state with method := some opened } start
          (ranges.map fun range => indented range.text.toList) =
        .ok { state with
          method := some
            { opened with
              labels
              ranges := (ranges.map (·.relabel (numbered final))).reverse ++ opened.ranges } } ∧
      labels.Lists
        ((enlistAll order (ranges.flatMap ExceptionRange.mentions)).map Label.text) ∧
      labels.placed = opened.labels.placed := by
  induction ranges generalizing opened order start with
  | nil => exact ⟨opened.labels, rfl, lists, rfl⟩
  | cons range ranges hypothesis =>
      obtain ⟨canCatchFirst, canCatchOthers⟩ := List.forall_mem_cons.mp canCatch
      rw [List.flatMap_cons, enlistAll_append] at isLater
      obtain ⟨labels, reads, listsFirst, samePlaced⟩ := @readNumbered_range state start _ _ _ _
        canCatchFirst lists ((prefix_enlistAll _ _).trans isLater)
      obtain ⟨after, readsOthers, listsAfter, stillPlaced⟩ := @hypothesis (start + 1)
        { opened with
          labels
          ranges := range.relabel (numbered final) :: opened.ranges }
        _ canCatchOthers listsFirst isLater
      refine ⟨after, ?_, ?_, stillPlaced.trans samePlaced⟩
      · rw [List.map_cons, readLines_cons_of_eq_ok reads, readsOthers]
        simp
      · rw [List.flatMap_cons, enlistAll_append]
        exact listsAfter

end Listing

/-! ## Whole bodies -/

namespace Body

open Listing

/-- What a body needs to be read again. -/
structure CanReread (body : Body) : Prop where
  instructions : ∀ instruction ∈ body.instructions, CanRereadLine instruction
  ranges : ∀ range ∈ body.ranges, CanCatchAgain range.catchType
  frames : ∀ entry ∈ body.frames, '\n' ∉ (entry.2.text Label.text).toList
  isMarked : body.IsMarked

variable {body : Body} {state : ParseState} {opened : OpenMethod} {start : Nat}

/-- A method that has just been opened, with a body in it. -/
def finishing (body : Body) (opened : OpenMethod) (labels : LabelTable) : OpenMethod :=
  { opened with
    instructions := body.restored.instructions.reverse
    ranges := body.restored.ranges.reverse
    labels
    maxStack := body.maxStack
    maxLocals := body.maxLocals }

theorem body_finishing
    {labels : LabelTable}
    (next : labels.nextLabel = ⟨body.order.length⟩) :
    (body.finishing opened labels).body = body.restored := by
  unfold OpenMethod.body finishing
  rw [List.reverse_reverse, List.reverse_reverse]
  change { body.restored with nextLabel := labels.nextLabel } = body.restored
  rw [next]
  rfl

/-- A body is read into a method that has just been opened. All of its labels are
placed. -/
theorem CanReread.readLines
    (canReread : body.CanReread)
    (noInstruction : opened.instructions = [])
    (noRange : opened.ranges = [])
    (noLabel : opened.labels = .empty) :
    ∃ labels : LabelTable,
      Listing.readLines { state with method := some opened } start body.lines =
        .ok { state with method := some (body.finishing opened labels) } ∧
      labels.nextLabel = ⟨body.order.length⟩ ∧ labels.unplaced? = none := by
  have whole : body.order = enlistAll (enlistAll [] (body.instructions.flatMap
      Instruction.mentions)) (body.ranges.flatMap ExceptionRange.mentions) :=
    enlistAll_append _ _ _
  obtain ⟨between, readsInstructions, listsBetween, placedBetween⟩ :=
    @readLines_instructions state (start + 1 + 1)
      { opened with maxStack := body.maxStack, maxLocals := body.maxLocals }
      [] body.order body.framesByLabel _ canReread.instructions
      ⟨noLabel ▸ LabelTable.lists_empty, fun label => by
        simp [noLabel, noInstruction, LabelTable.empty]⟩
      (whole ▸ prefix_enlistAll _ _) canReread.isMarked.nodup
      (fun label _ => by simp [noInstruction])
  obtain ⟨after, readsRanges, listsAfter, stillPlaced⟩ :=
    @readLines_ranges state
      (start + 1 + 1 +
        (body.instructions.flatMap (Instruction.lines body.framesByLabel)).length)
      { opened with
        maxStack := body.maxStack
        maxLocals := body.maxLocals
        labels := between
        instructions :=
          (body.instructions.map (rewritten body.order)).reverse ++ opened.instructions }
      _ body.order _ canReread.ranges listsBetween (whole ▸ List.prefix_rfl)
  rw [← whole] at listsAfter
  have next : after.nextLabel = ⟨body.order.length⟩ := by
    rw [listsAfter.next, List.length_map]
  refine ⟨after, ?_, next, listsAfter.unplaced?_eq_none_iff.mpr fun id inRange => ?_⟩
  · rw [lines, readLines_cons_of_eq_ok (readNumbered_limit_stack body.maxStack),
      readLines_cons_of_eq_ok (readNumbered_limit_locals body.maxLocals),
      readLines_append_of_eq_ok readsInstructions, readsRanges]
    simp only [noInstruction, noRange, List.append_nil]
    rfl
  · -- The label with this number is in the order, so it has a mark.
    rw [List.length_map] at inRange
    have known : body.order[id] ∈ body.order := List.getElem_mem inRange
    have marked := (canReread.isMarked.mem_marks _).mpr
      ((canReread.isMarked.mem_order_iff _).mp known)
    obtain ⟨instruction, present, marks⟩ := List.mem_filterMap.mp marked
    have isMark : rewritten body.order instruction = .mark ⟨id⟩ := by
      rw [Instruction.marks?_eq_some_iff.mp marks]
      change Instruction.mark (numbered body.order body.order[id]) = _
      rw [numbered, body.nodup_order.idxOf_getElem]
    rw [stillPlaced, placedBetween, noInstruction, List.append_nil, List.mem_reverse]
    exact isMark ▸ List.mem_map_of_mem present

/-! ## Lines without line feeds -/

theorem mem_of_getElem?_framesByLabel
    {label : Label}
    {frame : BodyFrame}
    (found : body.framesByLabel[label]? = some frame) :
    (label, frame) ∈ body.frames := by
  have stored : ∀ (entries : List (Label × BodyFrame)) (frames : Std.HashMap Label BodyFrame),
      (entries.foldl (fun frames entry => frames.insert entry.1 entry.2) frames)[label]? =
        some frame →
      frames[label]? = some frame ∨ (label, frame) ∈ entries := by
    intro entries
    induction entries with
    | nil => exact fun frames found => Or.inl found
    | cons entry entries hypothesis =>
        intro frames found
        rcases hypothesis _ found with earlier | later
        · rw [Std.HashMap.getElem?_insert] at earlier
          split at earlier
          · rename_i same
            refine Or.inr (List.mem_cons.mpr (Or.inl ?_))
            exact Prod.ext (eq_of_beq same).symm (Option.some.inj earlier).symm
          · exact Or.inl earlier
        · exact Or.inr (List.mem_cons_of_mem _ later)
  refine (stored body.frames ∅ found).resolve_left fun absent => ?_
  rw [Std.HashMap.getElem?_empty] at absent
  contradiction

theorem single_limitLine {which : String} (isWord : Text.IsWord which.toList)
    (plain : IsPlain which.toList) (limit : UInt16) : '\n' ∉ limitLine which limit := by
  rw [limitLine, indented, List.mem_append, not_or]
  exact ⟨by decide, (isStatement_limit isWord plain limit).isPhrase.single⟩

theorem CanReread.single (canReread : body.CanReread) : ∀ line ∈ body.lines, '\n' ∉ line := by
  have isSingle : ∀ {text : List Char}, '\n' ∉ text → '\n' ∉ indented text := by
    intro text single present
    rcases List.mem_append.mp present with inFront | inText
    · exact absurd inFront (by decide)
    · exact single inText
  rw [lines, List.forall_mem_cons, List.forall_mem_cons, List.forall_mem_append]
  refine ⟨single_limitLine (by decide) (by decide) _, single_limitLine (by decide) (by decide) _,
    fun line present => ?_, fun line present => ?_⟩
  · obtain ⟨instruction, isListed, isLine⟩ := List.mem_flatMap.mp present
    cases marks : instruction.marks? with
    | none =>
        rw [(instructionLines_of_marks? marks _).2, List.mem_singleton] at isLine
        subst isLine
        exact isSingle (canReread.instructions _ isListed marks).isStatement.isPhrase.single
    | some label =>
        rw [Instruction.marks?_eq_some_iff.mp marks, Instruction.lines, List.mem_append] at isLine
        rcases isLine with isFrame | isMark
        · obtain ⟨frame, found, rfl⟩ := List.mem_map.mp isFrame
          have listed := mem_of_getElem?_framesByLabel (Option.mem_toList.mp found)
          refine isSingle fun present => ?_
          rcases List.mem_append.mp present with inFront | inFrame
          · exact absurd inFront (by decide)
          · exact canReread.frames _ listed inFrame
        · rw [List.mem_singleton.mp isMark]
          exact (isStatement_mark label).isPhrase.single
  · obtain ⟨range, isListed, rfl⟩ := List.mem_map.mp present
    exact isSingle (isStatement_range (canReread.ranges _ isListed)).isPhrase.single

end Body

end StackMaps
