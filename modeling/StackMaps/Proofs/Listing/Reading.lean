import StackMaps.Proofs.Listing.Rereading

/-!
# Bodies that have been read

What is known about a method while it is being read: its labels are numbered in the order of
their mention, and its instructions come from the operands on some line. That is enough for
its body to be read again once all labels have been placed.
-/

namespace StackMaps

/-! ## Listings without inexact constants -/

/-- A body without dynamic calls and decimal fractions. -/
def Body.IsExact (body : Body) : Prop :=
  ∀ instruction ∈ body.instructions, instruction.IsExact

/-- A method without dynamic calls and decimal fractions. -/
def Method.IsExact (method : Method) : Prop :=
  ∀ body ∈ method.body, body.IsExact

/-- A class without dynamic calls and decimal fractions. -/
def ClassDefinition.IsExact (definition : ClassDefinition) : Prop :=
  ∀ method ∈ definition.methods, method.IsExact

/-- A listing without dynamic calls and decimal fractions. -/
def Listing.IsExact (listing : Listing) : Prop :=
  ∀ definition ∈ listing.classes, definition.IsExact

instance : DecidablePred Body.IsExact := fun body =>
  inferInstanceAs (Decidable (∀ instruction ∈ body.instructions, instruction.IsExact))

instance : DecidablePred Method.IsExact := fun method =>
  inferInstanceAs (Decidable (∀ body ∈ method.body, body.IsExact))

instance : DecidablePred ClassDefinition.IsExact := fun definition =>
  inferInstanceAs (Decidable (∀ method ∈ definition.methods, method.IsExact))

instance : DecidablePred Listing.IsExact := fun listing =>
  inferInstanceAs (Decidable (∀ definition ∈ listing.classes, definition.IsExact))

/-- Is this a dynamic call? -/
def Instruction.isDynamicCall : Instruction → Bool
  | .invokeDynamic .. => true
  | _ => false

namespace Listing

open Text

/-! ## Labels of an instruction that is read -/

/-- Whatever is read has the property. -/
def Yields {α : Type} (Holds : α → Prop) (read : Reading α) : Prop :=
  ∀ value, read = .ok value → Holds value

section Yields

variable {α β : Type} {Holds : β → Prop}

theorem yields_ok {value : β} (holds : Holds value) : Yields Holds (.ok value) :=
  fun _ same => Except.ok.inj same ▸ holds

theorem yields_error (fault : ListingFault) : Yields Holds (.error fault) :=
  fun _ same => nomatch same

theorem yields_bind {read : Reading α} {next : α → Reading β}
    (holds : ∀ value, Yields Holds (next value)) : Yields Holds (read >>= next) := by
  intro result reads
  obtain ⟨value, _, finishes⟩ := bind_eq_ok.mp reads
  exact holds value result finishes

theorem yields_ite {condition : Prop} [Decidable condition] {first second : Reading β}
    (holds : Yields Holds first) (otherwise : Yields Holds second) :
    Yields Holds (if condition then first else second) := by
  split
  · exact holds
  · exact otherwise

end Yields

variable {opcode : Opcode} {mnemonic : String} {line count : Nat} {text : List Char}

/-- An instruction that mentions no labels, which therefore is no mark either. -/
def IsUnlabelled (instruction : Instruction) : Prop :=
  instruction.mentions = []

/-- An instruction without labels that is no dynamic call. -/
def IsStatic (instruction : Instruction) : Prop :=
  instruction.mentions = [] ∧ instruction.isDynamicCall = false

theorem yields_readSmall {least greatest : Int} {operands : List String} :
    Yields IsStatic (readSmall mnemonic least greatest operands) :=
  yields_bind fun _ => yields_bind fun _ =>
    yields_ite (yields_bind fun _ => yields_ok ⟨rfl, rfl⟩) (yields_ok ⟨rfl, rfl⟩)

theorem yields_readLoad {wide : Bool} : Yields IsStatic (readLoad mnemonic wide text) :=
  yields_bind fun _ =>
    yields_ite (yields_bind fun _ => yields_ok ⟨rfl, rfl⟩) (yields_ok ⟨rfl, rfl⟩)

theorem yields_readField {operands : List String} :
    Yields IsStatic (readField opcode mnemonic operands) :=
  yields_bind fun _ => yields_bind fun _ => yields_bind fun _ => yields_bind fun _ =>
    yields_ok ⟨rfl, rfl⟩

theorem yields_readCall {operands : List String} :
    Yields IsStatic (readCall opcode mnemonic operands) := by
  unfold readCall
  dsimp only
  split
  · exact yields_bind fun _ => yields_bind fun _ => yields_bind fun _ => yields_ok ⟨rfl, rfl⟩
  · exact yields_bind fun _ => yields_bind fun _ => yields_bind fun _ => yields_ok ⟨rfl, rfl⟩
  · exact yields_error _

theorem yields_readDynamicCall : Yields IsUnlabelled (readDynamicCall text) := by
  unfold readDynamicCall
  dsimp only
  split
  · exact yields_bind fun _ => yields_bind fun _ => yields_bind fun _ => yields_bind fun _ =>
      yields_ok rfl
  · exact yields_error _

/-- Only one operation is read as a dynamic call. -/
theorem yields_readPlain_of_ne (static : opcode ≠ .invokedynamic) :
    Yields IsStatic (readPlain opcode mnemonic text) := by
  by_cases usual : opcode ∉ specialOpcodes
  · rw [readPlain_of_notMem usual]
    refine yields_ite (yields_bind fun _ => yields_bind fun _ => yields_ok ⟨rfl, rfl⟩)
      (yields_ite yields_readField (yields_ite yields_readCall
        (yields_ite (yields_ok ⟨rfl, rfl⟩) (yields_error _))))
  · rw [not_not, specialOpcodes] at usual
    simp only [List.mem_cons, List.not_mem_nil, or_false] at usual
    rcases usual with rfl | rfl | rfl | rfl | rfl | rfl | rfl | rfl | rfl | rfl | rfl | rfl | rfl |
      rfl
    · exact yields_readSmall
    · exact yields_readSmall
    · exact yields_readLoad
    · exact yields_readLoad
    · exact yields_readLoad
    · exact yields_bind fun _ => yields_bind fun _ => yields_bind fun _ => yields_ok ⟨rfl, rfl⟩
    · exact absurd rfl static
    · exact yields_bind fun _ => yields_bind fun _ => yields_ok ⟨rfl, rfl⟩
    · exact yields_bind fun _ => yields_bind fun _ => yields_ok ⟨rfl, rfl⟩
    · exact yields_bind fun _ => yields_bind fun _ => yields_ok ⟨rfl, rfl⟩
    · refine yields_bind fun keyword => ?_
      cases BaseType.ofKeyword? keyword with
      | none => exact yields_error _
      | some element => exact yields_ok ⟨rfl, rfl⟩
    · exact yields_bind fun _ => yields_bind fun _ => yields_ok ⟨rfl, rfl⟩
    · exact yields_bind fun _ => yields_bind fun _ => yields_bind fun _ => yields_ok ⟨rfl, rfl⟩
    · exact yields_error _

/-- Labels are operands of jumps and switches alone. -/
theorem yields_readPlain : Yields IsUnlabelled (readPlain opcode mnemonic text) := by
  by_cases dynamic : opcode = .invokedynamic
  · subst dynamic
    exact yields_readDynamicCall
  · exact fun instruction read => (yields_readPlain_of_ne dynamic instruction read).1

/-! ## Labels of an instruction that is read -/

theorem issues_throw {α : Type} {Fits : Nat → α → Prop} (fault : ListingFault) :
    Issues count (throw fault : LabelReading α) Fits :=
  fun _ _ _ _ _ _ reads => nomatch reads

/-- The label of the default is in use from then on. -/
theorem issues_readDefault {operands : List String} :
    Issues count (readDefault line operands) fun more both => both.1.id < more := by
  unfold readDefault
  cases operands.getLast? with
  | none => exact issues_throw _
  | some last =>
      dsimp only
      split
      · exact (issues_readLabel line _).bind fun fallback more _ issued =>
          Issues.pure fun _ enough => Nat.lt_of_lt_of_le issued enough
      · exact issues_throw _

theorem issues_readEntry (entry : String) :
    Issues count (readEntry line entry) fun more both => both.2.id < more := by
  unfold readEntry
  dsimp only
  split
  · exact issues_throw _
  · refine (@Issues.lift _ _ (fun _ _ => True) _ fun _ _ _ _ => trivial).bind fun key _ _ _ => ?_
    exact (issues_readLabel line _).bind fun target more _ issued =>
      Issues.pure fun _ enough => Nat.lt_of_lt_of_le issued enough

/-- An instruction the labels of which have been issued before some number. It is no mark. -/
def IsIssued (next : Nat) (instruction : Instruction) : Prop :=
  instruction.marks? = none ∧ ∀ label ∈ instruction.mentions, label.id < next

theorem issues_readTableSwitch {operands : List String} :
    Issues count (readTableSwitch line operands) IsIssued := by
  unfold readTableSwitch
  split
  · exact issues_throw _
  · refine (@Issues.lift _ _ (fun _ _ => True) _ fun _ _ _ _ => trivial).bind fun low _ _ _ => ?_
    refine issues_readDefault.bind fun both more _ issued => ?_
    refine (@Issues.mapM _ _ _ (fun more label => label.id < more) _
      (fun _ _ _ enough below => Nat.lt_of_lt_of_le below enough)
      (fun element _ _ => issues_readLabel line element) _).bind
        fun targets most longer issuedTargets => ?_
    exact Issues.pure fun all enough => ⟨rfl, List.forall_mem_cons.mpr
      ⟨Nat.lt_of_lt_of_le issued (Nat.le_trans longer enough),
        fun label present => Nat.lt_of_lt_of_le (issuedTargets label present) enough⟩⟩

theorem issues_readLookupSwitch {operands : List String} :
    Issues count (readLookupSwitch line operands) IsIssued := by
  unfold readLookupSwitch
  refine issues_readDefault.bind fun both more _ issued => ?_
  refine (@Issues.mapM _ _ _ (fun more both => both.2.id < more) _
    (fun _ _ _ enough below => Nat.lt_of_lt_of_le below enough)
    (fun element _ _ => issues_readEntry element) _).bind
      fun targets most longer issuedTargets => ?_
  refine Issues.pure fun all enough => ⟨rfl, List.forall_mem_cons.mpr
    ⟨Nat.lt_of_lt_of_le issued (Nat.le_trans longer enough), fun label present => ?_⟩⟩
  obtain ⟨entry, isEntry, rfl⟩ := List.mem_map.mp present
  exact Nat.lt_of_lt_of_le (issuedTargets entry isEntry) enough

/-- All labels of an instruction are in use when it has been read. -/
theorem issues_readInstruction :
    Issues count (readInstruction line mnemonic text) IsIssued := by
  unfold readInstruction
  split
  · exact issues_throw _
  · exact issues_readTableSwitch
  · exact issues_readLookupSwitch
  · split
    · refine (@Issues.lift _ _ (fun _ _ => True) _ fun _ _ _ _ => trivial).bind
        fun operand _ _ _ => ?_
      refine (issues_readLabel line _).bind fun target more _ issued => ?_
      exact Issues.pure fun _ enough => ⟨rfl, List.forall_mem_singleton.mpr
        (Nat.lt_of_lt_of_le issued enough)⟩
    · refine Issues.lift fun instruction read _ _ => ?_
      have unlabelled : instruction.mentions = [] := yields_readPlain instruction read
      refine ⟨?_, fun label present => ?_⟩
      · cases marks : instruction.marks? with
        | none => rfl
        | some label =>
            have present := mem_mentions_of_marks? marks
            rw [unlabelled] at present
            exact absurd present List.not_mem_nil
      · rw [unlabelled] at present
        exact absurd present List.not_mem_nil

/-! ## The unfinished method -/

/-- An instruction that has been read from a part of a line without comments. -/
def IsRead (instruction : Instruction) : Prop :=
  ∃ line mnemonic text scope after, IsClear .start text ∧ '\n' ∉ text ∧
    readInstruction line mnemonic text scope = .ok (instruction, after)

theorem IsRead.canReread
    {instruction : Instruction}
    (isRead : IsRead instruction)
    (isExact : instruction.IsExact) :
    CanRereadInstruction instruction := by
  obtain ⟨line, mnemonic, text, scope, after, clear, single, read⟩ := isRead
  exact canReread_of_readInstruction clear single isExact read

/-- What is known about a method that is being read. Its labels have been named in this
order. -/
structure IsOpen (opened : OpenMethod) (names : List String) : Prop where
  header : Method.CanRereadHeader opened.name opened.descriptor opened.flags
  tracks : Tracks opened names
  nodup : (opened.instructions.filterMap Instruction.marks?).Nodup
  issued : ∀ instruction ∈ opened.instructions, ∀ label ∈ instruction.mentions,
    label.id < names.length
  issuedRanges : ∀ range ∈ opened.ranges, ∀ label ∈ range.mentions, label.id < names.length
  instructions : ∀ instruction ∈ opened.instructions,
    instruction.marks? = none → IsRead instruction
  ranges : ∀ range ∈ opened.ranges, CanCatchAgain range.catchType

variable {state after : ParseState} {opened extended : OpenMethod} {names : List String}

/-- What has mentioned labels in a method has had its table. -/
theorem exists_of_withLabels
    {α : Type}
    {read : LabelReading α}
    {value : α}
    (reads : withLabels state read = .ok (value, some extended)) :
    ∃ opened labels, state.method = some opened ∧
      read (some opened.labels) = .ok (value, some labels) ∧
      extended = { opened with labels } := by
  unfold withLabels at reads
  obtain ⟨⟨result, scope⟩, readResult, reads⟩ := bind_eq_ok.mp reads
  have same := Except.ok.inj reads
  rw [Prod.mk.injEq] at same
  obtain ⟨rfl, isExtended⟩ := same
  cases inMethod : state.method with
  | none =>
      rw [inMethod] at isExtended
      contradiction
  | some opened =>
      cases scope with
      | none =>
          rw [inMethod] at isExtended
          contradiction
      | some labels =>
          rw [inMethod] at isExtended readResult
          exact ⟨opened, labels, rfl, readResult, (Option.some.inj isExtended).symm⟩

/-- An instruction is read behind the others. -/
theorem IsOpen.instruction
    {instruction : Instruction}
    {labels : LabelTable}
    {more : List String}
    (isOpen : IsOpen opened names)
    (lists : labels.Lists more)
    (longer : names.length ≤ more.length)
    (samePlaced : labels.placed = opened.labels.placed)
    (isIssued : IsIssued more.length instruction)
    (isRead : IsRead instruction) :
    IsOpen { opened with labels, instructions := instruction :: opened.instructions } more where
  header := isOpen.header
  tracks :=
    { lists
      placed := fun label => by
        have apart : ¬Instruction.mark label = instruction := by
          rintro rfl
          exact absurd isIssued.1 (Option.some_ne_none label)
        rw [List.mem_cons, or_iff_right apart, samePlaced]
        exact isOpen.tracks.placed label }
  nodup := by
    rw [List.filterMap_cons_none isIssued.1]
    exact isOpen.nodup
  issued := List.forall_mem_cons.mpr ⟨isIssued.2, fun other present label mentioned =>
    Nat.lt_of_lt_of_le (isOpen.issued other present label mentioned) longer⟩
  issuedRanges := fun range present label mentioned =>
    Nat.lt_of_lt_of_le (isOpen.issuedRanges range present label mentioned) longer
  instructions := List.forall_mem_cons.mpr ⟨fun _ => isRead, isOpen.instructions⟩
  ranges := isOpen.ranges

/-- A label is placed that has not been placed before. -/
theorem IsOpen.mark
    {label : Label}
    {labels : LabelTable}
    {more : List String}
    (isOpen : IsOpen opened names)
    (lists : labels.Lists more)
    (longer : names.length ≤ more.length)
    (samePlaced : labels.placed = opened.labels.placed)
    (issued : label.id < more.length)
    (unplaced : labels.placed[label]? = none) :
    IsOpen
      { opened with
        labels := { labels with placed := labels.placed.insert label line }
        instructions := .mark label :: opened.instructions }
      more where
  header := isOpen.header
  tracks :=
    { lists := ⟨lists.nodup, lists.known, lists.next⟩
      placed := fun other => by
        have before := isOpen.tracks.placed other
        rw [List.mem_cons, Instruction.mark.injEq, ← before, ← samePlaced]
        change (labels.placed.insert label line).contains other = true ↔ _
        rw [Std.HashMap.contains_insert, Bool.or_eq_true, beq_iff_eq, eq_comm] }
  nodup := by
    refine List.nodup_cons.mpr ?_
    refine ⟨fun present => ?_, isOpen.nodup⟩
    obtain ⟨instruction, isEarlier, marks⟩ := List.mem_filterMap.mp present
    rw [Instruction.marks?_eq_some_iff.mp marks] at isEarlier
    have placed := (isOpen.tracks.placed label).mpr isEarlier
    rw [← samePlaced, Std.HashMap.contains_eq_isSome_getElem?, unplaced] at placed
    contradiction
  issued := List.forall_mem_cons.mpr ⟨List.forall_mem_singleton.mpr issued,
    fun other present label mentioned =>
      Nat.lt_of_lt_of_le (isOpen.issued other present label mentioned) longer⟩
  issuedRanges := fun range present label mentioned =>
    Nat.lt_of_lt_of_le (isOpen.issuedRanges range present label mentioned) longer
  instructions := List.forall_mem_cons.mpr
    ⟨fun unmarked => absurd unmarked (Option.some_ne_none label), isOpen.instructions⟩
  ranges := isOpen.ranges

/-- A protected range is read behind the others. -/
theorem IsOpen.range
    {range : ExceptionRange}
    {labels : LabelTable}
    {more : List String}
    (isOpen : IsOpen opened names)
    (lists : labels.Lists more)
    (longer : names.length ≤ more.length)
    (samePlaced : labels.placed = opened.labels.placed)
    (issued : ∀ label ∈ range.mentions, label.id < more.length)
    (canCatch : CanCatchAgain range.catchType) :
    IsOpen { opened with labels, ranges := range :: opened.ranges } more where
  header := isOpen.header
  tracks := { lists, placed := fun label => samePlaced ▸ isOpen.tracks.placed label }
  nodup := isOpen.nodup
  issued := fun instruction present label mentioned =>
    Nat.lt_of_lt_of_le (isOpen.issued instruction present label mentioned) longer
  issuedRanges := List.forall_mem_cons.mpr ⟨issued, fun other present label mentioned =>
    Nat.lt_of_lt_of_le (isOpen.issuedRanges other present label mentioned) longer⟩
  instructions := isOpen.instructions
  ranges := List.forall_mem_cons.mpr ⟨canCatch, isOpen.ranges⟩

/-- All labels in the body of a method are marked once if all of them have been placed. -/
theorem IsOpen.isMarked
    (isOpen : IsOpen opened names)
    (placed : opened.labels.unplaced? = none) :
    opened.body.IsMarked := by
  have next : opened.body.nextLabel.id = names.length :=
    congrArg Label.id isOpen.tracks.lists.next
  have issued : ∀ label ∈ opened.body.mentions, label.id < opened.body.nextLabel.id := by
    intro label mentioned
    rw [next]
    rcases List.mem_append.mp mentioned with inInstruction | inRange
    · obtain ⟨instruction, present, inMentions⟩ := List.mem_flatMap.mp inInstruction
      exact isOpen.issued instruction (List.mem_reverse.mp present) label inMentions
    · obtain ⟨range, present, inMentions⟩ := List.mem_flatMap.mp inRange
      exact isOpen.issuedRanges range (List.mem_reverse.mp present) label inMentions
  refine ⟨?_, fun label => ⟨fun marked => issued label (Body.mem_mentions_of_mem_marks marked),
    fun small => ?_⟩, issued⟩
  · change (opened.instructions.reverse.filterMap Instruction.marks?).Nodup
    rw [List.filterMap_reverse, List.nodup_reverse]
    exact isOpen.nodup
  · rw [next] at small
    have isPlaced := isOpen.tracks.lists.unplaced?_eq_none_iff.mp placed label.id small
    exact List.mem_filterMap.mpr
      ⟨.mark label, List.mem_reverse.mpr ((isOpen.tracks.placed label).mp isPlaced), rfl⟩

/-- The body of a method all labels of which have been placed can be read again. -/
theorem IsOpen.canReread
    (isOpen : IsOpen opened names)
    (placed : opened.labels.unplaced? = none)
    (isExact : opened.body.IsExact) :
    opened.body.CanReread where
  instructions := fun instruction present unmarked =>
    (isOpen.instructions instruction (List.mem_reverse.mp present) unmarked).canReread
      (isExact instruction present)
  ranges := fun range present => isOpen.ranges range (List.mem_reverse.mp present)
  frames := fun _ absent => absurd absent List.not_mem_nil
  isMarked := isOpen.isMarked placed

end Listing
end StackMaps
