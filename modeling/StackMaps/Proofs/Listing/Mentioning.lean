import StackMaps.Listing.Instruction
import StackMaps.Proofs.Text.Numerals
import Mathlib.Data.List.Nodup
import Std.Data.HashMap.Lemmas

/-!
# Labels in the order of their mention

A table of labels lists names in the order in which they were first mentioned, and the
label of a name is its place in that order. What is read with a table therefore depends
on the order of mention alone.
-/

namespace StackMaps

/-! ## Orders of mention -/

section Orders

variable {α β : Type} [DecidableEq α] [DecidableEq β] {order later : List α} {element other : α}

/-- Mention an element, which comes last if it is new. -/
def enlist (order : List α) (element : α) : List α :=
  if element ∈ order then order else order ++ [element]

/-- Mention elements one after the other. -/
def enlistAll (order elements : List α) : List α :=
  elements.foldl enlist order

@[simp] theorem enlistAll_nil (order : List α) : enlistAll order [] = order := rfl

@[simp] theorem enlistAll_cons (order : List α) (element : α) (elements : List α) :
    enlistAll order (element :: elements) = enlistAll (enlist order element) elements := rfl

theorem enlistAll_append (order front back : List α) :
    enlistAll order (front ++ back) = enlistAll (enlistAll order front) back :=
  List.foldl_append

theorem prefix_enlist (order : List α) (element : α) : order <+: enlist order element := by
  unfold enlist
  split
  · exact List.prefix_rfl
  · exact List.prefix_append order [element]

theorem prefix_enlistAll (order elements : List α) : order <+: enlistAll order elements := by
  induction elements generalizing order with
  | nil => exact List.prefix_rfl
  | cons element elements hypothesis =>
      exact (prefix_enlist order element).trans (hypothesis _)

theorem mem_enlist : other ∈ enlist order element ↔ other ∈ order ∨ other = element := by
  unfold enlist
  split
  · rename_i known
    exact ⟨Or.inl, fun either => either.elim id fun same => same ▸ known⟩
  · simp

theorem mem_enlistAll {elements : List α} :
    other ∈ enlistAll order elements ↔ other ∈ order ∨ other ∈ elements := by
  induction elements generalizing order with
  | nil => simp
  | cons element elements hypothesis =>
      rw [enlistAll_cons, hypothesis, mem_enlist, List.mem_cons, or_assoc]

theorem nodup_enlist (nodup : order.Nodup) (element : α) : (enlist order element).Nodup := by
  unfold enlist
  split
  · exact nodup
  · rename_i fresh
    rw [List.nodup_append]
    refine ⟨nodup, List.nodup_singleton _, fun known isKnown new isNew same => fresh ?_⟩
    rwa [← List.mem_singleton.mp isNew, ← same]

theorem nodup_enlistAll (nodup : order.Nodup) (elements : List α) :
    (enlistAll order elements).Nodup := by
  induction elements generalizing order with
  | nil => exact nodup
  | cons element elements hypothesis => exact hypothesis (nodup_enlist nodup element)

/-- Orders are mapped along an injective map. -/
theorem map_enlistAll {f : α → β} (injective : Function.Injective f) (order elements : List α) :
    (enlistAll order elements).map f = enlistAll (order.map f) (elements.map f) := by
  induction elements generalizing order with
  | nil => rfl
  | cons element elements hypothesis =>
      have step : (enlist order element).map f = enlist (order.map f) (f element) := by
        unfold enlist
        by_cases known : element ∈ order
        · rw [if_pos known, if_pos (List.mem_map_of_mem known)]
        · rw [if_neg known, if_neg fun present => known
            ((List.mem_map_of_injective injective).mp present), List.map_append]
          rfl
      rw [enlistAll_cons, hypothesis, step]
      rfl

theorem idxOf_map_of_injective {f : α → β} (injective : Function.Injective f)
    (order : List α) (element : α) :
    (order.map f).idxOf (f element) = order.idxOf element := by
  induction order with
  | nil => rfl
  | cons first order hypothesis =>
      by_cases same : first = element
      · simp [same]
      · rw [List.map_cons, List.idxOf_cons_ne _ (injective.ne same), hypothesis,
          List.idxOf_cons_ne _ same]

/-- The place of an element stays the same in every later order. -/
theorem idxOf_eq_of_prefix (isPrefix : order <+: later) (known : element ∈ order) :
    later.idxOf element = order.idxOf element := by
  obtain ⟨behind, rfl⟩ := isPrefix
  exact List.idxOf_append_of_mem known

theorem idxOf?_eq_some_idxOf (known : element ∈ order) :
    order.idxOf? element = some (order.idxOf element) := by
  have found : order.idxOf? element ≠ none := fun absent =>
    List.idxOf?_eq_none_iff.mp absent known
  obtain ⟨place, placed⟩ := Option.ne_none_iff_exists'.mp found
  rw [List.idxOf_eq_getD_idxOf?, placed]
  rfl

theorem idxOf?_append_singleton (order : List α) (element other : α) :
    (order ++ [element]).idxOf? other =
      if other ∈ order then order.idxOf? other
      else if other = element then some order.length else none := by
  by_cases known : other ∈ order
  · rw [if_pos known, idxOf?_eq_some_idxOf (List.mem_append_left _ known),
      idxOf?_eq_some_idxOf known, List.idxOf_append_of_mem known]
  · rw [if_neg known]
    by_cases same : other = element
    · subst same
      rw [if_pos rfl, idxOf?_eq_some_idxOf (by simp), List.idxOf_append_of_notMem known]
      simp
    · rw [if_neg same, List.idxOf?_eq_none_iff]
      simp [known, same]

end Orders

/-! ## Tables and orders -/

namespace LabelTable

variable {table : LabelTable} {names : List String} {name : String} {line : Nat}

/-- The table numbers the names in their order. -/
structure Lists (table : LabelTable) (names : List String) : Prop where
  nodup : names.Nodup
  known : ∀ name, (table.known[name]?).map Prod.fst = (names.idxOf? name).map Label.mk
  next : table.nextLabel = ⟨names.length⟩

theorem lists_empty : empty.Lists [] where
  nodup := List.nodup_nil
  known name := by simp [empty]
  next := rfl

theorem Lists.mention_known (lists : table.Lists names) (known : name ∈ names) :
    table.mention line name = (⟨names.idxOf name⟩, table) := by
  have found := lists.known name
  rw [idxOf?_eq_some_idxOf known, Option.map_some, Option.map_eq_some_iff] at found
  obtain ⟨⟨label, first⟩, entry, rfl⟩ := found
  rw [mention, entry]

theorem Lists.mention_new (lists : table.Lists names) (new : name ∉ names) :
    table.mention line name =
      (⟨names.length⟩,
        { table with
          known := table.known.insert name (⟨names.length⟩, line)
          nextLabel := ⟨names.length + 1⟩ }) := by
  have missing := lists.known name
  rw [List.idxOf?_eq_none_iff.mpr new, Option.map_none, Option.map_eq_none_iff] at missing
  rw [mention, missing, lists.next]
  rfl

/-- Mentioning a name enlists it, and its label is its place. -/
theorem Lists.mention (lists : table.Lists names) (line : Nat) (name : String) :
    (table.mention line name).1 = ⟨(enlist names name).idxOf name⟩ ∧
      (table.mention line name).2.Lists (enlist names name) ∧
      (table.mention line name).2.placed = table.placed := by
  by_cases known : name ∈ names
  · rw [lists.mention_known known, enlist, if_pos known]
    exact ⟨rfl, lists, rfl⟩
  · rw [lists.mention_new known, enlist, if_neg known]
    refine ⟨?_, ⟨?_, fun other => ?_, ?_⟩, rfl⟩
    · rw [List.idxOf_append_of_notMem known]
      simp
    · have := nodup_enlist lists.nodup name
      rwa [enlist, if_neg known] at this
    · rw [Std.HashMap.getElem?_insert, idxOf?_append_singleton]
      by_cases same : name = other
      · subst same
        simp [known]
      · have apart : ¬(name == other) = true := by simpa using same
        rw [if_neg apart, lists.known other]
        by_cases listed : other ∈ names
        · rw [if_pos listed]
        · rw [if_neg listed, if_neg fun equal => same equal.symm,
            List.idxOf?_eq_none_iff.mpr listed]
    · simp

theorem foldl_reportsBefore_isSome
    (entries : List (String × Label × Nat))
    (first : String × Label × Nat) :
    (entries.foldl
      (fun first? entry =>
        match first? with
        | none => some entry
        | some first => if reportsBefore entry first then some entry else some first)
      (some first)).isSome = true := by
  induction entries generalizing first with
  | nil => rfl
  | cons entry entries hypothesis =>
      rw [List.foldl_cons]
      dsimp only
      split
      · exact hypothesis entry
      · exact hypothesis first

/-- Nothing is reported when all labels have marks. -/
theorem unplaced?_eq_none_iff :
    table.unplaced? = none ↔
      ∀ (name : String) (label : Label) (line : Nat),
        table.known[name]? = some (label, line) → table.placed.contains label = true := by
  have missing : table.unplaced? = none ↔
      table.known.toList.filter (fun entry => !table.placed.contains entry.2.1) = [] := by
    unfold unplaced?
    dsimp only
    rw [Option.map_eq_none_iff]
    cases table.known.toList.filter (fun entry => !table.placed.contains entry.2.1) with
    | nil => simp
    | cons entry entries =>
        have reported := foldl_reportsBefore_isSome entries entry
        rw [List.foldl_cons]
        exact iff_of_false (Option.isSome_iff_ne_none.mp reported) (List.cons_ne_nil _ _)
  rw [missing, List.filter_eq_nil_iff]
  constructor
  · intro all name label line found
    have := all (name, label, line) (Std.HashMap.mem_toList_iff_getElem?_eq_some.mpr found)
    simpa using this
  · rintro all ⟨name, label, line⟩ present
    have := all name label line (Std.HashMap.mem_toList_iff_getElem?_eq_some.mp present)
    simp [this]

/-- Nothing is reported when the labels in use have marks. -/
theorem Lists.unplaced?_eq_none_iff (lists : table.Lists names) :
    table.unplaced? = none ↔
      ∀ id < names.length, table.placed.contains ⟨id⟩ = true := by
  rw [LabelTable.unplaced?_eq_none_iff]
  constructor
  · intro all id inRange
    have found := lists.known names[id]
    rw [idxOf?_eq_some_idxOf (List.getElem_mem inRange), lists.nodup.idxOf_getElem,
      Option.map_some, Option.map_eq_some_iff] at found
    obtain ⟨⟨label, line⟩, entry, isLabel⟩ := found
    exact isLabel ▸ all _ label line entry
  · intro all name label line entry
    have found := lists.known name
    rw [entry, Option.map_some, eq_comm, Option.map_eq_some_iff] at found
    obtain ⟨id, isPlace, rfl⟩ := found
    obtain ⟨inRange, _⟩ := List.idxOf?_eq_some_iff.mp isPlace
    exact all id inRange

theorem unplaced?_empty : empty.unplaced? = none :=
  lists_empty.unplaced?_eq_none_iff.mpr fun _ inRange => absurd inRange (Nat.not_lt_zero _)

end LabelTable

/-! ## Readers that mention labels -/

namespace Listing

open LabelTable

variable {α β : Type}

/-- A label by its place in an order. -/
def numbered (order : List Label) (label : Label) : Label :=
  ⟨order.idxOf label⟩

theorem labelText_injective : Function.Injective Label.text := by
  intro left right same
  have written := congrArg String.toList same
  rw [Label.text, Label.text, String.toList_append, String.toList_append] at written
  have digits := congrArg (fun text => Numeral.extend? 10 text 0)
    (List.append_cancel_left written)
  have read : ∀ number : Nat,
      Numeral.extend? 10 (toString number).toList 0 = some number := fun number => by
    simpa using Numeral.extend?_toDigits (by decide : 1 < 10) (by decide) number
  rw [read, read, Option.some_inj] at digits
  cases left
  cases right
  exact congrArg Label.mk digits

/-- The reader mentions the labels by their texts, and what it returns has their places
in the order of mention for them. -/
def Mentions
    (read : LabelReading α)
    (labels : List Label)
    (value : (Label → Label) → α) : Prop :=
  ∀ order (table : LabelTable), table.Lists (order.map Label.text) →
    ∃ after : LabelTable,
      after.Lists ((enlistAll order labels).map Label.text) ∧ after.placed = table.placed ∧
        ∀ final, enlistAll order labels <+: final →
          read (some table) = .ok (value (numbered final), some after)

theorem Mentions.pure (value : α) : Mentions (pure value) [] fun _ => value :=
  fun _ table lists => ⟨table, lists, rfl, fun _ _ => rfl⟩

/-- A reader without labels. -/
theorem Mentions.lift {read : Reading α} {value : α} (reads : read = .ok value) :
    Mentions (liftM read : LabelReading α) [] fun _ => value :=
  fun _ table lists => ⟨table, lists, rfl, fun _ _ => by rw [reads]; rfl⟩

/-- One reader behind another mentions its labels behind those of the first. -/
theorem Mentions.bind_of
    {read : LabelReading α}
    {next : α → LabelReading β}
    {labels others : List Label}
    {value : (Label → Label) → α}
    {result : α → (Label → Label) → β}
    (first : Mentions read labels value)
    (second : ∀ rename, Mentions (next (value rename)) others (result (value rename))) :
    Mentions (read >>= next) (labels ++ others) fun rename => result (value rename) rename := by
  intro order table lists
  obtain ⟨between, listsBetween, samePlaced, reads⟩ := first order table lists
  have start := reads _ List.prefix_rfl
  obtain ⟨after, listsAfter, stillPlaced, continues⟩ :=
    second (numbered (enlistAll order labels)) _ between listsBetween
  rw [← enlistAll_append] at listsAfter
  refine ⟨after, listsAfter, stillPlaced.trans samePlaced, fun final isLater => ?_⟩
  rw [enlistAll_append] at isLater
  have same := (reads final ((prefix_enlistAll _ others).trans isLater)).symm.trans start
  simp only [Except.ok.injEq, Prod.mk.injEq] at same
  have finish := continues final isLater
  rw [← same.1] at finish
  change (read (some table) >>= fun result => next result.1 result.2) = _
  rw [start]
  change next (value (numbered (enlistAll order labels))) (some between) = _
  rw [← same.1]
  exact finish

theorem Mentions.bind
    {read : LabelReading α}
    {next : α → LabelReading β}
    {labels others : List Label}
    {value : (Label → Label) → α}
    {result : α → (Label → Label) → β}
    (first : Mentions read labels value)
    (second : ∀ value, Mentions (next value) others (result value)) :
    Mentions (read >>= next) (labels ++ others) fun rename => result (value rename) rename :=
  first.bind_of fun rename => second (value rename)

theorem Mentions.congr
    {read : LabelReading α}
    {labels others : List Label}
    {value result : (Label → Label) → α}
    (mentions : Mentions read labels value)
    (sameLabels : labels = others)
    (sameValue : value = result) :
    Mentions read others result :=
  sameLabels ▸ sameValue ▸ mentions

theorem Mentions.mapM
    {γ : Type}
    {read : β → LabelReading α}
    {written : γ → β}
    {label : γ → Label}
    {value : γ → (Label → Label) → α}
    (each : ∀ element, Mentions (read (written element)) [label element] (value element))
    (elements : List γ) :
    Mentions ((elements.map written).mapM read) (elements.map label) fun rename =>
      elements.map (value · rename) := by
  induction elements with
  | nil => exact Mentions.pure []
  | cons element elements hypothesis =>
      rw [List.map_cons, List.mapM_cons]
      refine ((each element).bind fun first => hypothesis.bind fun others =>
        Mentions.pure (first :: others)).congr ?_ rfl
      simp

theorem isPlain_labelText (label : Label) : IsPlain label.text.toList := by
  have digits := @Numeral.isPlain_toDigits 10 (by decide) (by decide) label.id
  have front : IsPlain ['L'] := by decide
  simpa [Label.text] using front.append digits

theorem isWord_labelText (label : Label) : Text.IsWord label.text.toList := by
  have digits := @Numeral.isWord_toDigits 10 (by decide) (by decide) label.id
  refine ⟨by simp [Label.text], fun character present => ?_⟩
  rw [Label.text, String.toList_append, List.mem_append] at present
  rcases present with inFront | inDigits
  · rw [List.mem_singleton.mp inFront]
    decide
  · exact digits.solid character (by simpa using inDigits)

theorem labelText_ne_colon (label : Label) : ∀ character ∈ label.text.toList, character ≠ ':' := by
  have digits := @Numeral.forall_mem_toDigits 10 (· ≠ ':') (by decide) (by decide) label.id
  intro character present
  rw [Label.text, String.toList_append, List.mem_append] at present
  rcases present with inFront | inDigits
  · rw [List.mem_singleton.mp inFront]
    decide
  · exact digits character (by simpa using inDigits)

/-- The text of a label is read as the label. -/
theorem mentions_readLabel (line : Nat) (label : Label) :
    Mentions (readLabel line label.text) [label] fun rename => rename label := by
  intro order table lists
  have valid : ¬((label.text = "" || label.text.toList.contains ':') = true) := by
    have nonempty : label.text ≠ "" := fun empty =>
      (isWord_labelText label).nonempty (by rw [empty]; rfl)
    have noColon : ':' ∉ label.text.toList := fun present =>
      labelText_ne_colon label _ present rfl
    simp [nonempty, noColon]
  obtain ⟨isLabel, listsAfter, samePlaced⟩ := lists.mention line label.text
  have enlisted := map_enlistAll labelText_injective order [label]
  refine ⟨_, enlisted ▸ listsAfter, samePlaced, fun final isLater => ?_⟩
  have known : label ∈ enlistAll order [label] :=
    mem_enlistAll.mpr (Or.inr List.mem_cons_self)
  have place : (enlist (order.map Label.text) label.text).idxOf label.text =
      final.idxOf label := by
    have mapped : enlist (order.map Label.text) label.text =
        (enlistAll order [label]).map Label.text := enlisted.symm
    rw [mapped, idxOf_eq_of_prefix isLater known]
    exact idxOf_map_of_injective labelText_injective _ _
  rw [readLabel, if_neg valid]
  dsimp only
  rw [numbered, ← place, ← isLabel]

/-- Behind at least so many names, the reader keeps the table in order, and what it
returns fits to the number of the names behind it. -/
def Issues (count : Nat) (read : LabelReading α) (Fits : Nat → α → Prop) : Prop :=
  ∀ names (table : LabelTable) value scope, table.Lists names → count ≤ names.length →
    read (some table) = .ok (value, scope) →
    ∃ more after, scope = some after ∧ after.Lists more ∧ names.length ≤ more.length ∧
      after.placed = table.placed ∧ Fits more.length value

variable {count : Nat} {read : LabelReading α} {Fits : Nat → α → Prop}

theorem Issues.lift {read : Reading α}
    (fits : ∀ value, read = .ok value → ∀ more, count ≤ more → Fits more value) :
    Issues count (liftM read) Fits := by
  intro names table value scope lists enough reads
  cases found : read with
  | error fault => rw [found] at reads; contradiction
  | ok result =>
      rw [found] at reads
      have same : (result, some table) = (value, scope) := Except.ok.inj reads
      simp only [Prod.mk.injEq] at same
      exact ⟨names, table, same.2.symm, lists, Nat.le_refl _, rfl,
        same.1 ▸ fits result found _ enough⟩

theorem Issues.pure {value : α} (fits : ∀ more, count ≤ more → Fits more value) :
    Issues count (pure value) Fits := by
  intro names table result scope lists enough reads
  have same : (value, some table) = (result, scope) := Except.ok.inj reads
  simp only [Prod.mk.injEq] at same
  exact ⟨names, table, same.2.symm, lists, Nat.le_refl _, rfl, same.1 ▸ fits _ enough⟩

theorem Issues.bind
    {next : α → LabelReading β}
    {FitsNext : Nat → β → Prop}
    (first : Issues count read Fits)
    (second : ∀ value more, count ≤ more → Fits more value → Issues more (next value) FitsNext) :
    Issues count (read >>= next) FitsNext := by
  intro names table result scope lists enough reads
  cases found : read (some table) with
  | error fault =>
      have reads : ((read (some table)) >>= fun state => next state.1 state.2) = _ := reads
      rw [found] at reads
      contradiction
  | ok state =>
      obtain ⟨value, between⟩ := state
      have reads : ((read (some table)) >>= fun state => next state.1 state.2) = _ := reads
      rw [found] at reads
      obtain ⟨more, middle, rfl, listsMiddle, longer, samePlaced, fits⟩ :=
        first names table value between lists enough found
      obtain ⟨most, after, isAfter, listsAfter, evenLonger, stillPlaced, fitsNext⟩ :=
        second value more.length (Nat.le_trans enough longer) fits more middle result scope
          listsMiddle (Nat.le_refl _) reads
      exact ⟨most, after, isAfter, listsAfter, Nat.le_trans longer evenLonger,
        stillPlaced.trans samePlaced, fitsNext⟩

theorem Issues.mapM
    {read : β → LabelReading α}
    (monotone : ∀ less more value, less ≤ more → Fits less value → Fits more value)
    (each : ∀ element more, count ≤ more → Issues more (read element) Fits)
    (elements : List β) :
    Issues count (elements.mapM read) fun more values => ∀ value ∈ values, Fits more value := by
  induction elements generalizing count with
  | nil => exact Issues.pure fun _ _ _ absent => absurd absent List.not_mem_nil
  | cons element elements hypothesis =>
      rw [List.mapM_cons]
      refine (each element count (Nat.le_refl _)).bind fun value more longer fits => ?_
      refine (hypothesis fun other most evenLonger =>
        each other most (Nat.le_trans longer evenLonger)).bind
          fun values most evenLonger fitAll => ?_
      exact Issues.pure fun all enough => List.forall_mem_cons.mpr
        ⟨monotone _ _ _ (Nat.le_trans evenLonger enough) fits,
          fun other present => monotone _ _ _ enough (fitAll other present)⟩

/-- A label that is read is in use from then on. -/
theorem issues_readLabel (line : Nat) (name : String) :
    Issues count (readLabel line name) fun more label => label.id < more := by
  intro names table label scope lists enough reads
  unfold readLabel at reads
  split at reads
  · contradiction
  · obtain ⟨isLabel, listsAfter, samePlaced⟩ := lists.mention line name
    have same : ((table.mention line name).1, some (table.mention line name).2) =
        (label, scope) := Except.ok.inj reads
    rw [isLabel, Prod.mk.injEq] at same
    refine ⟨_, _, same.2.symm, listsAfter, (prefix_enlist names name).length_le, samePlaced, ?_⟩
    rw [← same.1]
    exact List.idxOf_lt_length_iff.mpr (mem_enlist.mpr (Or.inr rfl))

end Listing

end StackMaps
