import StackMaps.Listing.Line
import StackMaps.Proofs.Text.Lexing
import Mathlib.Tactic.SplitIfs

/-!
# Texts without comments

A comment is found by an automaton that keeps track of quotes and backslashes from the
front of a line on. A text is clear if the automaton meets no comment in it. The blanks
between two words count for the automaton as one, and most characters do not count at
all, so a clear line stays clear when it is written anew.
-/

namespace StackMaps
namespace Listing

open Text

/-- Whether a place of a line is between quotes, and whether a backslash stands right in
front of it. -/
structure QuoteState where
  inQuotes : Bool
  escaped : Bool

namespace QuoteState

/-- The state behind a character, unless that begins a comment. -/
def next? (state : QuoteState) (character : Char) : Option QuoteState :=
  if state.escaped then some ⟨state.inQuotes, false⟩
  else if character = '\\' && state.inQuotes then some ⟨state.inQuotes, true⟩
  else if character = '"' then some ⟨!state.inQuotes, false⟩
  else if character = '#' && !state.inQuotes then none
  else some ⟨state.inQuotes, false⟩

/-- The state behind a text, unless there is a comment in it. -/
def scan (state : QuoteState) (text : List Char) : Option QuoteState :=
  text.foldlM next? state

end QuoteState

open QuoteState

variable {state : QuoteState} {quoted : Bool} {text front back word : List Char}
  {character : Char}

@[simp] theorem QuoteState.scan_nil : scan state [] = some state := rfl

theorem QuoteState.scan_cons (character : Char) (text : List Char) :
    scan state (character :: text) = (next? state character).bind (scan · text) := rfl

theorem QuoteState.scan_append (front back : List Char) :
    scan state (front ++ back) = (scan state front).bind (scan · back) :=
  List.foldlM_append

/-- A blank only ends what a backslash takes along. -/
theorem QuoteState.next?_of_isBlank (blank : isBlank character = true) :
    next? state character = some ⟨state.inQuotes, false⟩ := by
  have apart : character ≠ '\\' ∧ character ≠ '"' ∧ character ≠ '#' := by
    refine ⟨?_, ?_, ?_⟩ <;> rintro rfl <;> exact absurd blank (by decide)
  simp [next?, apart.1, apart.2.1, apart.2.2]

/-- There is no comment in the text. -/
def IsClear (state : QuoteState) (text : List Char) : Prop :=
  (scan state text).isSome = true

instance (state : QuoteState) (text : List Char) : Decidable (IsClear state text) :=
  inferInstanceAs (Decidable ((scan state text).isSome = true))

theorem isClear_nil : IsClear state [] := rfl

theorem IsClear.of_append (clear : IsClear state (front ++ back)) : IsClear state front := by
  rw [IsClear, scan_append] at clear
  exact Option.isSome_of_isSome_bind clear

theorem isClear_append (scanned : scan state front = some ⟨quoted, false⟩) :
    IsClear state (front ++ back) ↔ IsClear ⟨quoted, false⟩ back := by
  rw [IsClear, scan_append, scanned]
  rfl

theorem isClear_cons_of_isBlank (blank : isBlank character = true) :
    IsClear state (character :: text) ↔ IsClear ⟨state.inQuotes, false⟩ text := by
  rw [IsClear, scan_cons, next?_of_isBlank blank]
  rfl

/-! ## Clearing a line -/

/-- A line is cleared along the states of the automaton. -/
theorem stripCommentFrom_cons (state : QuoteState) (character : Char) (text : List Char) :
    stripCommentFrom state.inQuotes state.escaped (character :: text) =
      match next? state character with
      | some behind => character :: stripCommentFrom behind.inQuotes behind.escaped text
      | none => [] := by
  rw [stripCommentFrom, next?]
  split_ifs <;> rfl

theorem stripCommentFrom_isPrefix (state : QuoteState) (text : List Char) :
    stripCommentFrom state.inQuotes state.escaped text <+: text := by
  induction text generalizing state with
  | nil => exact List.prefix_rfl
  | cons character text hypothesis =>
      rw [stripCommentFrom_cons]
      cases next? state character with
      | none => exact List.nil_prefix
      | some behind => exact (List.prefix_cons_inj _).mpr (hypothesis behind)

/-- What is left of a line is clear. -/
theorem isClear_stripCommentFrom (state : QuoteState) (text : List Char) :
    IsClear state (stripCommentFrom state.inQuotes state.escaped text) := by
  induction text generalizing state with
  | nil => exact isClear_nil
  | cons character text hypothesis =>
      rw [stripCommentFrom_cons]
      cases step : next? state character with
      | none => exact isClear_nil
      | some behind =>
          rw [IsClear, scan_cons, step]
          exact hypothesis behind

/-- What is scanned without meeting a comment is left alone, and what is behind it is
cleared from the state in which the scan ends. -/
theorem stripCommentFrom_append
    {behind : QuoteState}
    (scanned : scan state front = some behind)
    (back : List Char) :
    stripCommentFrom state.inQuotes state.escaped (front ++ back) =
      front ++ stripCommentFrom behind.inQuotes behind.escaped back := by
  induction front generalizing state with
  | nil =>
      obtain rfl := Option.some.inj scanned
      rfl
  | cons character front hypothesis =>
      obtain ⟨middle, step, others⟩ := Option.bind_eq_some_iff.mp scanned
      rw [List.cons_append, stripCommentFrom_cons, step]
      exact congrArg (character :: ·) (hypothesis others)

/-- Nothing is stripped from a clear text. -/
theorem stripCommentFrom_of_isClear (clear : IsClear state text) :
    stripCommentFrom state.inQuotes state.escaped text = text := by
  obtain ⟨behind, scanned⟩ := Option.isSome_iff_exists.mp clear
  simpa [stripCommentFrom] using stripCommentFrom_append scanned []

/-- The state at the front of a line. -/
def QuoteState.start : QuoteState := ⟨false, false⟩

theorem isClear_stripComment (line : List Char) : IsClear .start (stripComment line) :=
  isClear_stripCommentFrom .start line

theorem stripComment_of_isClear (clear : IsClear .start text) : stripComment text = text :=
  stripCommentFrom_of_isClear clear

/-! ## Blanks and plain texts -/

/-- Blanks do not count. -/
theorem QuoteState.scan_of_forall_isBlank
    (blanks : ∀ character ∈ front, isBlank character = true) :
    scan ⟨quoted, false⟩ front = some ⟨quoted, false⟩ := by
  induction front with
  | nil => rfl
  | cons character front hypothesis =>
      obtain ⟨blank, others⟩ := List.forall_mem_cons.mp blanks
      rw [scan_cons, next?_of_isBlank blank]
      exact hypothesis others

theorem isClear_append_of_forall_isBlank
    (blanks : ∀ character ∈ front, isBlank character = true) :
    IsClear ⟨quoted, false⟩ (front ++ text) ↔ IsClear ⟨quoted, false⟩ text :=
  isClear_append (scan_of_forall_isBlank blanks)

theorem IsClear.trim (clear : IsClear ⟨quoted, false⟩ text) :
    IsClear ⟨quoted, false⟩ (trim text) := by
  obtain ⟨front, back, whole, blanks, _⟩ := exists_eq_append_trim text
  rw [whole, List.append_assoc, isClear_append_of_forall_isBlank blanks] at clear
  exact clear.of_append

/-- The blanks around a part of a clear text can be written as one space. -/
theorem IsClear.cons_trim (clear : IsClear state text) (isBreak : IsBreak text) :
    IsClear state (' ' :: Text.trim text) := by
  rw [isClear_cons_of_isBlank (by decide)]
  cases text with
  | nil => exact isClear_nil
  | cons character text =>
      have blank := isBreak character rfl
      rw [isClear_cons_of_isBlank blank] at clear
      rw [trim_cons_of_isBlank blank]
      exact clear.trim

theorem IsClear.append_cons_trim
    (clear : IsClear state (front ++ back))
    (isBreak : IsBreak back) :
    IsClear state (front ++ ' ' :: Text.trim back) := by
  rw [IsClear, scan_append] at clear ⊢
  cases scanned : scan state front with
  | none =>
      rw [scanned] at clear
      exact clear
  | some behind =>
      rw [scanned] at clear
      exact IsClear.cons_trim clear isBreak

/-- A clear text stays clear when all runs of blanks become single spaces. -/
theorem IsClear.spaced_words (clear : IsClear ⟨quoted, false⟩ text) :
    IsClear ⟨quoted, false⟩ (spaced (words text)) := by
  refine @words_induction
    (fun text words => ∀ quoted, IsClear ⟨quoted, false⟩ text →
      IsClear ⟨quoted, false⟩ (spaced words)) ?_ ?_ ?_ text quoted clear
  · exact fun _ _ => isClear_nil
  · intro character rest blank later quoted clear
    exact later quoted ((isClear_cons_of_isBlank blank).mp clear)
  · intro word rest isWord isBreak later quoted clear
    rw [spaced_cons, isClear_cons_of_isBlank (by decide)]
    cases rest with
    | nil => exact clear
    | cons character rest =>
        have blank := isBreak character rfl
        rw [IsClear, scan_append] at clear ⊢
        -- The first blank behind the word settles what a backslash at its end takes along.
        cases scanned : scan ⟨quoted, false⟩ word with
        | none => rw [scanned] at clear; exact clear
        | some behind =>
            rw [scanned] at clear
            have clearRest := (isClear_cons_of_isBlank blank).mp clear
            have clearWords := later behind.inQuotes
              ((isClear_cons_of_isBlank blank).mpr clearRest)
            change IsClear behind (spaced (words (character :: rest)))
            cases found : words (character :: rest) with
            | nil => exact isClear_nil
            | cons first others =>
                rw [found, spaced_cons, isClear_cons_of_isBlank (by decide)] at clearWords
                rw [spaced_cons, isClear_cons_of_isBlank (by decide)]
                exact clearWords

/-- A text without quotes, backslashes and number signs. -/
def IsPlain (text : List Char) : Prop :=
  ∀ character ∈ text, character ≠ '"' ∧ character ≠ '\\' ∧ character ≠ '#'

instance : DecidablePred IsPlain := fun text => List.decidableBAll _ text

theorem IsPlain.append (plainFront : IsPlain front) (plainBack : IsPlain back) :
    IsPlain (front ++ back) :=
  List.forall_mem_append.mpr ⟨plainFront, plainBack⟩

/-- A plain text does not count. -/
theorem IsPlain.scan_eq (plain : IsPlain text) :
    scan ⟨quoted, false⟩ text = some ⟨quoted, false⟩ := by
  induction text with
  | nil => rfl
  | cons character text hypothesis =>
      obtain ⟨⟨noQuote, noBackslash, noSign⟩, others⟩ := List.forall_mem_cons.mp plain
      rw [scan_cons, next?]
      simpa [noQuote, noBackslash, noSign] using hypothesis others

theorem IsPlain.isClear_append_iff (plain : IsPlain front) :
    IsClear ⟨quoted, false⟩ (front ++ back) ↔ IsClear ⟨quoted, false⟩ back :=
  isClear_append plain.scan_eq

theorem IsPlain.isClear (plain : IsPlain text) : IsClear ⟨quoted, false⟩ text := by
  rw [IsClear, plain.scan_eq]
  rfl

/-- The spaces between plain texts do not count either. -/
theorem isPlain_spaced
    {texts : List (List Char)}
    (plain : ∀ text ∈ texts, IsPlain text) :
    IsPlain (spaced texts) := by
  induction texts with
  | nil => exact fun _ absent => absurd absent List.not_mem_nil
  | cons text texts hypothesis =>
      obtain ⟨isPlain, others⟩ := List.forall_mem_cons.mp plain
      have space : IsPlain [' '] := by decide
      exact space.append (isPlain.append (hypothesis others))

/-- A plain word behind a clear text begins no comment. -/
theorem IsClear.append_cons_plain (clear : IsClear state front) (plain : IsPlain word) :
    IsClear state (front ++ ' ' :: word) := by
  rw [IsClear] at clear
  obtain ⟨behind, scanned⟩ := Option.isSome_iff_exists.mp clear
  rw [IsClear, scan_append, scanned]
  exact (isClear_cons_of_isBlank (by decide)).mpr plain.isClear

/-! ## Statements -/

/-- What is left of a line that is neither blank nor a comment. -/
structure IsStatement (text : List Char) : Prop where
  isPhrase : IsPhrase text
  isClear : IsClear .start text

/-- A statement is read behind any indentation. -/
theorem IsStatement.trim_stripComment
    (isStatement : IsStatement text)
    (blanks : ∀ character ∈ front, isBlank character = true) :
    trim (stripComment (front ++ text)) = text := by
  have clear : IsClear .start (front ++ text) :=
    (isClear_append_of_forall_isBlank blanks).mpr isStatement.isClear
  rw [stripComment_of_isClear clear, trim_append_of_forall_isBlank blanks,
    isStatement.isPhrase.trim_eq]

/-- Nothing is read from a comment behind an indentation. -/
theorem trim_stripComment_comment
    (blanks : ∀ character ∈ front, isBlank character = true)
    (text : List Char) :
    trim (stripComment (front ++ '#' :: text)) = [] := by
  have stripped : stripComment (front ++ '#' :: text) = front := by
    have whole : stripComment (front ++ '#' :: text) = front ++ stripComment ('#' :: text) :=
      stripCommentFrom_append (@scan_of_forall_isBlank false _ blanks) _
    rw [whole]
    exact List.append_nil front
  rw [stripped, ← List.append_nil front, trim_append_of_forall_isBlank blanks]
  rfl

/-- What is left of a line is a statement, or nothing. -/
theorem isStatement_trim_stripComment
    {line : List Char}
    (single : '\n' ∉ line)
    (nonempty : trim (stripComment line) ≠ []) :
    IsStatement (trim (stripComment line)) where
  isPhrase := by
    refine isPhrase_trim (fun present => single ?_) nonempty
    exact (stripCommentFrom_isPrefix .start line).subset present
  isClear := (isClear_stripComment line).trim

end Listing
end StackMaps
