import StackMaps.Text.Blank
import Mathlib.Data.List.DropRight
import Mathlib.Order.Basic

/-!
# Words, phrases and lines

A word has no blanks, and a phrase is a piece of a line with no blanks at its ends. What
is written out of words and phrases with blanks between them is read back as the same
words and phrases, and what is written line by line as the same lines.
-/

namespace StackMaps
namespace Text

variable {text rest word front back : List Char} {character : Char}

/-! ## Words -/

/-- A text without blanks that is not empty. -/
structure IsWord (text : List Char) : Prop where
  nonempty : text ≠ []
  solid : ∀ character ∈ text, isBlank character = false

theorem isWord_iff :
    IsWord text ↔ text ≠ [] ∧ ∀ character ∈ text, isBlank character = false :=
  ⟨fun isWord => ⟨isWord.nonempty, isWord.solid⟩, fun both => ⟨both.1, both.2⟩⟩

instance : DecidablePred IsWord := fun text =>
  have : Decidable (∀ character ∈ text, isBlank character = false) := List.decidableBAll _ text
  decidable_of_iff' _ isWord_iff

/-- The end of a text, or a blank at its front. -/
def IsBreak (text : List Char) : Prop :=
  ∀ character ∈ text.head?, isBlank character = true

theorem isBreak_nil : IsBreak [] := by
  rintro _ ⟨⟩

theorem isBreak_cons (blank : isBlank character = true) (rest : List Char) :
    IsBreak (character :: rest) := by
  rintro _ ⟨⟩
  exact blank

theorem foldr_wordStep_of_isBreak (isBreak : IsBreak rest) :
    rest.foldr wordStep ([], []) = ([], words rest) := by
  cases rest with
  | nil => rfl
  | cons character rest =>
      have blank := isBreak character rfl
      rw [List.foldr_cons, words, List.foldr_cons, wordStep, if_pos blank]
      rfl

@[simp] theorem words_nil : words [] = [] := rfl

theorem words_cons_of_isBlank (blank : isBlank character = true) (rest : List Char) :
    words (character :: rest) = words rest := by
  rw [words, List.foldr_cons, wordStep, if_pos blank]
  rfl

/-- A word in front of a break is the first word. -/
theorem words_append (isWord : IsWord word) (isBreak : IsBreak rest) :
    words (word ++ rest) = word :: words rest := by
  have gathered : ∀ front : List Char, (∀ character ∈ front, isBlank character = false) →
      (front ++ rest).foldr wordStep ([], []) = (front, words rest) := by
    intro front solid
    induction front with
    | nil => exact foldr_wordStep_of_isBreak isBreak
    | cons first front hypothesis =>
        have later := hypothesis fun character present =>
          solid character (List.mem_cons_of_mem _ present)
        have ink : ¬isBlank first = true := by simp [solid first List.mem_cons_self]
        rw [List.cons_append, List.foldr_cons, later, wordStep, if_neg ink]
  have filled : ¬word.isEmpty = true := by simpa using isWord.nonempty
  rw [words, gathered word isWord.solid]
  exact if_neg filled

/-- Split a text at its first blank. -/
theorem splitWord_spec (text : List Char) :
    (splitWord text).1 ++ (splitWord text).2 = text ∧
      (∀ character ∈ (splitWord text).1, isBlank character = false) ∧
      IsBreak (splitWord text).2 := by
  refine ⟨List.takeWhile_append_dropWhile, fun character present => ?_, ?_⟩
  · simpa using List.mem_takeWhile_imp present
  · intro character first
    have := List.head?_dropWhile_not (!isBlank ·) text
    rw [show (text.dropWhile (!isBlank ·)).head? = some character from first] at this
    simpa using this

/-- Either a text is empty, or it begins with a blank or with a word. -/
theorem words_induction
    {Holds : List Char → List (List Char) → Prop}
    (nil : Holds [] [])
    (blank : ∀ character rest, isBlank character = true → Holds rest (words rest) →
      Holds (character :: rest) (words rest))
    (word : ∀ word rest, IsWord word → IsBreak rest → Holds rest (words rest) →
      Holds (word ++ rest) (word :: words rest))
    (text : List Char) :
    Holds text (words text) := by
  induction size : text.length using Nat.strongRecOn generalizing text with
  | ind size hypothesis =>
      subst size
      cases text with
      | nil => exact nil
      | cons character rest =>
          by_cases blankFirst : isBlank character = true
          · rw [words_cons_of_isBlank blankFirst]
            exact blank character rest blankFirst
              (hypothesis _ (Nat.lt_succ_self _) rest rfl)
          · obtain ⟨whole, solid, isBreak⟩ := splitWord_spec (character :: rest)
            have filled : (splitWord (character :: rest)).1 ≠ [] := by
              simp [splitWord, blankFirst]
            have isWord : IsWord (splitWord (character :: rest)).1 := ⟨filled, solid⟩
            have shorter : (splitWord (character :: rest)).2.length <
                (character :: rest).length := by
              have lengths := congrArg List.length whole
              have positive := List.length_pos_iff.mpr filled
              rw [List.length_append] at lengths
              omega
            have split := word _ _ isWord isBreak (hypothesis _ shorter _ rfl)
            rwa [← words_append isWord isBreak, whole] at split

/-- What a text is split into are words. -/
theorem isWord_of_mem_words (present : word ∈ words text) : IsWord word := by
  refine @words_induction (fun _ words => ∀ word ∈ words, IsWord word) ?_ ?_ ?_ text word present
  · exact fun _ absent => absurd absent List.not_mem_nil
  · exact fun _ _ _ later => later
  · exact fun _ _ isWord _ later => List.forall_mem_cons.mpr ⟨isWord, later⟩

/-- The first word of a text is split off at a break. -/
theorem splitWord_append
    (solid : ∀ character ∈ word, isBlank character = false)
    (isBreak : IsBreak rest) :
    splitWord (word ++ rest) = (word, rest) := by
  have all : ∀ character ∈ word, (!isBlank character) = true :=
    fun character present => by simp [solid character present]
  have stops : rest.takeWhile (!isBlank ·) = [] ∧ rest.dropWhile (!isBlank ·) = rest := by
    cases rest with
    | nil => exact ⟨rfl, rfl⟩
    | cons character rest =>
        have blank : ¬(!isBlank character) = true := by simp [isBreak character rfl]
        exact ⟨List.takeWhile_cons_of_neg blank, List.dropWhile_cons_of_neg blank⟩
  rw [splitWord, List.takeWhile_append_of_pos all, List.dropWhile_append_of_pos all, stops.1,
    stops.2, List.append_nil]

/-- Texts with a space in front of each. -/
def spaced (texts : List (List Char)) : List Char :=
  texts.flatMap (' ' :: ·)

@[simp] theorem spaced_nil : spaced [] = [] := rfl

@[simp] theorem spaced_cons (text : List Char) (texts : List (List Char)) :
    spaced (text :: texts) = ' ' :: (text ++ spaced texts) := rfl

theorem spaced_append (texts others : List (List Char)) :
    spaced (texts ++ others) = spaced texts ++ spaced others := by
  rw [spaced, List.flatMap_append]
  rfl

theorem isBreak_spaced (texts : List (List Char)) : IsBreak (spaced texts) := by
  cases texts with
  | nil => exact isBreak_nil
  | cons first rest => exact isBreak_cons (by decide) _

/-- Words with spaces in front of them are read back. -/
theorem words_spaced {listed : List (List Char)} (areWords : ∀ word ∈ listed, IsWord word) :
    words (spaced listed) = listed := by
  induction listed with
  | nil => rfl
  | cons word listed hypothesis =>
      obtain ⟨isWord, others⟩ := List.forall_mem_cons.mp areWords
      rw [spaced_cons, words_cons_of_isBlank (by decide),
        words_append isWord (isBreak_spaced listed), hypothesis others]

/-! ## Phrases -/

/-- A piece of a line with no blank at either end. -/
structure IsPhrase (text : List Char) : Prop where
  nonempty : text ≠ []
  front : ∀ character ∈ text.head?, isBlank character = false
  back : ∀ character ∈ text.getLast?, isBlank character = false
  single : '\n' ∉ text

theorem IsWord.isPhrase (isWord : IsWord text) : IsPhrase text where
  nonempty := isWord.nonempty
  front character first := isWord.solid character (List.mem_of_mem_head? first)
  back character last := isWord.solid character (List.mem_of_mem_getLast? last)
  single present := absurd (isWord.solid _ present) (by decide)

/-- Two phrases with a space between them are a phrase. -/
theorem IsPhrase.append_cons (isFront : IsPhrase front) (isBack : IsPhrase back) :
    IsPhrase (front ++ ' ' :: back) where
  nonempty := by simp
  front character first := by
    rw [List.head?_append_of_ne_nil _ isFront.nonempty] at first
    exact isFront.front character first
  back character last := by
    rw [List.getLast?_append_cons, List.getLast?_cons_of_ne_nil isBack.nonempty] at last
    exact isBack.back character last
  single present := by
    rcases List.mem_append.mp present with inFront | inRest
    · exact isFront.single inFront
    · rcases List.mem_cons.mp inRest with isSpace | inBack
      · exact absurd isSpace (by decide)
      · exact isBack.single inBack

theorem IsPhrase.append_spaced
    {texts : List (List Char)}
    (isPhrase : IsPhrase text)
    (arePhrases : ∀ text ∈ texts, IsPhrase text) :
    IsPhrase (text ++ spaced texts) := by
  induction texts generalizing text with
  | nil => simpa using isPhrase
  | cons first rest hypothesis =>
      obtain ⟨isFirst, others⟩ := List.forall_mem_cons.mp arePhrases
      have := hypothesis (isPhrase.append_cons isFirst) others
      simpa using this

theorem trim_eq_rdropWhile (text : List Char) :
    trim text = (text.dropWhile isBlank).rdropWhile isBlank := rfl

/-- Nothing is trimmed from a phrase. -/
theorem IsPhrase.trim_eq (isPhrase : IsPhrase text) : trim text = text := by
  have kept : text.dropWhile isBlank = text := by
    cases text with
    | nil => rfl
    | cons character rest =>
        exact List.dropWhile_cons_of_neg (by simp [isPhrase.front character rfl])
  rw [trim_eq_rdropWhile, kept, List.rdropWhile_eq_self_iff]
  intro filled
  simp [isPhrase.back _ (List.getLast_mem_getLast? filled)]

/-- Blanks in front of a text are trimmed. -/
theorem trim_append_of_forall_isBlank
    (blanks : ∀ character ∈ front, isBlank character = true)
    (text : List Char) :
    trim (front ++ text) = trim text := by
  rw [trim_eq_rdropWhile, List.dropWhile_append_of_pos blanks, trim_eq_rdropWhile]

theorem trim_cons_of_isBlank (blank : isBlank character = true) (text : List Char) :
    trim (character :: text) = trim text :=
  @trim_append_of_forall_isBlank [character] (by simpa using blank) text

/-- What is trimmed from a text are the blanks at its ends. -/
theorem exists_eq_append_trim (text : List Char) :
    ∃ front back, text = front ++ trim text ++ back ∧
      (∀ character ∈ front, isBlank character = true) ∧
      ∀ character ∈ back, isBlank character = true := by
  refine ⟨text.takeWhile isBlank, (text.dropWhile isBlank).rtakeWhile isBlank, ?_,
    fun character present => List.mem_takeWhile_imp present,
    fun character present => List.mem_rtakeWhile_imp present⟩
  rw [trim_eq_rdropWhile, List.append_assoc, List.rdropWhile_append_rtakeWhile,
    List.takeWhile_append_dropWhile]

/-- A text that begins with no blank keeps its first character. -/
theorem exists_trim_eq_cons
    (ink : isBlank character = false)
    (text : List Char) :
    ∃ rest, trim (character :: text) = character :: rest := by
  rw [trim_eq_rdropWhile, List.dropWhile_cons_of_neg (by simp [ink])]
  obtain ⟨behind, same⟩ := List.rdropWhile_prefix isBlank (character :: text)
  obtain empty | ⟨rest, kept, _⟩ := List.append_eq_cons_iff.mp same
  · have blank := List.rdropWhile_eq_nil_iff.mp empty.1 character List.mem_cons_self
    rw [ink] at blank
    cases blank
  · exact ⟨rest, kept⟩

theorem mem_of_mem_trim (present : character ∈ trim text) : character ∈ text := by
  obtain ⟨front, back, whole, _, _⟩ := exists_eq_append_trim text
  rw [whole]
  simp [present]

/-- What is left of a line is a phrase. -/
theorem isPhrase_trim (single : '\n' ∉ text) (nonempty : trim text ≠ []) :
    IsPhrase (trim text) where
  nonempty := nonempty
  front character first := by
    have isPrefix : trim text <+: text.dropWhile isBlank := List.rdropWhile_prefix isBlank _
    obtain ⟨back, whole⟩ := isPrefix
    have kept := List.head?_dropWhile_not isBlank text
    rw [← whole, List.head?_append_of_ne_nil _ nonempty,
      Option.mem_def.mp first] at kept
    simpa using kept
  back character last := by
    have ink := List.rdropWhile_last_not isBlank (text.dropWhile isBlank) nonempty
    rw [List.getLast?_eq_some_getLast (by exact nonempty), Option.mem_some_iff] at last
    rw [← last]
    simpa [trim_eq_rdropWhile] using ink
  single present := single (mem_of_mem_trim present)

/-- The words of a line are among the words of its parts. -/
theorem words_trim (text : List Char) : words (trim text) = words text := by
  obtain ⟨front, back, whole, blankFront, blankBack⟩ := exists_eq_append_trim text
  generalize trim text = inner at whole
  subst whole
  have atBack : ∀ inner : List Char, words (inner ++ back) = words inner := by
    intro inner
    refine @words_induction (fun inner parts => words (inner ++ back) = parts) ?_ ?_ ?_ inner
    · clear inner
      induction back with
      | nil => rfl
      | cons character back hypothesis =>
          obtain ⟨blank, others⟩ := List.forall_mem_cons.mp blankBack
          rw [List.nil_append, words_cons_of_isBlank blank]
          exact hypothesis others
    · intro character rest blank later
      rw [List.cons_append, words_cons_of_isBlank blank, later]
    · intro word rest isWord isBreak later
      have stillBreak : IsBreak (rest ++ back) := by
        intro character first
        cases rest with
        | nil => exact blankBack character (List.mem_of_mem_head? first)
        | cons other rest => exact isBreak character first
      rw [List.append_assoc, words_append isWord stillBreak, later]
  rw [atBack]
  induction front with
  | nil => rfl
  | cons character front hypothesis =>
      obtain ⟨blank, others⟩ := List.forall_mem_cons.mp blankFront
      rw [List.cons_append, words_cons_of_isBlank blank]
      exact hypothesis others

/-! ## Lines -/

/-- Texts with a line feed behind each. -/
def unlines (texts : List (List Char)) : List Char :=
  texts.flatMap (· ++ ['\n'])

@[simp] theorem unlines_nil : unlines [] = [] := rfl

@[simp] theorem unlines_cons (text : List Char) (texts : List (List Char)) :
    unlines (text :: texts) = text ++ '\n' :: unlines texts := by
  simp [unlines]

theorem unlines_append (texts others : List (List Char)) :
    unlines (texts ++ others) = unlines texts ++ unlines others :=
  List.flatMap_append

/-- A text on one line is the first line in front of a line feed. -/
theorem lines_append_cons (single : '\n' ∉ text) (rest : List Char) :
    lines (text ++ '\n' :: rest) = text :: lines rest := by
  induction text with
  | nil => rfl
  | cons character text hypothesis =>
      rw [List.mem_cons, not_or] at single
      have ink : ¬character = '\n' := fun isFeed => single.1 isFeed.symm
      rw [List.cons_append, lines_cons, hypothesis single.2, lineStep, if_neg ink]

/-- Lines with line feeds behind them are read back. -/
theorem lines_unlines {texts : List (List Char)} (single : ∀ text ∈ texts, '\n' ∉ text) :
    lines (unlines texts) = texts := by
  induction texts with
  | nil => rfl
  | cons text texts hypothesis =>
      obtain ⟨isSingle, others⟩ := List.forall_mem_cons.mp single
      rw [unlines_cons, lines_append_cons isSingle, hypothesis others]

/-- No line has a line feed in it. -/
theorem single_of_mem_lines {line : List Char} (present : line ∈ lines text) : '\n' ∉ line := by
  induction text generalizing line with
  | nil => exact absurd present List.not_mem_nil
  | cons character text hypothesis =>
      rw [lines_cons] at present
      unfold lineStep at present
      by_cases isFeed : character = '\n'
      · rw [if_pos isFeed] at present
        rcases List.mem_cons.mp present with isEmpty | later
        · exact isEmpty ▸ List.not_mem_nil
        · exact hypothesis later
      · rw [if_neg isFeed] at present
        have extended : ∀ line : List Char, '\n' ∉ line → '\n' ∉ character :: line :=
          fun line absent inCons => (List.mem_cons.mp inCons).elim
            (fun isFirst => isFeed isFirst.symm) absent
        cases behind : lines text with
        | nil =>
            rw [behind] at present
            exact List.mem_singleton.mp present ▸ extended [] List.not_mem_nil
        | cons first others =>
            rw [behind] at hypothesis present
            rcases List.mem_cons.mp present with isFirst | later
            · exact isFirst ▸ extended first (hypothesis List.mem_cons_self)
            · exact hypothesis (List.mem_cons_of_mem _ later)

end Text
end StackMaps
