import Mathlib.Data.List.Infix
import StackMaps.Listing.Line

/-!
# Separated parts

A text is cut into parts at every comma between two spaces. Parts that are joined by such
separators are found again exactly if no other separator arises: none lies within a part, and
no part ends with the beginning of one. Where another one arises, there are more parts, or the
rest of a separator begins a part.
-/

namespace StackMaps
namespace Listing

/-- What stands between the parts of a dynamic call. -/
def separator : List Char := [' ', ',', ' ']

/-- No part holds a separator, or the beginning of one right in front of the next one. -/
def Separable : List (List Char) → Prop
  | [] => True
  | [last] => ¬separator <:+: last
  | part :: next :: rest => ¬separator <:+: part ++ [' ', ','] ∧ Separable (next :: rest)

instance decidableSeparable : DecidablePred Separable
  | [] => .isTrue trivial
  | [last] => inferInstanceAs (Decidable ¬separator <:+: last)
  | part :: next :: rest =>
      have := decidableSeparable (next :: rest)
      inferInstanceAs (Decidable (¬separator <:+: part ++ [' ', ','] ∧ Separable (next :: rest)))

/-- Where no separator begins, a character goes to the first part. -/
theorem splitArguments_cons
    {character : Char}
    {rest part : List Char}
    {parts : List (List Char)}
    (inside : ¬separator <+: character :: rest)
    (behind : splitArguments rest = part :: parts) :
    splitArguments (character :: rest) = (character :: part) :: parts := by
  unfold splitArguments
  split
  next empty => cases empty
  next begins => exact absurd ⟨_, begins.symm⟩ inside
  next same =>
    obtain ⟨rfl, rfl⟩ := List.cons.inj same
    rw [behind]

/-- A text without a separator is a single part. -/
theorem splitArguments_eq_singleton
    {text : List Char}
    (whole : ¬separator <:+: text) :
    splitArguments text = [text] := by
  induction text with
  | nil => rfl
  | cons character rest hypothesis =>
      have behind := hypothesis fun within => whole (within.trans (List.suffix_cons _ _).isInfix)
      exact splitArguments_cons (fun begins => whole begins.isInfix) behind

/-- A part without a separator ends at the separator behind it. -/
theorem splitArguments_append
    {part : List Char}
    (apart : ¬separator <:+: part ++ [' ', ','])
    (rest : List Char) :
    splitArguments (part ++ (separator ++ rest)) = part :: splitArguments rest := by
  induction part with
  | nil => rfl
  | cons character part hypothesis =>
      have behind := hypothesis fun within => apart (within.trans (List.suffix_cons _ _).isInfix)
      refine splitArguments_cons (fun begins => ?_) behind
      -- A separator at the start would lie within the part and two characters behind it.
      have front : character :: part ++ [' ', ','] <+:
          character :: (part ++ (separator ++ rest)) := by
        simp [separator]
      exact apart (List.prefix_of_prefix_length_le begins front (by simp [separator])).isInfix

/-- Separable parts are found again between the separators. -/
theorem splitArguments_intercalate
    {parts : List (List Char)}
    (filled : parts ≠ [])
    (separable : Separable parts) :
    splitArguments (separator.intercalate parts) = parts := by
  induction parts with
  | nil => exact absurd rfl filled
  | cons part rest hypothesis =>
      cases rest with
      | nil =>
          rw [List.intercalate_singleton]
          exact splitArguments_eq_singleton separable
      | cons next rest =>
          rw [List.intercalate_cons_cons, List.append_assoc, splitArguments_append separable.1,
            hypothesis (List.cons_ne_nil _ _) separable.2]

/-- The parts are made of the characters of the text. -/
theorem subset_of_mem_splitArguments
    {text part : List Char}
    (present : part ∈ splitArguments text) :
    part ⊆ text := by
  fun_induction splitArguments text generalizing part with
  | case1 => simpa using present
  | case2 rest hypothesis =>
      rcases List.mem_cons.mp present with rfl | later
      · exact List.nil_subset _
      · exact fun _ inPart => List.mem_append_right separator (hypothesis later inPart)
  | case3 character rest inside empty hypothesis =>
      rw [List.mem_singleton.mp present]
      exact List.cons_subset_cons _ (List.nil_subset _)
  | case4 character rest inside first parts behind hypothesis =>
      rw [behind] at hypothesis
      rcases List.mem_cons.mp present with rfl | later
      · exact List.cons_subset_cons _ (hypothesis List.mem_cons_self)
      · exact List.subset_cons_of_subset _ (hypothesis (List.mem_cons_of_mem _ later))

/-! ## Parts that are cut elsewhere -/

/-- What begins with a separator, with the beginning of one behind it, does so itself or is such
a beginning. -/
theorem eq_or_eq_append_of_separator_prefix
    {part : List Char}
    (filled : part ≠ [])
    (begins : separator <+: part ++ [' ', ',']) :
    part = [' ', ','] ∨ ∃ behind, part = separator ++ behind := by
  obtain ⟨behind, same⟩ := begins
  obtain ⟨within, whole, _⟩ | ⟨within, whole, ends⟩ := List.append_eq_append_iff.mp same
  · exact .inr ⟨within, whole⟩
  · rcases part with _ | ⟨first, _ | ⟨second, _ | ⟨third, part⟩⟩⟩
    · exact absurd rfl filled
    · simp only [separator, List.cons_append, List.nil_append, List.cons.injEq] at whole
      rw [← whole.2] at ends
      cases ends
    · simp only [separator, List.cons_append, List.nil_append, List.cons.injEq] at whole
      exact .inl (by rw [whole.1, whole.2.1])
    · simp only [separator, List.cons_append, List.cons.injEq, List.nil_eq,
        List.append_eq_nil_iff] at whole
      obtain ⟨rfl, rfl, rfl, rfl, rfl⟩ := whole
      exact .inr ⟨[], rfl⟩

/-- A part either holds no separator, not even with the beginning of one behind it, or it can be
cut at the first one. -/
theorem separator_cases (part : List Char) :
    ¬separator <:+: part ++ [' ', ','] ∨
      ∃ front, ¬separator <:+: front ++ [' ', ','] ∧
        (part = front ++ [' ', ','] ∨ ∃ behind, part = front ++ (separator ++ behind)) := by
  induction part with
  | nil => exact .inl (by decide)
  | cons character part hypothesis =>
      by_cases begins : separator <+: character :: part ++ [' ', ',']
      · exact .inr ⟨[], by decide,
          eq_or_eq_append_of_separator_prefix (List.cons_ne_nil _ _) begins⟩
      · have further {front : List Char}
            (apart : ¬separator <:+: front ++ [' ', ','])
            (isPrefix : front ++ [' ', ','] <+: part ++ [' ', ',']) :
            ¬separator <:+: character :: front ++ [' ', ','] := fun within =>
          (List.infix_cons_iff.mp within).elim
            (fun first => begins (first.trans (List.cons_prefix_cons.mpr ⟨rfl, isPrefix⟩))) apart
        obtain apart | ⟨front, apart, rfl | ⟨behind, rfl⟩⟩ := hypothesis
        · exact .inl (further apart List.prefix_rfl)
        · exact .inr ⟨character :: front, further apart (List.prefix_append _ _), .inl rfl⟩
        · refine .inr ⟨character :: front, further apart ?_, .inr ⟨behind, rfl⟩⟩
          exact ⟨' ' :: behind ++ [' ', ','], by simp [separator]⟩

/-- The text is cut into at least so many parts, or a part behind the first one begins with a
comma. -/
def CutsInto (count : Nat) (text : List Char) : Prop :=
  count ≤ (splitArguments text).length ∨ ∃ rest, ',' :: rest ∈ (splitArguments text).drop 1

theorem CutsInto.mono
    {text : List Char}
    {count : Nat}
    (cuts : CutsInto (count + 1) text) :
    CutsInto count text :=
  cuts.imp_left Nat.le_of_succ_le

theorem splitArguments_ne_nil (text : List Char) : splitArguments text ≠ [] := by
  unfold splitArguments
  split
  · exact List.cons_ne_nil _ _
  · exact List.cons_ne_nil _ _
  · split <;> exact List.cons_ne_nil _ _

theorem cutsInto_one (text : List Char) : CutsInto 1 text :=
  .inl (List.length_pos_of_ne_nil (splitArguments_ne_nil text))

/-- Behind the first separator, the rest of an overlapping one begins a part. -/
theorem cutsInto_of_overlap
    {front : List Char}
    (apart : ¬separator <:+: front ++ [' ', ','])
    (count : Nat)
    (text : List Char) :
    CutsInto count (front ++ [' ', ','] ++ (separator ++ text)) := by
  obtain ⟨part, parts, cut⟩ := List.exists_cons_of_ne_nil (splitArguments_ne_nil (' ' :: text))
  have cutComma : splitArguments (',' :: ' ' :: text) = (',' :: part) :: parts :=
    splitArguments_cons (by simp [separator]) cut
  have cutFront := splitArguments_append apart (',' :: ' ' :: text)
  rw [cutComma] at cutFront
  have same : front ++ [' ', ','] ++ (separator ++ text) =
      front ++ (separator ++ ',' :: ' ' :: text) := by
    simp [separator]
  rw [CutsInto, same, cutFront]
  exact .inr ⟨part, List.mem_cons_self⟩

/-- A separator behind a text cuts off another part. -/
theorem CutsInto.append
    {count : Nat}
    {text : List Char}
    (cuts : CutsInto count text)
    (part : List Char) :
    CutsInto (count + 1) (part ++ (separator ++ text)) := by
  have cutsCons {front rest : List Char} {count : Nat}
      (apart : ¬separator <:+: front ++ [' ', ','])
      (cuts : CutsInto count rest) :
      CutsInto (count + 1) (front ++ (separator ++ rest)) := by
    rw [CutsInto, splitArguments_append apart]
    exact cuts.imp Nat.succ_le_succ fun ⟨rest, comma⟩ => ⟨rest, List.mem_of_mem_drop comma⟩
  -- By the length of the part: what is left of it behind its first separator is shorter.
  induction length : part.length using Nat.strong_induction_on generalizing part with
  | _ length hypothesis =>
      subst length
      obtain apart | ⟨front, apart, rfl | ⟨behind, rfl⟩⟩ := separator_cases part
      · exact cutsCons apart cuts
      · exact cutsInto_of_overlap apart _ _
      · have shorter : behind.length < (front ++ (separator ++ behind)).length := by
          simp [separator]
          omega
        rw [List.append_assoc, List.append_assoc]
        exact (cutsCons apart (hypothesis _ shorter behind rfl)).mono

theorem cutsInto_intercalate
    {parts : List (List Char)}
    (filled : parts ≠ []) :
    CutsInto parts.length (separator.intercalate parts) := by
  induction parts with
  | nil => exact absurd rfl filled
  | cons part rest hypothesis =>
      cases rest with
      | nil => exact cutsInto_one _
      | cons next rest =>
          rw [List.intercalate_cons_cons, List.append_assoc]
          exact (hypothesis (List.cons_ne_nil _ _)).append part

/-- Parts that are not separable are cut into more parts, or at other places. -/
theorem cutsInto_of_not_separable
    {parts : List (List Char)}
    (inseparable : ¬Separable parts) :
    CutsInto (parts.length + 1) (separator.intercalate parts) := by
  induction parts with
  | nil => exact absurd trivial inseparable
  | cons part rest hypothesis =>
      cases rest with
      | nil =>
          obtain ⟨front, behind, rfl⟩ := Decidable.not_not.mp inseparable
          rw [List.intercalate_singleton, List.append_assoc]
          exact (cutsInto_one behind).append front
      | cons next rest =>
          have cuts := cutsInto_intercalate (List.cons_ne_nil next rest)
          rw [List.intercalate_cons_cons, List.append_assoc]
          obtain apart | ⟨front, apart, rfl | ⟨behind, rfl⟩⟩ := separator_cases part
          · exact (hypothesis fun separable => inseparable ⟨apart, separable⟩).append part
          · exact cutsInto_of_overlap apart _ _
          · rw [List.append_assoc, List.append_assoc]
            exact (cuts.append behind).append front

end Listing
end StackMaps
