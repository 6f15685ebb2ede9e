import StackMaps.Numeral
import StackMaps.Proofs.Listing.Commenting
import Mathlib.Tactic.IntervalCases

/-!
# Numerals read back

A number that is written in some base is read back in that base, and its digits neither
end a word nor count for comments.
-/

namespace StackMaps
namespace Numeral

open Text Listing

variable {base digit number : Nat}

theorem digitValue?_digitChar (small : base ≤ 16) (isDigit : digit < base) :
    digitValue? base (Nat.digitChar digit) = some digit := by
  have : digit < 16 := by omega
  interval_cases digit <;> simp [digitValue?, Nat.digitChar, isDigit]

theorem extend?_append (front back : List Char) (number : Nat) :
    extend? base (front ++ back) number =
      (extend? base front number).bind (extend? base back) :=
  List.foldlM_append

/-- Reading the digits of a number gives the number. -/
theorem extend?_toDigits (isBase : 1 < base) (small : base ≤ 16) (number : Nat) :
    extend? base (Nat.toDigits base number) 0 = some number := by
  induction number using Nat.strongRecOn with
  | ind number hypothesis =>
      have single : ∀ value digit, digit < base →
          extend? base [Nat.digitChar digit] value = some (value * base + digit) :=
        fun value digit isDigit => by
          simp [extend?, digitValue?_digitChar small isDigit]
      by_cases isDigit : number < base
      · rw [Nat.toDigits_of_lt_base isDigit, single 0 number isDigit, Nat.zero_mul, Nat.zero_add]
      · have smaller : number / base < number := Nat.div_lt_self (by omega) isBase
        rw [Nat.toDigits_of_base_le isBase (by omega), extend?_append,
          hypothesis _ smaller, Option.bind_some, single _ _ (Nat.mod_lt _ (by omega)),
          Nat.mul_comm, Nat.div_add_mod]

theorem isPlain_of_extend? {text : List Char} (read : extend? base text number ≠ none) :
    IsPlain text := by
  induction text generalizing number with
  | nil => exact fun _ absent => absurd absent List.not_mem_nil
  | cons character text hypothesis =>
      have step : extend? base (character :: text) number =
          ((digitValue? base character).map fun digit => number * base + digit).bind
            (extend? base text) := rfl
      rw [step] at read
      cases value : digitValue? base character with
      | none => rw [value] at read; contradiction
      | some digit =>
          rw [value, Option.map_some, Option.bind_some] at read
          refine List.forall_mem_cons.mpr ⟨⟨?_, ?_, ?_⟩, hypothesis read⟩ <;> rintro rfl <;>
            simp [digitValue?] at value

/-- Only plain texts are read as numbers. -/
theorem isPlain_of_readNat? {text : List Char} (read : readNat? base text ≠ none) :
    IsPlain text := by
  have ofDigits : ∀ digits, readDigits? base digits ≠ none → IsPlain digits := by
    intro digits read
    rw [readDigits?] at read
    split at read
    · contradiction
    · exact isPlain_of_extend? read
  unfold readNat? at read
  split at read
  · exact (by decide : IsPlain ['+']).append (ofDigits _ read)
  · exact ofDigits _ read

/-- Every character of a written number is the character of a digit. -/
theorem exists_digit_of_mem_toDigits
    {character : Char}
    (isBase : 1 < base)
    (present : character ∈ Nat.toDigits base number) :
    ∃ digit < base, character = Nat.digitChar digit := by
  induction number using Nat.strongRecOn with
  | ind number hypothesis =>
      by_cases isDigit : number < base
      · rw [Nat.toDigits_of_lt_base isDigit, List.mem_singleton] at present
        exact ⟨number, isDigit, present⟩
      · rw [Nat.toDigits_of_base_le isBase (by omega), List.mem_append,
          List.mem_singleton] at present
        rcases present with earlier | isLast
        · exact hypothesis _ (Nat.div_lt_self (by omega) isBase) earlier
        · exact ⟨number % base, Nat.mod_lt _ (by omega), isLast⟩

/-- What holds of the characters of all digits holds of a written number. -/
theorem forall_mem_toDigits
    {Holds : Char → Prop}
    (isBase : 1 < base)
    (ofDigit : ∀ digit < base, Holds (Nat.digitChar digit))
    (number : Nat) :
    ∀ character ∈ Nat.toDigits base number, Holds character := by
  intro character present
  obtain ⟨digit, isDigit, rfl⟩ := exists_digit_of_mem_toDigits isBase present
  exact ofDigit digit isDigit

theorem isWord_toDigits (isBase : 1 < base) (small : base ≤ 16) (number : Nat) :
    IsWord (Nat.toDigits base number) := by
  have ink : ∀ digit < 16, isBlank (Nat.digitChar digit) = false := by decide
  exact ⟨Nat.toDigits_ne_nil, forall_mem_toDigits isBase
    (fun digit isDigit => ink digit (Nat.lt_of_lt_of_le isDigit small)) number⟩

theorem isPlain_toDigits (isBase : 1 < base) (small : base ≤ 16) (number : Nat) :
    IsPlain (Nat.toDigits base number) := by
  have plain : ∀ digit < 16, Nat.digitChar digit ≠ '"' ∧ Nat.digitChar digit ≠ '\\' ∧
      Nat.digitChar digit ≠ '#' := by decide
  exact forall_mem_toDigits isBase
    (fun digit isDigit => plain digit (Nat.lt_of_lt_of_le isDigit small)) number

/-- A written number is read back. -/
theorem readDigits?_toDigits (isBase : 1 < base) (small : base ≤ 16) (number : Nat) :
    readDigits? base (Nat.toDigits base number) = some number := by
  have filled : ¬(Nat.toDigits base number).isEmpty = true := by
    simp
  rw [readDigits?, if_neg filled, extend?_toDigits isBase small]

theorem readNat?_toDigits (isBase : 1 < base) (small : base ≤ 16) (number : Nat) :
    readNat? base (Nat.toDigits base number) = some number := by
  have unsignedDigit : ∀ digit < 16, Nat.digitChar digit ≠ '+' := by decide
  have unsigned := @forall_mem_toDigits _ (· ≠ '+') isBase 
    (fun digit isDigit => unsignedDigit digit (Nat.lt_of_lt_of_le isDigit small)) number
  rw [← readDigits?_toDigits isBase small number]
  unfold readNat?
  split
  · rename_i digits whole
    rw [whole] at unsigned
    exact absurd rfl (unsigned _ List.mem_cons_self)
  · rfl

theorem readInt?_repr (value : Int) : readInt? value.repr.toList = some value := by
  cases value with
  | ofNat magnitude =>
      have unsigned := @forall_mem_toDigits 10 (· ≠ '-') (by decide) (by decide) magnitude
      have whole : (Int.ofNat magnitude).repr.toList = Nat.toDigits 10 magnitude := by
        simp [Int.repr]
      rw [whole]
      unfold readInt?
      split
      · rename_i digits written
        rw [written] at unsigned
        exact absurd rfl (unsigned _ List.mem_cons_self)
      · rw [readNat?_toDigits (by decide) (by decide)]
        rfl
  | negSucc predecessor =>
      have whole : (Int.negSucc predecessor).repr.toList =
          '-' :: Nat.toDigits 10 (predecessor + 1) := by
        simp [Int.repr]
      rw [whole, readInt?, readDigits?_toDigits (by decide) (by decide)]
      rfl

theorem readSigned?_repr {width : Nat} {value : Int}
    (least : -2 ^ (width - 1) ≤ value)
    (greatest : value < 2 ^ (width - 1)) :
    readSigned? width value.repr.toList = some value := by
  rw [readSigned?, readInt?_repr, Option.filter_some, if_pos]
  simpa using And.intro least greatest

theorem readBits?_toDigits {width number : Nat} (small : number < 2 ^ width) :
    readBits? width (Nat.toDigits 10 number) = some number := by
  rw [readBits?, readNat?_toDigits (by decide) (by decide), Option.filter_some, if_pos]
  simpa using small

/-- The characters of a written integer are those of its digits and its sign. -/
theorem forall_mem_repr
    {Holds : Char → Prop}
    (sign : Holds '-')
    (ofDigit : ∀ digit < 10, Holds (Nat.digitChar digit))
    (value : Int) :
    ∀ character ∈ value.repr.toList, Holds character := by
  cases value with
  | ofNat magnitude =>
      simpa [Int.repr] using forall_mem_toDigits (by decide : 1 < 10) ofDigit magnitude
  | negSucc predecessor =>
      have digits := forall_mem_toDigits (by decide : 1 < 10) ofDigit (predecessor + 1)
      simpa [Int.repr] using And.intro sign digits

theorem isWord_repr (value : Int) : IsWord value.repr.toList := by
  refine ⟨?_, forall_mem_repr (by decide) (by decide) value⟩
  cases value with
  | ofNat magnitude => simp [Int.repr]
  | negSucc predecessor => simp [Int.repr]

theorem isPlain_repr (value : Int) : IsPlain value.repr.toList :=
  forall_mem_repr (by decide) (by decide) value

end Numeral
end StackMaps
