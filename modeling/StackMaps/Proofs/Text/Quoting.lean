import StackMaps.Proofs.Text.Numerals
import StackMaps.Text.Quoted

/-!
# Quoted texts read back

Every text is read back from between its quotes, and the quotes keep its number signs from
beginning comments.
-/

namespace StackMaps
namespace Text
namespace Quoted

open Listing QuoteState

variable {character : Char}

theorem ofCodePoint?_toNat (character : Char) :
    ofCodePoint? character.toNat = some character := by
  have valid := character.valid
  have inRange : (character.toNat < 0x110000 &&
      !(0xD800 ≤ character.toNat && character.toNat ≤ 0xDFFF)) = true := by
    have : character.toNat < 0xD800 ∨ 0xDFFF < character.toNat ∧ character.toNat < 0x110000 :=
      valid
    simp only [Bool.and_eq_true, decide_eq_true_eq, Bool.not_eq_true', Bool.and_eq_false_iff,
      decide_eq_false_iff_not]
    omega
  rw [ofCodePoint?, if_pos inRange, Char.ofNat_toNat]

/-- An escaped code point is read back. -/
theorem decodeOnto_codePoint (done rest : List Char) (character : Char) :
    decodeOnto done
      (['\\', 'u', '\x7b'] ++ Numeral.hexadecimal character.toNat ++ ['\x7d'] ++ rest) =
      decodeOnto (character :: done) rest := by
  have open' : ∀ digit ∈ Numeral.hexadecimal character.toNat, (digit != '\x7d') = true :=
    Numeral.forall_mem_toDigits (by decide) (by decide) _
  have front : (Numeral.hexadecimal character.toNat ++ '\x7d' :: rest).takeWhile (· != '\x7d') =
      Numeral.hexadecimal character.toNat := by
    rw [List.takeWhile_append_of_pos open', List.takeWhile_cons_of_neg (by decide),
      List.append_nil]
  have behind : (Numeral.hexadecimal character.toNat ++ '\x7d' :: rest).dropWhile (· != '\x7d') =
      '\x7d' :: rest := by
    rw [List.dropWhile_append_of_pos open', List.dropWhile_cons_of_neg (by decide)]
  have whole : ['\\', 'u', '\x7b'] ++ Numeral.hexadecimal character.toNat ++ ['\x7d'] ++ rest =
      '\\' :: 'u' :: '\x7b' :: (Numeral.hexadecimal character.toNat ++ '\x7d' :: rest) := by
    simp
  rw [whole, decodeOnto]
  split
  · rename_i empty
    rw [behind] at empty
    contradiction
  · rename_i found
    rw [behind] at found
    rw [front, Numeral.hexadecimal, Numeral.readNat?_toDigits (by decide) (by decide),
      Option.bind_some, ofCodePoint?_toNat, Option.bind_some, (List.cons.inj found).2]

/-- The written form of a character is read back. -/
theorem decodeOnto_escape (done rest : List Char) (character : Char) :
    decodeOnto done (escape character ++ rest) = decodeOnto (character :: done) rest := by
  unfold escape
  split
  case h_7 _ _ _ _ _ notQuote notBackslash =>
    split
    · rw [List.singleton_append]
      rw [decodeOnto] <;> simp_all
    · exact decodeOnto_codePoint done rest character
  all_goals simp [decodeOnto, ofLetter?]

theorem decodeOnto_flatMap_escape (done text : List Char) :
    decodeOnto done (text.flatMap escape) = some (done.reverse ++ text) := by
  induction text generalizing done with
  | nil => simp [decodeOnto]
  | cons character text hypothesis =>
      rw [List.flatMap_cons, decodeOnto_escape, hypothesis, List.reverse_cons,
        List.append_assoc, List.singleton_append]

/-- A quoted text is read back. -/
theorem decode_encode (text : List Char) : decode (encode text) = some text := by
  have shape : (text.flatMap escape ++ ['"']).reverse = '"' :: (text.flatMap escape).reverse := by
    simp
  rw [encode, List.cons_append, decode, shape]
  simpa using decodeOnto_flatMap_escape [] text

/-- The written form of a character leaves the quotes open. -/
theorem scan_escape (character : Char) :
    scan ⟨true, false⟩ (escape character) = some ⟨true, false⟩ := by
  unfold escape
  split
  case h_7 _ _ _ _ _ notQuote notBackslash =>
    split
    · have apart : ¬character = '"' ∧ ¬character = '\\' := ⟨notQuote, notBackslash⟩
      simp [scan_cons, next?, apart]
    · have digits : IsPlain (Numeral.hexadecimal character.toNat) :=
        Numeral.isPlain_toDigits (by decide) (by decide) _
      rw [List.append_assoc, scan_append]
      exact (digits.append (by decide)).scan_eq
  all_goals rfl

theorem scan_flatMap_escape (text : List Char) :
    scan ⟨true, false⟩ (text.flatMap escape) = some ⟨true, false⟩ := by
  induction text with
  | nil => rfl
  | cons character text hypothesis =>
      rw [List.flatMap_cons, scan_append, scan_escape]
      exact hypothesis

/-- Behind a quoted text the quotes are closed. -/
theorem scan_encode (text : List Char) : scan .start (encode text) = some .start := by
  have opened : scan .start ('"' :: text.flatMap escape) = some ⟨true, false⟩ :=
    scan_flatMap_escape text
  rw [encode, scan_append, opened]
  rfl

/-- There is no comment in a quoted text. -/
theorem isClear_encode (text : List Char) : IsClear .start (encode text) := by
  rw [IsClear, scan_encode]
  rfl

/-- What is written for a character is printable. -/
theorem isPrintable_of_mem_escape (character : Char) :
    ∀ written ∈ escape character, isPrintable written = true := by
  unfold escape
  split
  case h_7 =>
    split
    · next printable => exact List.forall_mem_singleton.mpr printable
    · have digits : ∀ written ∈ Numeral.hexadecimal character.toNat, isPrintable written = true :=
        Numeral.forall_mem_toDigits (by decide) (by decide +kernel) _
      have front : ∀ written ∈ ['\\', 'u', '\x7b'], isPrintable written = true :=
        List.all_eq_true.mp (by decide +kernel)
      have back : ∀ written ∈ ['\x7d'], isPrintable written = true :=
        List.all_eq_true.mp (by decide +kernel)
      exact List.forall_mem_append.mpr ⟨List.forall_mem_append.mpr ⟨front, digits⟩, back⟩
  all_goals exact List.all_eq_true.mp (by decide +kernel)

theorem isPrintable_of_mem_encode (text : List Char) :
    ∀ written ∈ encode text, isPrintable written = true := by
  have quote : isPrintable '"' = true := by decide +kernel
  have inside : ∀ written ∈ text.flatMap escape, isPrintable written = true := by
    intro written present
    obtain ⟨character, _, inEscape⟩ := List.mem_flatMap.mp present
    exact isPrintable_of_mem_escape character written inEscape
  exact List.forall_mem_append.mpr
    ⟨List.forall_mem_cons.mpr ⟨quote, inside⟩, List.forall_mem_singleton.mpr quote⟩

/-- A quoted text is a phrase. -/
theorem isPhrase_encode (text : List Char) : IsPhrase (encode text) where
  nonempty := by simp [encode]
  front character first := by
    rw [encode, List.cons_append, List.head?_cons, Option.mem_some_iff] at first
    exact first ▸ (by decide)
  back character last := by
    rw [encode, List.getLast?_concat, Option.mem_some_iff] at last
    exact last ▸ (by decide)
  single present := by
    have printable := isPrintable_of_mem_encode text _ present
    exact absurd printable (by decide +kernel)

end Quoted
end Text
end StackMaps
