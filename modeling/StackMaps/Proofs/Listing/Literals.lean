import StackMaps.Instruction.Printer
import StackMaps.Proofs.Text.Quoting

/-!
# Literals in lines

A text is pushed by a line that ends in a literal for it. Whatever characters the text
has, those of the line are printable, so that nothing breaks it, and the quotes of the
literal are closed where the line ends, so that number signs begin comments behind it
but not in it.
-/

namespace StackMaps
namespace Listing

open Text QuoteState

/-- The characters at which a text may be broken into lines. -/
def lineBreaks : List Char :=
  ['\n', '\x0b', '\x0c', '\r', '\x85', '\u2028', '\u2029']

/-- The table can be searched as a list, range by range. -/
theorem isPrintable_eq_all (character : Char) :
    isPrintable character =
      (unprintableRanges.toList.find? fun range => character.toNat ≤ range.2).all
        fun range => character.toNat < range.1 := by
  unfold isPrintable
  generalize unprintableRanges = ranges
  dsimp only
  rw [Array.find?_toList]
  cases ranges.find? fun range => character.toNat ≤ range.2 with
  | none => rfl
  | some range => rfl

/-- No line is broken at a printable character. -/
theorem notMem_lineBreaks {character : Char} (printable : isPrintable character = true) :
    character ∉ lineBreaks := by
  have unprintable : (lineBreaks.all fun character =>
      !(unprintableRanges.toList.find? fun range => character.toNat ≤ range.2).all
        fun range => character.toNat < range.1) = true := by
    decide +kernel
  intro present
  have hidden : (!isPrintable character) = true := by
    rw [isPrintable_eq_all]
    exact List.all_eq_true.mp unprintable character present
  rw [printable] at hidden
  exact Bool.false_ne_true hidden

/-- A line that loads a literal for a text. -/
structure LoadsLiteral (line literal text : List Char) : Prop where
  line_eq : line = "ldc ".toList ++ literal
  unbroken : ∀ character ∈ line, character ∉ lineBreaks
  /-- There is no comment on the line. -/
  stripComment_eq : stripComment line = line
  /-- A comment behind the line is found. -/
  stripComment_comment : ∀ comment, stripComment (line ++ '#' :: comment) = line
  decode_eq : Quoted.decode literal = some text

/-- Every text is pushed by a line that loads a literal for it. -/
theorem loadsLiteral_push (text : String) :
    LoadsLiteral (Instruction.push (.string text)).text.toList
      (Constant.string text).text.toList text.toList := by
  have literal_eq : (Constant.string text).text.toList = Quoted.encode text.toList :=
    String.toList_ofList
  have line_eq : (Instruction.push (.string text)).text.toList =
      "ldc ".toList ++ Quoted.encode text.toList := by
    rw [← literal_eq]
    exact String.toList_append
  have plain : IsPlain "ldc ".toList := by decide
  have scanned : scan .start ("ldc ".toList ++ Quoted.encode text.toList) = some .start := by
    rw [scan_append, start, plain.scan_eq]
    exact Quoted.scan_encode text.toList
  rw [line_eq, literal_eq]
  refine ⟨rfl, ?_, ?_, fun comment => ?_, Quoted.decode_encode text.toList⟩
  · have printable : ∀ character ∈ "ldc ".toList, isPrintable character = true :=
      List.all_eq_true.mp (by decide +kernel)
    intro character present
    rcases List.mem_append.mp present with inFront | inLiteral
    · exact notMem_lineBreaks (printable character inFront)
    · exact notMem_lineBreaks (Quoted.isPrintable_of_mem_encode _ character inLiteral)
  · refine stripComment_of_isClear ?_
    rw [IsClear, scanned]
    rfl
  · exact (stripCommentFrom_append scanned _).trans (List.append_nil _)

end Listing
end StackMaps
