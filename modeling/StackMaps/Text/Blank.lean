/-!
# Blanks and words

White space separates the words of a line. The class of blanks is the Unicode
property `White_Space`, and a word is a maximal run of other characters.
-/

namespace StackMaps
namespace Text

/-- A character with the Unicode property `White_Space`. -/
def isBlank (character : Char) : Bool :=
  let code := character.toNat
  (0x9 ≤ code && code ≤ 0xD) || code == 0x20 || code == 0x85 || code == 0xA0 ||
    code == 0x1680 || (0x2000 ≤ code && code ≤ 0x200A) || code == 0x2028 ||
    code == 0x2029 || code == 0x202F || code == 0x205F || code == 0x3000

/-- The text without the blanks at either end. -/
def trim (text : List Char) : List Char :=
  ((text.dropWhile isBlank).reverse.dropWhile isBlank).reverse

/-- The text up to the first blank, and the rest with that blank. -/
def splitWord (text : List Char) : List Char × List Char :=
  (text.takeWhile fun character => !isBlank character,
    text.dropWhile fun character => !isBlank character)

/-- One step of `words`, from the right: the word that is being read and the
words behind it. -/
def wordStep
    (character : Char)
    (state : List Char × List (List Char)) :
    List Char × List (List Char) :=
  if isBlank character then
    ([], if state.1.isEmpty then state.2 else state.1 :: state.2)
  else
    (character :: state.1, state.2)

/-- The maximal blank-free parts of a text, in order. -/
def words (text : List Char) : List (List Char) :=
  let (word, behind) := text.foldr wordStep ([], [])
  if word.isEmpty then behind else word :: behind

/-- One step of `lines`, from the right. -/
def lineStep (character : Char) (behind : List (List Char)) : List (List Char) :=
  if character = '\n' then
    [] :: behind
  else
    match behind with
    | [] => [[character]]
    | line :: rest => (character :: line) :: rest

/-- The lines of a text. A line feed ends a line, and what follows the last one
is a line only if it is not empty. -/
def lines (text : List Char) : List (List Char) :=
  text.foldr lineStep []

@[simp] theorem lines_nil : lines [] = [] := rfl

@[simp] theorem lines_cons (character : Char) (text : List Char) :
    lines (character :: text) = lineStep character (lines text) := rfl

end Text
end StackMaps
