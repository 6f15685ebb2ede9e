import StackMaps.Text.Blank

/-!
# Lines of listings

A comment runs from a `#` to the end of its line, unless the `#` stands in a
text between double quotes.
-/

namespace StackMaps
namespace Listing

/-- The part of a line in front of its comment. Inside quotes, a backslash takes
the character behind it along. -/
def stripCommentFrom (inQuotes escaped : Bool) : List Char → List Char
  | [] => []
  | character :: rest =>
      if escaped then
        character :: stripCommentFrom inQuotes false rest
      else if character = '\\' && inQuotes then
        character :: stripCommentFrom inQuotes true rest
      else if character = '"' then
        character :: stripCommentFrom (!inQuotes) false rest
      else if character = '#' && !inQuotes then
        []
      else
        character :: stripCommentFrom inQuotes false rest

/-- The part of a line in front of its comment. -/
def stripComment (line : List Char) : List Char :=
  stripCommentFrom false false line

/-- The parts of a text between the separators of arguments, a comma between two
spaces. -/
def splitArguments : List Char → List (List Char)
  | [] => [[]]
  | ' ' :: ',' :: ' ' :: rest => [] :: splitArguments rest
  | character :: rest =>
      match splitArguments rest with
      | [] => [[character]]
      | part :: parts => (character :: part) :: parts

/-- The words of a text. -/
def wordStrings (text : List Char) : List String :=
  (Text.words text).map String.ofList

end Listing
end StackMaps
