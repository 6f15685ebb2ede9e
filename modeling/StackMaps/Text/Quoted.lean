import StackMaps.Numeral
import StackMaps.Text.Printable

/-!
# Quoted text

A quoted text stands between double quotes. A backslash starts an escape: one
letter for the common control characters, and otherwise the code point in
hexadecimal between braces. The writer escapes what is not printable, and the
reader knows a few escapes more than the writer uses.
-/

namespace StackMaps
namespace Text
namespace Quoted

/-- The written form of one character between the quotes. -/
def escape (character : Char) : List Char :=
  match character with
  | '\x00' => ['\\', '0']
  | '\t' => ['\\', 't']
  | '\r' => ['\\', 'r']
  | '\n' => ['\\', 'n']
  | '"' => ['\\', '"']
  | '\\' => ['\\', '\\']
  | _ =>
      if isPrintable character then [character]
      else ['\\', 'u', '\x7b'] ++ Numeral.hexadecimal character.toNat ++ ['\x7d']

/-- Put a text between double quotes. -/
def encode (text : List Char) : List Char :=
  '"' :: text.flatMap escape ++ ['"']

/-- The character with a code point, unless it is a surrogate or too large. -/
def ofCodePoint? (code : Nat) : Option Char :=
  if code < 0x110000 && !(0xD800 ≤ code && code ≤ 0xDFFF) then some (Char.ofNat code)
  else none

/-- The character that a one-letter escape stands for. -/
def ofLetter? : Char → Option Char
  | 'n' => some '\n'
  | 't' => some '\t'
  | 'r' => some '\r'
  | '0' => some '\x00'
  | '\\' => some '\\'
  | '\'' => some '\''
  | '"' => some '"'
  | _ => none

/-- Read what stands between the quotes, reversed in front of what has been read
already. A bare double quote is refused. -/
def decodeOnto (done : List Char) (text : List Char) : Option (List Char) :=
  match text with
  | [] => some done.reverse
  | '"' :: _ => none
  | '\\' :: 'u' :: '\x7b' :: rest =>
      match _closing : rest.dropWhile (· != '\x7d') with
      | [] => none
      | _ :: behind =>
          (Numeral.readNat? 16 (rest.takeWhile (· != '\x7d'))).bind fun code =>
            (ofCodePoint? code).bind fun character =>
              decodeOnto (character :: done) behind
  | '\\' :: letter :: rest =>
      (ofLetter? letter).bind fun character => decodeOnto (character :: done) rest
  | ['\\'] => none
  | character :: rest => decodeOnto (character :: done) rest
termination_by text.length
decreasing_by
  · have shorter := (List.dropWhile_suffix (· != '\x7d') : rest.dropWhile _ <:+ rest).length_le
    rw [_closing] at shorter
    simp only [List.length_cons] at shorter ⊢
    omega
  · simp only [List.length_cons]
    omega
  · simp

/-- Read a text in double quotes. -/
def decode (text : List Char) : Option (List Char) :=
  match text with
  | '"' :: rest =>
      match rest.reverse with
      | '"' :: inner => decodeOnto [] inner.reverse
      | _ => none
  | _ => none

end Quoted

/-- A text in double quotes. -/
def quoted (text : String) : String :=
  String.ofList (Quoted.encode text.toList)

end Text
end StackMaps
