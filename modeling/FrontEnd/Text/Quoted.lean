/-
Text between double quotes, as diagnostics and tree leaves show it.

The quoted form is one line of visible characters: the quote, the backslash and
the common controls are written with a backslash, and a character that would not
show is written by its code point.

* `quotedChar` is the written form of one character.
* `quoted` is the written form of a text.
-/
import FrontEnd.Unicode.Printable

namespace FrontEnd.Text

/-- `n` in lowercase hexadecimal, without leading zeros. -/
def hexadecimal (n : Nat) : List Char := Nat.toDigits 16 n

/-- How a character is written between double quotes. -/
def quotedChar (c : Char) : List Char :=
  match c with
  | '\x00' => ['\\', '0']
  | '\t' => ['\\', 't']
  | '\r' => ['\\', 'r']
  | '\n' => ['\\', 'n']
  | '\\' => ['\\', '\\']
  | '"' => ['\\', '"']
  | c =>
    if Unicode.isShown c then [c]
    else ['\\', 'u', '\x7b'] ++ hexadecimal c.toNat ++ ['\x7d']

/-- The text `s` between double quotes. -/
def quoted (s : String) : String :=
  String.ofList ('"' :: (s.toList.flatMap quotedChar ++ ['"']))

end FrontEnd.Text
