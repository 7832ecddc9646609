/-
Escape sequences in quoted literals.

After its backslash an escape is one of

* two or three decimal digits, a code point;
* `x` and two or more hexadecimal digits, a code point;
* `u` and one to six hexadecimal digits in braces, a code point;
* any one character except `x`, `u`, `U` and the line feed.

`Escape.body` finds the escape at the start of a text, `Escape.decode?` says which
character it stands for.  Decoding asks only what it needs and so accepts texts
that are no escapes, such as a code point with a plus sign.
-/
import FrontEnd.Text.Digits

namespace FrontEnd.Escape

open Text

/-- The character with the code point `n`, if it is one: no surrogate, and not
beyond the last code point. -/
def scalar? (n : Nat) : Option Char :=
  if h : n.isValidChar then some (Char.ofNatAux n h) else none

/-- What follows the backslash of the escape that `cs`, the text after a backslash,
starts with. -/
def body (cs : List Char) : Option (List Char) :=
  let digits := (cs.take 3).takeWhile isDecimal
  if 2 ≤ digits.length then some digits
  else match cs with
    | 'x' :: rest =>
      let digits := rest.takeWhile isHexadecimal
      if 2 ≤ digits.length then some ('x' :: digits) else none
    | 'u' :: '\x7b' :: rest =>
      let digits := rest.takeWhile isHexadecimal
      if 1 ≤ digits.length ∧ digits.length ≤ 6 ∧ (rest.drop digits.length).head? = some '\x7d' then
        some ('u' :: '\x7b' :: (digits ++ ['\x7d']))
      else none
    | c :: _ => if c = 'x' ∨ c = 'u' ∨ c = 'U' ∨ c = '\n' then none else some [c]
    | [] => none

/-- The text between `u` with an opening brace and a closing brace at the end. -/
def braced? : List Char → Option (List Char)
  | 'u' :: '\x7b' :: rest => if rest.getLast? = some '\x7d' then some rest.dropLast else none
  | _ => none

/-- The character that a backslash and `c` stand for. -/
def ofLetter : Char → Char
  | 'n' => '\n'
  | 't' => '\t'
  | 'r' => '\r'
  | '0' => '\x00'
  | c => c

/-- The character that the text `cs` after a backslash stands for. -/
def decodeBody? (cs : List Char) : Option Char :=
  match cs with
  | 'x' :: digits => (readNumber? 16 digits).bind scalar?
  | _ =>
    match braced? cs with
    | some digits => (readNumber? 16 digits).bind scalar?
    | none =>
      match cs with
      | [c] => some (ofLetter c)
      | _ => if cs.all isDecimal then (readNumber? 10 cs).bind scalar? else none

/-- The character that a whole escape stands for. -/
def decode? : List Char → Option Char
  | '\\' :: cs => decodeBody? cs
  | _ => none

end FrontEnd.Escape
