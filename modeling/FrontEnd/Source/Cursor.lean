/-
A reading place in a source text.

A `Cursor` holds the position reached and the characters still to be read.  It
moves by bytes, and no move may end inside a character.

* `Cursor.advance?` moves forward and stops at the end of the text.
* `Cursor.ahead?` is the position such a move would reach.
* `Cursor.take?` reads exactly so many bytes, and fails when there are fewer.
-/
import FrontEnd.Source.Bytes

namespace FrontEnd

/-- A position in a text together with the text from there on. -/
structure Cursor where
  position : Position
  rest : List Char
deriving DecidableEq, Repr

namespace Cursor

/-- The start of `source`. -/
def ofString (source : String) : Cursor := ⟨Position.start, source.toList⟩

/-- Nothing is left to read. -/
def atEnd (c : Cursor) : Bool := c.rest.isEmpty

/-- The next character. -/
def peek? (c : Cursor) : Option Char := c.rest.head?

/-- The text still to be read. -/
def remainder (c : Cursor) : String := String.ofList c.rest

/-- Reads exactly `n` bytes: the text read, the span it covers and the cursor
after it. -/
def take? (c : Cursor) (n : Nat) : Option (String × Span × Cursor) := do
  let (taken, rest) ← splitAtByte? n c.rest
  let position := c.position.after taken
  return (String.ofList taken, ⟨c.position, position⟩, ⟨position, rest⟩)

/-- Moves forward by `n` bytes, or to the end of the text if it is nearer. -/
def advance? (c : Cursor) (n : Nat) : Option Cursor := do
  let (_, _, moved) ← c.take? (min n (byteLength c.rest))
  return moved

/-- The position that `advance?` reaches. -/
def ahead? (c : Cursor) (n : Nat) : Option Position := do
  let moved ← c.advance? n
  return moved.position

end Cursor

end FrontEnd
