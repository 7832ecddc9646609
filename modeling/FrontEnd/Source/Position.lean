/-
Places in a source text.

A `Position` says where a character starts: its byte offset in UTF-8, its line
and its column, both counted from one.  A column counts characters, and only a
line feed ends a line.  A `Span` runs from one position up to another.

* `Position.next` steps over one character, `Position.after` over a list of them.
* `Span.length?` is the number of bytes a span covers; a span that ends before
  it starts has none.
-/

namespace FrontEnd

/-- Where a character of a source text starts. -/
structure Position where
  /-- Bytes before the position. -/
  offset : Nat
  /-- One more than the line feeds before the position. -/
  line : Nat
  /-- One more than the characters between the start of the line and the position. -/
  column : Nat
deriving DecidableEq, Repr

namespace Position

/-- The first position of every text. -/
def start : Position := ⟨0, 1, 1⟩

/-- The position after the character `c` that stands at `p`. -/
def next (p : Position) (c : Char) : Position :=
  if c = '\n' then ⟨p.offset + c.utf8Size, p.line + 1, 1⟩
  else ⟨p.offset + c.utf8Size, p.line, p.column + 1⟩

/-- The position after the characters `cs`, the first of which stands at `p`. -/
def after (p : Position) (cs : List Char) : Position := cs.foldl next p

@[simp] theorem after_nil (p : Position) : p.after [] = p := rfl

@[simp] theorem after_cons (p : Position) (c : Char) (cs : List Char) :
    p.after (c :: cs) = (p.next c).after cs := rfl

theorem after_append (p : Position) (cs ds : List Char) :
    p.after (cs ++ ds) = (p.after cs).after ds := List.foldl_append

end Position

/-- The part of a source text from `start` up to, and without, `stop`. -/
structure Span where
  start : Position
  stop : Position
deriving DecidableEq, Repr

namespace Span

/-- The span of no characters at `p`. -/
def empty (p : Position) : Span := ⟨p, p⟩

/-- Bytes covered, for a span that does not end before it starts. -/
def length? (s : Span) : Option Nat :=
  if s.start.offset ≤ s.stop.offset then some (s.stop.offset - s.start.offset) else none

/-- Both ends have the same offset. -/
def isEmpty (s : Span) : Bool := s.start.offset == s.stop.offset

/-- Neither end of `other` lies outside `s`. -/
def contains (s other : Span) : Bool :=
  s.start.offset ≤ other.start.offset && other.stop.offset ≤ s.stop.offset

end Span

end FrontEnd
