/-
Reading a quoted literal.

The text after the opening quote is read element by element, an element being a
plain character, an escape, or a backslash that starts none.  Reading stops at the
closing quote, before a line feed that is not part of an escape, and at the end of
the text; in the last two cases the literal is unterminated.

* `Literal.scan` reads a literal; each step consumes at least one character, so the
  length of the text is the measure.
* `Literal.segments` joins neighbouring plain characters into runs of text.
* `Literal.problems` are the defects of a literal, by byte ranges counted from its
  opening quote.
-/
import FrontEnd.Diagnostic.Basic
import FrontEnd.Literal.Escape
import FrontEnd.Source.Bytes

namespace FrontEnd

namespace Literal

/-- A unit of a literal's contents. -/
inductive Element where
  /-- A character that stands for itself. -/
  | plain (c : Char)
  /-- An escape and the character it stands for. -/
  | escape (raw : List Char) (value : Char)
  /-- A backslash, with the character after it if there is one to skip, that stands
  for nothing. -/
  | invalid (raw : List Char)
deriving DecidableEq, Repr

/-- The source text of an element. -/
def Element.raw : Element → List Char
  | plain c => [c]
  | escape raw _ => raw
  | invalid raw => raw

/-- The element that starts with a backslash and goes on with `cs`. -/
def backslashed (quote : Char) (cs : List Char) : Element :=
  match Escape.body cs with
  | some body =>
    match Escape.decodeBody? body with
    | some value => .escape ('\\' :: body) value
    | none => .invalid ('\\' :: body)
  | none =>
    match cs with
    | [] => .invalid ['\\']
    | c :: _ => if c = quote ∨ c = '\n' then .invalid ['\\'] else .invalid ['\\', c]

/-- What reading the text after an opening quote gives. -/
structure Contents where
  elements : List Element
  /-- The closing quote was found. -/
  terminated : Bool
  /-- The text after the literal. -/
  rest : List Char
deriving DecidableEq, Repr

/-- Puts an element in front. -/
def Contents.cons (e : Element) (c : Contents) : Contents :=
  { c with elements := e :: c.elements }

/-- Reads the text after an opening quote. -/
def contents (quote : Char) (text : List Char) : Contents :=
  match text with
  | [] => ⟨[], false, []⟩
  | c :: cs =>
    if c = quote then ⟨[], true, cs⟩
    else if c = '\n' then ⟨[], false, c :: cs⟩
    else if c ≠ '\\' then (contents quote cs).cons (.plain c)
    else
      let element := backslashed quote cs
      (contents quote (cs.drop (element.raw.length - 1))).cons element
termination_by text.length
decreasing_by
  · exact Nat.lt_succ_self _
  · rw [List.length_drop]
    exact Nat.lt_succ_of_le (Nat.sub_le _ _)

/-- A run of plain characters, or an element of another kind. -/
inductive Segment where
  | text (run : String)
  | escape (raw : String) (value : Char)
  | invalid (raw : String)
deriving DecidableEq, Repr

/-- The source text of a segment. -/
def Segment.raw : Segment → String
  | text run => run
  | escape raw _ => raw
  | invalid raw => raw

/-- The plain characters read since the last other element, latest first, as a
segment in front of `rest`. -/
def flush (run : List Char) (rest : List Segment) : List Segment :=
  if run.isEmpty then rest else .text (String.ofList run.reverse) :: rest

/-- Joins neighbouring plain characters; `run` holds those already read, latest
first. -/
def join (run : List Char) : List Element → List Segment
  | [] => flush run []
  | .plain c :: es => join (c :: run) es
  | .escape raw value :: es => flush run (.escape (String.ofList raw) value :: join [] es)
  | .invalid raw :: es => flush run (.invalid (String.ofList raw) :: join [] es)

/-- The characters that segments stand for; an invalid one stands for none. -/
def decode (segments : List Segment) : String :=
  String.join (segments.map fun
    | .text run => run
    | .escape _ value => value.toString
    | .invalid _ => "")

end Literal

/-- A quoted literal. -/
structure Literal where
  quote : Char
  elements : List Literal.Element
  terminated : Bool
deriving DecidableEq, Repr

namespace Literal

/-- Reads the literal that starts with `quote` and goes on with `text`. -/
def scan (quote : Char) (text : List Char) : Literal :=
  let c := contents quote text
  ⟨quote, c.elements, c.terminated⟩

/-- Reads the literal at the start of `input`.  The bytes where the opening quote
stands are skipped unseen, so they must end between two characters. -/
def scanString? (quote : Char) (input : String) : Option Literal :=
  (splitAtByte? quote.utf8Size input.toList).map fun (_, text) => scan quote text

/-- The source text of a literal. -/
def raw (l : Literal) : List Char :=
  l.quote :: (l.elements.flatMap Element.raw ++ if l.terminated then [l.quote] else [])

/-- The contents of a literal, neighbouring plain characters joined. -/
def segments (l : Literal) : List Segment := join [] l.elements

/-- The characters that a literal stands for. -/
def value (l : Literal) : String := decode l.segments

/-- How many characters a literal denotes, every escape and every invalid element
counted once. -/
def size (l : Literal) : Nat := l.elements.length

/-- The invalid elements among `es`, the first of which starts at byte `offset`. -/
def invalidElements (offset : Nat) : List Element → List Problem
  | [] => []
  | e :: es =>
    let stop := offset + byteLength e.raw
    match e with
    | .invalid raw => ⟨.invalidEscape (String.ofList raw), offset, stop⟩ :: invalidElements stop es
    | _ => invalidElements stop es

/-- The cause reported for a literal without its closing quote. -/
def unterminated (quote : Char) : Cause :=
  if quote = '\'' then .unterminatedChar else .unterminatedString

/-- The defects of a literal: its invalid elements in order, and then a missing
closing quote. -/
def problems (l : Literal) : List Problem :=
  invalidElements l.quote.utf8Size l.elements ++
    if l.terminated then [] else [⟨unterminated l.quote, 0, byteLength l.raw⟩]

end Literal

end FrontEnd
