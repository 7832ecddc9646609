/-
What can be wrong with a source text.

A `Cause` is one of the ten things that go wrong, six of them found while cutting
the text into tokens and four while reading the tokens by the grammar.  A
`Diagnostic` is a cause and the place it is about, and `Diagnostics` collects them.
A `Problem` is a cause in a piece of text whose own place is not known yet.

* `Cause.message` and `Cause.tip?` are the two wordings of a cause.
* `Diagnostics.sorted` orders by place, and keeps the order of reports about one
  place.
-/
import FrontEnd.Source.Bytes
import FrontEnd.Text.Quoted
import FrontEnd.Token.Stream

namespace FrontEnd

/-- The two stages in which something can go wrong. -/
inductive Category where
  | lexical | syntactic
deriving DecidableEq, Repr

/-- The name of a category in reports. -/
def Category.name : Category → String
  | lexical => "Lexical"
  | syntactic => "Syntax"

/-- What is wrong. -/
inductive Cause where
  /-- A character that no token can start with. -/
  | unrecognised (text : String)
  /-- A string literal whose closing quote is not on its line. -/
  | unterminatedString
  /-- A char literal whose closing quote is not on its line. -/
  | unterminatedChar
  /-- A backslash that starts no escape, or an escape for no character. -/
  | invalidEscape (sequence : String)
  /-- A char literal without a character. -/
  | emptyChar
  /-- A char literal with several characters. -/
  | overlongChar (literal : String)
  /-- A token that `production` cannot go on with. -/
  | unexpected (production : String) (expected : List Kind) (found : String)
  /-- A closing or separating token that `production` lacks. -/
  | missing (production : String) (expected : Kind) (found : String)
  /-- A generic argument that is not plain. -/
  | malformedGeneric (found : String)
  /-- An integer literal beyond 64 bits. -/
  | numberTooLarge (digits : String)
deriving DecidableEq, Repr

/-- A set of kinds as words: commas between them, and "or" before the last. -/
def describeKinds : List Kind → String
  | [] => "nothing"
  | [only] => only.describe
  | kinds =>
    ", ".intercalate (kinds.dropLast.map Kind.describe) ++ " or " ++
      (kinds.getLast?.map Kind.describe).getD ""

namespace Cause

/-- The name of a cause in reports. -/
def name : Cause → String
  | unrecognised .. => "UnrecognisedToken"
  | unterminatedString => "UnterminatedString"
  | unterminatedChar => "UnterminatedChar"
  | invalidEscape .. => "InvalidEscapeSequence"
  | emptyChar => "EmptyCharLiteral"
  | overlongChar .. => "OverlongCharLiteral"
  | unexpected .. => "UnexpectedToken"
  | missing .. => "MissingToken"
  | malformedGeneric .. => "MalformedGeneric"
  | numberTooLarge .. => "NumberParseError"

/-- The stage that finds a cause. -/
def category : Cause → Category
  | unrecognised .. | unterminatedString | unterminatedChar | invalidEscape .. | emptyChar
  | overlongChar .. => .lexical
  | unexpected .. | missing .. | malformedGeneric .. | numberTooLarge .. => .syntactic

/-- What is wrong, in words. -/
def message : Cause → String
  | unrecognised text => s!"unrecognised token: {Text.quoted text}"
  | unterminatedString => "unterminated string literal"
  | unterminatedChar => "unterminated char literal"
  | invalidEscape sequence => s!"invalid escape sequence: {Text.quoted sequence}"
  | emptyChar => "empty char literal"
  | overlongChar literal => s!"char literal with more than one character: {literal}"
  | unexpected production expected found =>
    s!"unexpected token in {production}: expected {describeKinds expected}, " ++
      s!"found {Text.quoted found}"
  | missing production expected found =>
    s!"missing {expected.describe} in {production}, found {Text.quoted found}"
  | malformedGeneric found => s!"malformed generic clause: {Text.quoted found} is not a plain type"
  | numberTooLarge digits => s!"error parsing number: {Text.quoted digits}"

/-- What to do about it, for all causes but a character that no token starts with. -/
def tip? : Cause → Option String
  | unrecognised .. => none
  | unterminatedString =>
    some "String literal is missing its closing `\"` before the end of the line"
  | unterminatedChar => some "Char literal is missing its closing `'` before the end of the line"
  | invalidEscape sequence =>
    some (s!"Invalid escape `{sequence}`, expected `\\x` with two or more hex digits, " ++
      "`\\u\x7b...\x7d`, two or three decimal digits or a single character")
  | emptyChar => some "Char literal must contain one character"
  | overlongChar literal =>
    some (s!"Char literal {literal} holds more than one character, " ++
      "use a string literal instead")
  | unexpected production expected found =>
    some s!"Unexpected `{found}` in {production}, expected {describeKinds expected}"
  | missing production expected found =>
    some s!"Expected {expected.describe} in {production}, found `{found}`, did you miss it?"
  | malformedGeneric found =>
    some (s!"Generic argument `{found}` must be a primitive, `string`, a name " ++
      "or an array type")
  | numberTooLarge digits => some s!"Invalid number: `{digits}`, is it above the integer limit?"

end Cause

/-- Something wrong at a place. -/
structure Diagnostic where
  cause : Cause
  span : Span
deriving DecidableEq, Repr

/-- The place of a diagnostic and its message, on one line. -/
def Diagnostic.display (d : Diagnostic) : String :=
  s!"{d.span.start.line}:{d.span.start.column}: {d.cause.message}"

/-- Something wrong with a part of a piece of text, from one byte of it up to
another. -/
structure Problem where
  cause : Cause
  first : Nat
  last : Nat
deriving DecidableEq, Repr

/-- The diagnostic for a problem of the piece `text` that stands at `p`. -/
def Problem.locate (p : Position) (text : List Char) (problem : Problem) : Diagnostic :=
  ⟨problem.cause, ⟨p.ahead problem.first text, p.ahead problem.last text⟩⟩

/-- The diagnostics of one run, in the order in which they were reported. -/
structure Diagnostics where
  reported : List Diagnostic := []
deriving DecidableEq, Repr

namespace Diagnostics

/-- Reports one more. -/
def push (ds : Diagnostics) (d : Diagnostic) : Diagnostics := ⟨ds.reported ++ [d]⟩

/-- Reports several more. -/
def extend (ds : Diagnostics) (more : List Diagnostic) : Diagnostics := ⟨ds.reported ++ more⟩

/-- How many were reported. -/
def size (ds : Diagnostics) : Nat := ds.reported.length

/-- None was reported. -/
def isEmpty (ds : Diagnostics) : Bool := ds.reported.isEmpty

/-- One of the given category was reported. -/
def has (ds : Diagnostics) (category : Category) : Bool :=
  ds.reported.any (·.cause.category == category)

/-- By the offset at which they start; those that start together stay in the order
in which they were reported. -/
def sorted (ds : Diagnostics) : List Diagnostic :=
  ds.reported.mergeSort (fun a b => a.span.start.offset ≤ b.span.start.offset)

end Diagnostics

end FrontEnd
