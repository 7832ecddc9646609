/-
A diagnostic with the source line it points at.

The rendered form names the cause, gives the place, shows the line without its
leading blanks, and draws a caret under the character at the place:

    error: UnexpectedToken (Unexpected …)
    -> main:20:9
       |
    20 | let a = #;
       | --------^

* `Diagnostic.render?` is that text.  It fails only when the diagnostic points into
  the middle of a character, or so far to the right that its caret has no room; one
  that points past the end of the source is shown without a line.
-/
import FrontEnd.Diagnostic.Basic
import FrontEnd.Source.Line
import FrontEnd.Unicode.WhiteSpace

namespace FrontEnd

/-- The text `s`, filled up on the left with `fill` to `width` characters. -/
def padLeft (fill : Char) (width : Nat) (s : String) : String :=
  String.ofList (List.replicate (width - s.length) fill) ++ s

/-- A blank at which a displayed line may be cut on the left. -/
def isIndent (c : Char) : Bool := c == ' ' || c == '\t'

/-- A line without the white space at its end. -/
def trimEnd (cs : List Char) : List Char := (cs.reverse.dropWhile Unicode.isWhiteSpace).reverse

namespace Diagnostic

/-- What is wrong, and where in `file`. -/
def heading (d : Diagnostic) (file : String) : String :=
  let what := match d.cause.tip? with
    | none => d.cause.name
    | some tip => s!"{d.cause.name} ({tip})"
  s!"error: {what}\n-> {file}:{d.span.start.line}:{d.span.start.column}\n"

/-- How many characters a caret and the dashes before it may take. -/
def caretRoom : Nat := 65535

/-- A caret under the place after `column` characters. -/
def caret? (column : Nat) : Option String :=
  if column < caretRoom then some (padLeft '-' (column + 1) "^") else none

/-- A source line with a caret under the place on it. -/
def excerpt? (line : Line) : Option String := do
  let number := toString line.number
  let (before, _) ← splitAtByte? line.offset line.text
  let indent := line.text.takeWhile isIndent
  let shown := String.ofList (trimEnd (line.text.dropWhile isIndent))
  let bar := padLeft ' ' (number.length + 2) "|"
  let caret ← caret? (before.length - indent.length)
  return s!"{bar}\n{number} | {shown}\n{bar} {caret}\n"

/-- The diagnostic as it is shown to a reader of `source`, which is called `file`. -/
def render? (d : Diagnostic) (source file : String) : Option String :=
  match lineAt? source d.span.start.offset with
  | none => some (d.heading file)
  | some line => (excerpt? line).map fun shown => d.heading file ++ shown

end Diagnostic

end FrontEnd
