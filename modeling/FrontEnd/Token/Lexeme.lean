/-
Cutting a text into pieces.

A table of rules is tried in order on the text still to be cut, and the first rule
that matches a non-empty run of its leading characters decides the next piece.  A
character that no rule matches is a piece of its own.  Longer marks stand before the
marks they start with.

* `Rule.match?` is the run that a rule matches, `Rule.table` the order of trial.
* `Lexeme.first` is the first piece of a text, `lexemes` are all of them.

A piece has at least one character, so the length of the text is the measure of the
loop.  A lexeme does not know where it stands: places are added by `tokenize`.
-/
import FrontEnd.Literal.Scan
import FrontEnd.Unicode.Identifier
import FrontEnd.Unicode.WhiteSpace

namespace FrontEnd

/-- The kinds of pieces that a text is cut into. -/
inductive PieceKind where
  | token (kind : Kind)
  | trivia (kind : TriviaKind)
deriving DecidableEq, Repr

/-- A piece of text, without its place. -/
structure Lexeme where
  kind : PieceKind
  text : List Char
  problems : List Problem := []
deriving DecidableEq, Repr

/-- What a piece can start with. -/
inductive Rule where
  | whitespace | lineComment | blockComment | word | number | string | char
  | symbol (s : Symbol)
deriving DecidableEq, Repr

/-- A character that a name can start with. -/
def startsWord (c : Char) : Bool := c == '_' || Unicode.isXidStart c

/-- A character that a name can go on with. -/
def continuesWord (c : Char) : Bool := c == '_' || Unicode.isXidContinue c

/-- A character of a block comment between its delimiters: an ASCII letter or a
space. -/
def inBlockComment (c : Char) : Bool := c.isAlpha || c == ' '

/-- The leading characters that satisfy `p`, if there are any. -/
def leading? (p : Char → Bool) (cs : List Char) : Option (List Char) :=
  match cs.takeWhile p with
  | [] => none
  | run => some run

namespace Rule

/-- The run of leading characters that a rule matches.  Of a literal only the opening
quote is matched. -/
def match? : Rule → List Char → Option (List Char)
  | whitespace, cs => leading? Unicode.isWhiteSpace cs
  | lineComment, '/' :: '/' :: cs => some ('/' :: '/' :: cs.takeWhile (· != '\n'))
  | blockComment, '/' :: '*' :: cs =>
    (leading? inBlockComment cs).bind fun run =>
      if ['*', '/'].isPrefixOf (cs.drop run.length) then
        some ('/' :: '*' :: (run ++ ['*', '/']))
      else none
  | word, c :: cs => if startsWord c then some (c :: cs.takeWhile continuesWord) else none
  | number, cs => leading? Text.isDecimal cs
  | string, '"' :: _ => some ['"']
  | char, '\'' :: _ => some ['\'']
  | symbol s, cs =>
    let spelling := s.spelling.toList
    if spelling.isPrefixOf cs then some spelling else none
  | _, _ => none

/-- The rules in the order in which they are tried. -/
def table : List Rule :=
  [whitespace, lineComment, blockComment, word, number, string, char] ++
  [Symbol.colonColon, .colon, .fatArrow, .equals, .assignment, .notEquals, .shiftLeft,
   .lessEquals, .less, .shiftRight, .greaterEquals, .greater, .or, .pipe, .and, .ampersand,
   .caret, .dotDot, .dot, .openBracket, .closeBracket, .openCurly, .closeCurly, .openParen,
   .closeParen, .semicolon, .comma, .plus, .dash, .star, .slash, .percent].map symbol

/-- The first rule that matches, and the run it matches. -/
def first? (cs : List Char) : Option (Rule × List Char) :=
  table.findSome? fun rule => (rule.match? cs).map fun matched => (rule, matched)

end Rule

namespace Lexeme

/-- A piece without problems that is a token. -/
def token (kind : Kind) (text : List Char) : Lexeme := { kind := .token kind, text }

/-- A piece without problems that is trivia. -/
def trivia (kind : TriviaKind) (text : List Char) : Lexeme := { kind := .trivia kind, text }

/-- The problem of a char literal that is complete but does not denote exactly one
character. -/
def sizeProblems (l : Literal) : List Problem :=
  if l.terminated then
    match l.size with
    | 0 => [⟨.emptyChar, 0, byteLength l.raw⟩]
    | 1 => []
    | _ => [⟨.overlongChar (String.ofList l.raw), 0, byteLength l.raw⟩]
  else []

/-- The string literal whose opening quote is followed by `cs`. -/
def stringLiteral (cs : List Char) : Lexeme :=
  let l := Literal.scan '"' cs
  { kind := .token .string, text := l.raw, problems := l.problems }

/-- The char literal whose opening quote is followed by `cs`. -/
def charLiteral (cs : List Char) : Lexeme :=
  let l := Literal.scan '\'' cs
  { kind := .token .char, text := l.raw, problems := l.problems ++ sizeProblems l }

/-- A character that no rule matches. -/
def skipped (c : Char) : Lexeme :=
  { kind := .trivia .skipped, text := [c]
    problems := [⟨.unrecognised c.toString, 0, c.utf8Size⟩] }

/-- The first piece of the text `c :: cs`. -/
def first (c : Char) (cs : List Char) : Lexeme :=
  match Rule.first? (c :: cs) with
  | none => skipped c
  | some (rule, matched) =>
    match rule with
    | .whitespace => trivia .whitespace matched
    | .lineComment =>
      -- a third slash makes it a doc comment
      let kind := if (matched.drop 2).head? = some '/' then .doc else .line
      trivia (.comment kind) matched
    | .blockComment => trivia (.comment .block) matched
    | .word => token (.ofWord (String.ofList matched)) matched
    | .number => token .number matched
    | .string => stringLiteral cs
    | .char => charLiteral cs
    | .symbol s => token s matched

end Lexeme

/-- The pieces of a text, in order. -/
def lexemes (text : List Char) : List Lexeme :=
  match text with
  | [] => []
  | c :: cs =>
    let lexeme := Lexeme.first c cs
    lexeme :: lexemes (cs.drop (lexeme.text.length - 1))
termination_by text.length
decreasing_by
  rw [List.length_drop]
  exact Nat.lt_succ_of_le (Nat.sub_le _ _)

end FrontEnd
