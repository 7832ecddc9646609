/-
From a source text to its tokens, its trivia and its lexical diagnostics.

Lexing never fails: a character that no token starts with is kept as trivia, a
malformed literal is still a token, and both are reported.

* `TokenStream.ofLexemes` gives every piece its place.
* `tokenize` cuts a text and ends the tokens with one for the end of the input.
-/
import FrontEnd.Token.Lexeme

namespace FrontEnd

/-- The tokens and trivia of a text, and what is wrong with its pieces. -/
structure Lexed where
  stream : TokenStream
  /-- In the order in which the pieces stand. -/
  diagnostics : List Diagnostic
deriving DecidableEq, Repr

namespace Lexed

/-- A text without pieces that ends at `p`: only the end of the input. -/
def ended (p : Position) : Lexed := ⟨⟨[⟨.eof, "", Span.empty p⟩], []⟩, []⟩

/-- Puts the piece that stands at `p` in front of those after it. -/
def cons (p : Position) (lexeme : Lexeme) (after : Lexed) : Lexed :=
  let text := String.ofList lexeme.text
  let span : Span := ⟨p, p.after lexeme.text⟩
  let stream := match lexeme.kind with
    | .token kind => { after.stream with tokens := ⟨kind, text, span⟩ :: after.stream.tokens }
    | .trivia kind => { after.stream with trivia := ⟨kind, text, span⟩ :: after.stream.trivia }
  ⟨stream, lexeme.problems.map (·.locate p lexeme.text) ++ after.diagnostics⟩

/-- Pieces that stand one after the other, the first of them at `p`. -/
def ofLexemes (p : Position) : List Lexeme → Lexed
  | [] => ended p
  | lexeme :: lexemes => cons p lexeme (ofLexemes (p.after lexeme.text) lexemes)

end Lexed

/-- Splits a source text into tokens and trivia. -/
def tokenize (source : String) : Lexed :=
  Lexed.ofLexemes Position.start (lexemes source.toList)

end FrontEnd
