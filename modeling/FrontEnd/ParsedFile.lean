/-
From a source text to a tree.

Parsing never fails: the tree may hold skipped stretches, and everything that is wrong is
among the diagnostics.

* `parseTokens?` reads a stream of tokens by the grammar of the language, and breaks off at a
  literal that no lexer makes;
* `parseTokens` does the same for the tokens of a text.
* `parseSource` cuts a text into tokens and reads them.
-/
import FrontEnd.Definition.Parser
import FrontEnd.Token.Tokenize

namespace FrontEnd

/-- The tree of a stream of tokens, and what is wrong with it in the order of recording.
The end of the input alone is an empty file.  There is nothing if reading breaks off. -/
def parseTokens? (stream : TokenStream) : Option (SourceFile × List Diagnostic) :=
  match Parser.sourceFile Grammar.standard (Parser.State.ofStream stream) with
  | .ok file s => if s.faults = [] then some (file, s.diagnostics.reported) else none
  | .error d s =>
    if s.faults = [] then
      some (⟨[], Span.empty Position.start⟩, s.diagnostics.reported ++ [d])
    else none

/-- The same for tokens of a text, at which reading never breaks off. -/
def parseTokens (stream : TokenStream) : SourceFile × List Diagnostic :=
  (parseTokens? stream).getD (⟨[], Span.empty Position.start⟩, [])

/-- All that parsing a text gives. -/
structure ParsedFile where
  file : SourceFile
  stream : TokenStream
  /-- Lexical and syntactic ones, by place. -/
  diagnostics : List Diagnostic

/-- Nothing is wrong. -/
def ParsedFile.isOk (p : ParsedFile) : Bool := p.diagnostics.isEmpty

/-- Cuts a text into tokens and reads them. -/
def parseSource (source : String) : ParsedFile :=
  let lexed := tokenize source
  let (file, syntactic) := parseTokens lexed.stream
  let diagnostics := ((({} : Diagnostics).extend lexed.diagnostics).extend syntactic).sorted
  { file, stream := lexed.stream, diagnostics }

end FrontEnd
