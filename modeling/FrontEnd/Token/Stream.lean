/-
Tokens, the text between them, and streams of both.

A `Token` is a piece of source text that the grammar sees, a `Trivia` a piece
that it does not: blanks, comments and characters that belong to no token.  A
`TokenStream` keeps the two apart, each in source order.

* `TokenStream.triviaIn` and `TokenStream.triviaBefore` look up trivia by place.
* `TokenStream.reconstruct` puts all pieces back in the order of their offsets.
-/
import FrontEnd.Source.Position
import FrontEnd.Token.Kind

namespace FrontEnd

/-- A piece of source text that the grammar sees. -/
structure Token where
  kind : Kind
  /-- The source text of the token. -/
  text : String
  span : Span
deriving DecidableEq, Repr

namespace Token

/-- How a token reads in a diagnostic. -/
def display (t : Token) : String :=
  match t.kind with
  | .eof => "end of input"
  | _ => t.text

/-- The line of a token in a dump: its place, its kind and, where the kind does
not fix it, its text. -/
def dump (t : Token) : String :=
  let head := s!"{t.span.start.line}:{t.span.start.column} {t.kind.name}"
  match t.kind with
  | .string | .char | .identifier | .number => s!"{head} ({t.text})"
  | _ => head

end Token

/-- What a comment is written with. -/
inductive CommentKind where
  /-- Two slashes, up to the end of the line. -/
  | line
  /-- Three slashes, up to the end of the line. -/
  | doc
  /-- Between a slash with a star and a star with a slash. -/
  | block
deriving DecidableEq, Repr

/-- The kinds of text between tokens. -/
inductive TriviaKind where
  | whitespace
  | comment (kind : CommentKind)
  /-- A character that belongs to no token. -/
  | skipped
deriving DecidableEq, Repr

namespace TriviaKind

/-- The name of a kind in dumps. -/
def name : TriviaKind → String
  | whitespace => "Whitespace"
  | comment .line => "LineComment"
  | comment .doc => "DocComment"
  | comment .block => "BlockComment"
  | skipped => "Skipped"

/-- The form of a comment. -/
def comment? : TriviaKind → Option CommentKind
  | comment kind => some kind
  | _ => none

end TriviaKind

/-- A piece of source text between tokens. -/
structure Trivia where
  kind : TriviaKind
  /-- The source text of the piece. -/
  text : String
  span : Span
deriving DecidableEq, Repr

/-- The pieces of a source text: its tokens and the trivia between them, both in
source order. -/
structure TokenStream where
  tokens : List Token
  trivia : List Trivia
deriving DecidableEq, Repr

/-- The pieces of `trivia`, which is in source order, that start at the offset
`first` or later, and before `last`. -/
def Trivia.between (first last : Nat) (trivia : List Trivia) : List Trivia :=
  (trivia.dropWhile (·.span.start.offset < first)).takeWhile (·.span.start.offset < last)

namespace TokenStream

/-- The trivia that start at the offset `first` or later, and before `last`. -/
def triviaIn (s : TokenStream) (first last : Nat) : List Trivia :=
  Trivia.between first last s.trivia

/-- The trivia between the token with the given index and the one before it. -/
def triviaBefore (s : TokenStream) (index : Nat) : List Trivia :=
  match s.tokens[index]? with
  | none => []
  | some token =>
    let first := match index with
      | 0 => 0
      | i + 1 => (s.tokens[i]?.map (·.span.stop.offset)).getD 0
    s.triviaIn first token.span.start.offset

/-- The comments. -/
def comments (s : TokenStream) : List Trivia := s.trivia.filter (·.kind.comment?.isSome)

/-- All pieces, by the offset at which they start; of two that start together a
token comes first. -/
def reconstruct (s : TokenStream) : String :=
  let pieces := s.tokens.map (fun t => (t.span.start.offset, t.text)) ++
    s.trivia.map (fun t => (t.span.start.offset, t.text))
  String.join ((pieces.mergeSort (fun a b => a.1 ≤ b.1)).map (·.2))

end TokenStream

end FrontEnd
