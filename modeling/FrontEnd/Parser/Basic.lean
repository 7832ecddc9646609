/-
Parsers of tokens.

A `Parser` reads tokens from a state and either gives a value or fails with a
diagnostic; in both cases the state says how far it came.  The state keeps the tokens
on both sides of the place reached, the number of open braces, how far comments have
been handed out, the diagnostics recorded so far, and where reading has broken off.

* `advance` consumes a token, `expect` one of a given kind; neither moves past the end
  of the input.
* `breakOff` is for a token that no lexer makes: it is no failure that could be caught, and a
  run that has come there gives nothing.
* `speculate` tries a parser and comes back, `attempt` makes its failure a value.
* `fix` ties a recursive parser.  A parser may call itself only after a token has been
  consumed, so the number of tokens left is the measure; a call that has consumed none
  fails.  All other repetition is built from it.
-/
import FrontEnd.Diagnostic.Basic
import FrontEnd.Parser.Grammar
import FrontEnd.Stmt.Basic

namespace FrontEnd

/-- A place among tokens, as it can be saved and returned to. -/
structure TokenCursor where
  /-- The tokens before the place, the nearest first. -/
  consumed : List Token := []
  /-- The tokens after the place, without the end of the input. -/
  rest : List Token
  /-- Opening braces consumed and not yet closed. -/
  depth : Nat := 0
  /-- The byte offset up to which comments have been handed out. -/
  commentsTaken : Nat := 0
deriving DecidableEq, Repr

/-- The state of a parser. -/
structure Parser.State extends TokenCursor where
  /-- The end of the input. -/
  eof : Token
  trivia : List Trivia
  diagnostics : Diagnostics := {}
  /-- Literals whose text could not be taken apart.  Reading breaks off at the first of them:
  what a run does after that counts for nothing. -/
  faults : List Token := []
  eof_kind : eof.kind = .eof

/-- A reader of tokens that gives a value or fails with a diagnostic. -/
abbrev Parser := EStateM Diagnostic Parser.State

namespace Parser

namespace State

/-- The start of a stream.  A stream without its end of the input gets one where its
last token ends. -/
def ofStream (stream : TokenStream) : State :=
  match stream.tokens.getLast? with
  | none =>
    { rest := [], trivia := stream.trivia, eof := ⟨.eof, "", Span.empty Position.start⟩
      eof_kind := rfl }
  | some last =>
    if h : last.kind = .eof then
      { rest := stream.tokens.dropLast, trivia := stream.trivia, eof := last, eof_kind := h }
    else
      { rest := stream.tokens, trivia := stream.trivia
        eof := ⟨.eof, "", Span.empty last.span.stop⟩, eof_kind := rfl }

/-- The token `n` places ahead; the end of the input beyond the last one. -/
def peek (s : State) (n : Nat) : Token := s.rest.getD n s.eof

/-- The next token. -/
def current (s : State) : Token := s.peek 0

/-- How many tokens have been consumed. -/
def index (s : State) : Nat := s.consumed.length

/-- Where the next token starts. -/
def position (s : State) : Position := s.current.span.start

/-- Where the last consumed token ends; before any, where the first one starts. -/
def previousEnd (s : State) : Position :=
  match s.consumed with
  | [] => s.position
  | token :: _ => token.span.stop

/-- From `start` up to the end of the last consumed token, or nothing at `start` if
that lies before it. -/
def spanFrom (s : State) (start : Position) : Span :=
  if s.previousEnd.offset < start.offset then Span.empty start else ⟨start, s.previousEnd⟩

/-- Consumes the next token, unless it is the end of the input. -/
def advance (s : State) : State :=
  match s.rest with
  | [] => s
  | token :: rest =>
    let depth := match token.kind with
      | .symbol .openCurly => s.depth + 1
      | .symbol .closeCurly => s.depth - 1
      | _ => s.depth
    if token.kind = .eof then s else { s with consumed := token :: s.consumed, rest, depth }

/-- Returns to a saved place; what was recorded since then stays. -/
def restore (s : State) (cursor : TokenCursor) : State := { s with toTokenCursor := cursor }

/-- The diagnostic for a next token that `production` cannot go on with. -/
def unexpected (s : State) (production : String) (expected : List Kind) : Diagnostic :=
  ⟨.unexpected production expected s.current.display, s.current.span⟩

/-- The diagnostic for a next token that is not of the kind that `production` needs.
A token that closes or separates is reported as missing. -/
def notFound (s : State) (production : String) : Kind → Diagnostic
  | .symbol .semicolon => missing .semicolon
  | .symbol .colon => missing .colon
  | .symbol .comma => missing .comma
  | .symbol .fatArrow => missing .fatArrow
  | .symbol .closeParen => missing .closeParen
  | .symbol .closeBracket => missing .closeBracket
  | .symbol .closeCurly => missing .closeCurly
  | .symbol .greater => missing .greater
  | kind => s.unexpected production [kind]
where
  missing (symbol : Symbol) : Diagnostic :=
    ⟨.missing production symbol s.current.display, s.current.span⟩

/-- The offset from which on comments before the next token have not been handed out. -/
def commentsFrom (s : State) : Nat :=
  let first := match s.consumed with
    | [] => 0
    | token :: _ => token.span.stop.offset
  max first s.commentsTaken

/-- The comments between the last consumed token and the next one that have not been
handed out before. -/
def comments (s : State) : List Comment :=
  (Trivia.between s.commentsFrom s.position.offset s.trivia).filterMap Comment.ofTrivia?

end State

/-- The next token. -/
def current : Parser Token := return (← get).current

/-- The kind of the next token. -/
def kind : Parser Kind := return (← get).current.kind

/-- The kind of the token `n` places ahead. -/
def peekKind (n : Nat) : Parser Kind := return ((← get).peek n).kind

/-- Where the next token starts. -/
def position : Parser Position := return (← get).position

/-- From `start` up to the end of the last consumed token. -/
def spanFrom (start : Position) : Parser Span := return (← get).spanFrom start

/-- Consumes a token, unless it is the end of the input, and gives it. -/
def advance : Parser Token := do
  let token ← current
  modify State.advance
  return token

/-- Fails because `production` cannot go on with the next token. -/
def unexpected (production : String) (expected : List Kind) : Parser α := do
  throw ((← get).unexpected production expected)

/-- Consumes a token of the given kind. -/
def expect (expected : Kind) (production : String) : Parser Token := do
  if (← kind) = expected then advance
  else throw ((← get).notFound production expected)

/-- Consumes a token of the given kind if it is next. -/
def skip? (wanted : Kind) : Parser Bool := do
  if (← kind) = wanted then
    let _ ← advance
    return true
  else return false

/-- The place reached. -/
def checkpoint : Parser TokenCursor := return (← get).toTokenCursor

/-- Returns to a place. -/
def restore (cursor : TokenCursor) : Parser Unit := modify (·.restore cursor)

/-- Replaces the number of open braces. -/
def setDepth (depth : Nat) : Parser Unit := modify fun s => { s with depth }

/-- Records a diagnostic and goes on. -/
def record (d : Diagnostic) : Parser Unit :=
  modify fun s => { s with diagnostics := s.diagnostics.push d }

/-- Breaks off at a literal whose text cannot be taken apart. -/
def breakOff (literal : Token) : Parser Unit :=
  modify fun s => { s with faults := s.faults ++ [literal] }

/-- Hands out the comments before the next token, each of them once. -/
def takeComments : Parser (List Comment) := do
  let s ← get
  if s.commentsFrom < s.position.offset then
    set { s with commentsTaken := s.position.offset }
    return s.comments
  else return []

/-- Runs a parser and gives its failure as a value; the state is where it stopped. -/
def attempt (p : Parser α) : Parser (Except Diagnostic α) := fun s =>
  match p s with
  | .ok a s' => .ok (.ok a) s'
  | .error d s' => .ok (.error d) s'

/-- Runs a parser and comes back to where it started, whether it failed or not. -/
def speculate (p : Parser α) : Parser (Option α) := do
  let saved ← checkpoint
  let result ← attempt p
  restore saved
  return result.toOption

/-- Ties a recursive parser: `body` is given the parser itself.  A call of it that has
consumed no token fails. -/
def fix (body : (α → Parser β) → α → Parser β) (a : α) : Parser β := fun s =>
  body (fun b s' =>
    if s'.rest.length < s.rest.length then fix body b s'
    else .error (s'.unexpected "source_file" []) s') a s
termination_by s => s.rest.length

/-- Ties a recursive parser without an argument. -/
def nest (body : Parser β → Parser β) : Parser β :=
  fix (fun self _ => body (self ())) ()

/-- Reads items for as long as the kind of the next token is `wanted`. -/
def manyWhile (wanted : Kind → Bool) (item : Parser α) : Parser (List α) :=
  nest fun more => do
    if wanted (← kind) then return (← item) :: (← more) else return []

end Parser

end FrontEnd
