/-
Reading statements and blocks.

A statement that cannot be read does not spoil the block around it: the failure is
recorded, tokens are skipped up to a place where a statement can start again, and the
skipped stretch is kept as a statement of its own.  A missing semicolon before the next
statement skips nothing.  A block without its closing brace is recorded and kept.

* `statement` reads a statement, `block` a block.
* `skipInBlock` skips to where a statement can start again.
* `recoverStatement` turns a failure into a statement.
-/
import FrontEnd.Expr.Parser

namespace FrontEnd.Parser

/-- The tokens that a statement can start with, as diagnostics list them. -/
def statementStart : List Kind :=
  [Keyword.letKw, .returnKw, .ifKw, .whileKw, .forKw, .breakKw, .continueKw, .matchKw].map
    Kind.keyword ++ [.identifier]

/-- A token of this kind can be the first of a statement. -/
def beginsStatement (kind : Kind) : Bool := kind.startsStatement || kind == .identifier

/-- Skips tokens in a block whose statements stand inside `depth` braces.  Skipping ends
after a semicolon of the block, before its closing brace, and before a reserved word that
starts a statement or a definition, unless it is the token with the index `start`. -/
def skipTokensInBlock (depth start : Nat) : Parser Unit :=
  nest fun more => do
    let s ← get
    let kind := s.current.kind
    if kind = .eof ∨ s.depth < depth then return ()
    else if s.depth = depth ∧ kind = Symbol.semicolon then
      let _ ← advance
    else if s.depth = depth ∧ (kind = Symbol.closeCurly ∨
        ((kind.startsStatement ∨ kind.startsDefinition) ∧ start < s.index)) then return ()
    else
      let _ ← advance
      more

/-- Skips to where a statement can start again.  At least one token is skipped from the
index `start` on, unless it is a closing brace. -/
def skipInBlock (depth start : Nat) : Parser Unit := do
  skipTokensInBlock depth start
  let s ← get
  if s.index = start ∧ s.current.kind ≠ .eof ∧ s.current.kind ≠ Symbol.closeCurly then
    let _ ← advance

/-- Records that the statement which starts at `position`, with the token of the index
`start`, cannot be read, and skips the rest of it. -/
def recoverStatement (d : Diagnostic) (depth start : Nat) (position : Position) :
    Parser Stmt := do
  let s ← get
  -- a missing semicolon before the next statement ends the broken one in place
  let lacksSemicolon : Bool := match d.cause with
    | .missing _ (.symbol .semicolon) _ => true
    | _ => false
  record d
  if lacksSemicolon ∧ start < s.index ∧ s.depth = depth ∧ beginsStatement s.current.kind then
    return .error (← spanFrom position)
  else
    skipInBlock depth start
    return .error (← spanFrom position)

/-- Reads `break` and a semicolon. -/
def breakStmt : Parser Stmt := do
  let word ← expect Keyword.breakKw "break"
  let _ ← expect Symbol.semicolon "break"
  return .breakLoop (← spanFrom word.span.start)

/-- Reads `continue` and a semicolon. -/
def continueStmt : Parser Stmt := do
  let word ← expect Keyword.continueKw "continue"
  let _ ← expect Symbol.semicolon "continue"
  return .continueLoop (← spanFrom word.span.start)

/-- Reads the marker `mut` if it is next, and gives its span. -/
def mutMarker? : Parser (Option Span) := do
  if (← kind) = Keyword.mutKw then return some (← advance).span else return none

/-- What an expression that cannot be assigned to is called in a diagnostic. -/
def targetText : Expr → String
  | .call c => c.function.name ++ "(...)"
  | .fieldAccess object _ _ => object.name ++ "."
  | e => e.toNode.kind.name

/-- The diagnostic for an expression that cannot be assigned to. -/
def invalidTarget (target : Expr) (production : String) : Diagnostic :=
  ⟨.unexpected production [.identifier] (targetText target), target.span⟩

/-- Reads the semicolon after an assignment and gives the assignment. -/
def assignmentTo (target value : Expr) (start : Position) : Parser Stmt := do
  let production := match target with
    | .fieldAccess .. => "field_assignment"
    | .arrayAccess .. => "array_assignment"
    | _ => "variable_assignment"
  let _ ← expect Symbol.semicolon production
  let span ← spanFrom start
  match target with
  | .identifier name => return .assignment name value span
  | .fieldAccess object member _ =>
    match member with
    | .identifier _ | .arrayAccess .. => return .fieldAssignment object member value span
    | _ => throw (invalidTarget member "field_assignment")
  | .arrayAccess base index _ => return .arrayAssignment (.identifier base) index value span
  | _ => throw (invalidTarget target "variable_assignment")

section

variable (g : Grammar)

/-- Reads `return` and a value. -/
def returnStmt : Parser Stmt := do
  let word ← expect Keyword.returnKw "return_statement"
  let value ← expression g .default
  let _ ← expect Symbol.semicolon "return_statement"
  return .returning value (← spanFrom word.span.start)

/-- Reads a new variable: a name, its type and, after an equals sign, its first value. -/
def declarationStmt : Parser Stmt := do
  let word ← expect Keyword.letKw "variable_declaration"
  let mutability ← mutMarker?
  let name ← identifier "variable_declaration"
  let _ ← expect Symbol.colon "variable_declaration"
  let type ← typeExpr g
  let value ← if ← skip? Symbol.assignment then some <$> initializer g else pure none
  let _ ← expect Symbol.semicolon "variable_declaration"
  return .declaration mutability name type value (← spanFrom word.span.start)

/-- Reads a statement that starts with a name.  The target is read first, and the token
after it decides between an assignment and a call. -/
def namedStmt : Parser Stmt := do
  let start ← position
  let target ← primary g
  match ← kind with
  | .symbol .assignment =>
    let _ ← advance
    let value ← expression g .default
    assignmentTo target value start
  | .symbol .openBracket =>
    let _ ← advance
    let index ← primary g
    let _ ← expect Symbol.closeBracket "array_assignment"
    let _ ← expect Symbol.assignment "array_assignment"
    let value ← expression g .default
    let _ ← expect Symbol.semicolon "array_assignment"
    return .arrayAssignment target index value (← spanFrom start)
  | _ =>
    match target with
    | .call c =>
      let _ ← expect Symbol.semicolon "call_statement"
      return .call c (← spanFrom start)
    | _ =>
      unexpected "statement" ([Symbol.assignment, .openBracket, .openParen].map Kind.symbol)

/-- Reads a match and a semicolon. -/
def matchStmt : Parser Stmt := do
  let start ← position
  let m ← matchExpr g
  let _ ← expect Symbol.semicolon "match_statement"
  return .matching m (← spanFrom start)

/-- Reads what a `for` runs over: a name right before a brace, or a range. -/
def iterable : Parser Expr := do
  match ← kind, ← peekKind 1 with
  | .identifier, .symbol .openCurly => return .identifier (← identifier "for_statement")
  | _, _ => return .range (← range g)

-- the parser for the blocks inside a statement
variable (inner : Parser Block)

/-- Reads a condition, a block and, after `else`, another block. -/
def ifStmtOf : Parser Stmt := do
  let word ← expect Keyword.ifKw "if_statement"
  let condition ← expression g .default
  let ifBlock ← inner
  let elseBlock ← if ← skip? Keyword.elseKw then some <$> inner else pure none
  return .conditional condition ifBlock elseBlock (← spanFrom word.span.start)

/-- Reads a condition and a block. -/
def whileStmtOf : Parser Stmt := do
  let word ← expect Keyword.whileKw "while_statement"
  let condition ← expression g .default
  let body ← inner
  return .whileLoop condition body (← spanFrom word.span.start)

/-- Reads a name, what it runs over, and a block. -/
def forStmtOf : Parser Stmt := do
  let word ← expect Keyword.forKw "for_statement"
  let hasLet ← skip? Keyword.letKw
  let binding ← identifier "for_statement"
  let _ ← expect Keyword.inKw "for_statement"
  let values ← iterable g
  let body ← inner
  return .forLoop hasLet binding values body (← spanFrom word.span.start)

/-- Reads a statement, given the parser for the blocks inside it. -/
def statementOf : Parser Stmt := do
  match g.statement? (← kind) with
  | none => unexpected "statement" statementStart
  | some .returning => returnStmt g
  | some .declaration => declarationStmt g
  | some .conditional => ifStmtOf g inner
  | some .whileLoop => whileStmtOf g inner
  | some .forLoop => forStmtOf g inner
  | some .breakLoop => breakStmt
  | some .continueLoop => continueStmt
  | some .matching => matchStmt g
  | some .named => namedStmt g

/-- Reads a statement, or skips what is none, in a block whose statements stand inside
`depth` braces; gives it with the comments after it. -/
def blockItemOf (depth : Nat) : Parser (List Stmt) := do
  let s ← get
  let stmt ← match ← attempt (statementOf g inner) with
    | .ok stmt => pure stmt
    | .error d => recoverStatement d depth s.index s.position
  return stmt :: (← takeComments).map Stmt.comment

/-- Reads a block, given the parser for the blocks inside its statements. -/
def blockOf : Parser Block := do
  let brace ← expect Symbol.openCurly "block"
  let depth := (← get).depth
  let leading ← takeComments
  let items ← manyWhile
    (fun k => k ≠ Symbol.closeCurly && k ≠ .eof && !k.startsDefinition)
    (blockItemOf g inner depth)
  match ← attempt (expect Symbol.closeCurly "block") with
  | .ok _ => pure ()
  | .error d =>
    record d
    setDepth (depth - 1)
  return ⟨leading.map Stmt.comment ++ items.flatten, ← spanFrom brace.span.start⟩

end

variable (g : Grammar)

/-- Reads a block. -/
def block : Parser Block := nest (blockOf g)

/-- Reads a statement. -/
def statement : Parser Stmt := statementOf g (block g)

/-- Reads an `if` statement. -/
def ifStmt : Parser Stmt := ifStmtOf g (block g)

/-- Reads a `while` statement. -/
def whileStmt : Parser Stmt := whileStmtOf g (block g)

/-- Reads a `for` statement. -/
def forStmt : Parser Stmt := forStmtOf g (block g)

end FrontEnd.Parser
