/-
Reading expressions.

An expression is a primary expression followed by operators.  Operators are read by
binding power: an operator goes on with the expression before it while it binds tighter
than the power asked for, and its right operand is read with its own power, so that
equal operators group to the left.

Two constructs start like a comparison: a call and a struct initialization with a
generic argument.  They are told apart by trying the generic clause and looking at the
token after it.

* `expression` reads an expression of a given power, `primary` one without operators.
* `initializer` reads the first value of a variable, where a struct initialization is
  allowed.
* `matchExpr` and `range` read constructs that also stand outside expressions.
-/
import FrontEnd.TypeExpr.Parser

namespace FrontEnd.Parser

/-- What is to be read: an expression without operators, or one whose operators bind
tighter than a power. -/
inductive Goal where
  | primary
  | above (power : BindingPower)
deriving DecidableEq, Repr

/-- The tokens that an expression can start with, as diagnostics list them. -/
def expressionStart : List Kind :=
  [.identifier, .number, .string, .char, .keyword .nullKw, .keyword .trueKw, .keyword .falseKw,
   .keyword .matchKw]

/-- The segments of a literal, the first of which stands at `p`, each with its span. -/
def placeSegments (p : Position) : List Literal.Segment → List LiteralPart
  | [] => []
  | segment :: rest =>
    let stop := p.along segment.raw.toList
    ⟨segment, ⟨p, stop⟩⟩ :: placeSegments stop rest

/-- The segments of the literal that a token is, each with its span.  The byte where the
opening quote stands is skipped unseen, so the text must have one that is a character. -/
def literalParts? (token : Token) (quote : Char) : Option (List LiteralPart) :=
  (Literal.scanString? quote token.text).map fun literal =>
    placeSegments (token.span.start.along [quote]) literal.segments

/-- The segments of the literal that a token is, or none of them if its text cannot be taken
apart. -/
def literalParts (token : Token) (quote : Char) : List LiteralPart :=
  (literalParts? token quote).getD []

/-- Takes apart the literal that a token is. -/
def takeApart (token : Token) (quote : Char) : Parser (List LiteralPart) := do
  if (literalParts? token quote).isNone then breakOff token
  return literalParts token quote

/-- Reads a string literal. -/
def stringLiteral : Parser StringLiteral := do
  let token ← expect .string "string_literal"
  return ⟨← takeApart token '"', token.span⟩

/-- Reads a char literal. -/
def charLiteral : Parser CharLiteral := do
  let token ← expect .char "char_literal"
  return ⟨← takeApart token '\'', token.span⟩

/-- Reads one of `null`, `true` and `false`. -/
def constant : Parser Expr := do
  let token ← advance
  match token.kind with
  | .keyword .nullKw => return .null token.span
  | .keyword .trueKw => return .bool true token.span
  | .keyword .falseKw => return .bool false token.span
  | _ =>
    let expected := [Keyword.nullKw, .trueKw, .falseKw].map Kind.keyword
    throw ⟨.unexpected "primary_expression" expected token.text, token.span⟩

/-- Reads `item` once, and again after every comma. -/
def commaSeparated (item : Parser α) : Parser (List α) := do
  let first ← item
  let others ← manyWhile (· = Symbol.comma) do
    let _ ← advance
    item
  return first :: others

/-- Whether the name that is next is followed by a generic clause and then by the given
mark. -/
def genericThen (g : Grammar) (mark : Symbol) : Parser Bool := do
  let found ← speculate do
    let _ ← advance
    let _ ← genericClause g
    return (← kind) == mark
  return found == some true

section

variable (g : Grammar)
-- the parser for the expressions inside an expression
variable (inner : Goal → Parser Expr)

/-- Reads arguments in parentheses, commas between them. -/
def argumentsOf : Parser (List Expr) := do
  let _ ← expect Symbol.openParen "arglist"
  let arguments ←
    if (← kind) = Symbol.closeParen then pure []
    else commaSeparated (inner (.above .default))
  let _ ← expect Symbol.closeParen "arglist"
  return arguments

/-- Reads a call, with or without a generic argument. -/
def callOf (hasGeneric : Bool) : Parser Call := do
  let function ← identifier "call_expression"
  let generic ← if hasGeneric then some <$> genericClause g else pure none
  let arguments ← argumentsOf inner
  return ⟨function, generic, arguments, ← spanFrom function.span.start⟩

/-- Reads a name, a dot and a member. -/
def fieldAccessOf : Parser Expr := do
  let object ← identifier "field_access"
  let _ ← expect Symbol.dot "field_access"
  let member ← inner .primary
  return .fieldAccess object member (← spanFrom object.span.start)

/-- Reads a name and an index in brackets. -/
def arrayAccessOf : Parser Expr := do
  let base ← identifier "array_access"
  let _ ← expect Symbol.openBracket "array_access"
  let index ← inner .primary
  let _ ← expect Symbol.closeBracket "array_access"
  return .arrayAccess base index (← spanFrom base.span.start)

/-- Reads an expression that starts with a name; the token after the name decides. -/
def namedOf : Parser Expr := do
  match ← peekKind 1 with
  | .symbol .openParen => return .call (← callOf g inner false)
  | .symbol .less =>
    if ← genericThen g .openParen then return .call (← callOf g inner true)
    else return .identifier (← identifier "identifier")
  | .symbol .dot => fieldAccessOf inner
  | .symbol .openBracket => arrayAccessOf inner
  | _ => return .identifier (← identifier "identifier")

/-- Reads two expressions with two dots between them, and an equals sign after the dots
if the second one belongs to the range. -/
def rangeOf : Parser Range := do
  let first ← inner (.above .default)
  let _ ← expect Symbol.dotDot "range"
  let inclusive ← skip? Symbol.assignment
  let last ← inner (.above .default)
  return ⟨first, inclusive, last, ⟨first.span.start, last.span.stop⟩⟩

/-- Reads numbers with bars between them; the bar after the first is needed, the others
are not. -/
def constantList : Parser ConstantList := do
  let start ← position
  let first ← number "constant_list"
  let _ ← expect Symbol.pipe "constant_list"
  let others ← manyWhile (· = .number) do
    let value ← number "constant_list"
    let _ ← skip? Symbol.pipe
    return value
  return ⟨first :: others, ← spanFrom start⟩

/-- Reads what an arm of a match is for; the next two tokens decide. -/
def matchKeyOf : Parser MatchKey := do
  match ← kind, ← peekKind 1 with
  | .identifier, .symbol .fatArrow => return .identifier (← identifier "match_key")
  | .number, .symbol .pipe => return .constants (← constantList)
  | .number, .symbol .fatArrow => return .number (← number "match_key")
  | .char, .symbol .fatArrow => return .char (← charLiteral)
  | _, _ => return .range (← rangeOf inner)

/-- Reads an arm of a match, with the comma that ends it. -/
def matchArmOf : Parser MatchArm := do
  let start ← position
  let key ← matchKeyOf inner
  let _ ← expect Symbol.fatArrow "match_arm"
  let value ← inner (.above .default)
  let _ ← expect Symbol.comma "match_arm"
  return ⟨key, value, ← spanFrom start⟩

/-- Reads a value and arms in braces. -/
def matchOf : Parser Match := do
  let word ← expect Keyword.matchKw "match_expression"
  let value ← inner (.above .default)
  let _ ← expect Symbol.openCurly "match_block"
  let arms ← manyWhile (fun k => k ≠ Symbol.closeCurly && k ≠ .eof) (matchArmOf inner)
  let _ ← expect Symbol.closeCurly "match_block"
  return ⟨value, arms, ← spanFrom word.span.start⟩

/-- Reads an expression without operators. -/
def primaryOf : Parser Expr := do
  match g.primary? (← kind) with
  | none => unexpected "primary_expression" expressionStart
  | some .number => return .number (← number "number")
  | some .char => return .char (← charLiteral)
  | some .string => return .string (← stringLiteral)
  | some .constant => constant
  | some .named => namedOf g inner
  | some .matching => return .matching (← matchOf inner)

/-- Reads an operator and its right operand, whose operators bind tighter than
`power`. -/
def binaryOf (left : Expr) (power : BindingPower) : Parser Expr := do
  match BinaryOperator.ofKind? (← kind) with
  | none => unexpected "binary_expression" []
  | some op =>
    let token ← advance
    let right ← inner (.above power)
    return .binary left ⟨op, token.span⟩ right ⟨left.span.start, right.span.stop⟩

/-- Reads the type that an expression is cast to.  A name with an angle bracket after it
is a generic type only if the clause closes; else the bracket is a comparison. -/
def castTarget : Parser TypeExpr := do
  if (← kind) = .identifier ∧ (← peekKind 1) = .symbol .less then
    let saved ← checkpoint
    match ← attempt (typeExpr g) with
    | .ok target => return target
    | .error d =>
      match d.cause with
      | .malformedGeneric _ => throw d
      | _ =>
        restore saved
        return .named (← identifier "type")
  else typeExpr g

/-- Reads `as` and a type. -/
def typecastOf (left : Expr) : Parser Expr := do
  let _ ← expect Keyword.asKw "typecast"
  let target ← castTarget g
  return .typecast left target (← spanFrom left.span.start)

/-- Goes on with an expression while the next operator binds tighter than `power`. -/
def operatorsOf (power : BindingPower) (left : Expr) : Parser Expr :=
  fix (fun more left => do
    match g.operator? (← kind) with
    | none => return left
    | some (next, form) =>
      if next.tighter power then
        match form with
        | .binary => more (← binaryOf inner left next)
        | .typecast => more (← typecastOf g left)
      else return left) left

/-- Reads what is asked for. -/
def goalOf : Goal → Parser Expr
  | .primary => primaryOf g inner
  | .above power => do operatorsOf g inner power (← primaryOf g inner)

end

variable (g : Grammar)

/-- Reads what is asked for. -/
def goal : Goal → Parser Expr := fix (goalOf g)

/-- Reads an expression whose operators bind tighter than `power`. -/
def expression (power : BindingPower) : Parser Expr := goal g (.above power)

/-- Reads an expression without operators. -/
def primary : Parser Expr := goal g .primary

/-- Reads a match. -/
def matchExpr : Parser Match := matchOf (goal g)

/-- Reads a range. -/
def range : Parser Range := rangeOf (goal g)

/-- Reads an operator and its right operand. -/
def binary (left : Expr) (power : BindingPower) : Parser Expr := binaryOf (goal g) left power

/-- Reads an expression that starts with a name. -/
def named : Parser Expr := namedOf g (goal g)

/-- Reads a name, a dot and a member. -/
def fieldAccess : Parser Expr := fieldAccessOf (goal g)

/-- Reads a name and an index in brackets. -/
def arrayAccess : Parser Expr := arrayAccessOf (goal g)

/-- Reads a value for a field, with the semicolon after it if there is one. -/
def fieldInit : Parser FieldInit := do
  let name ← identifier "field_init"
  let _ ← expect Symbol.colon "field_init"
  let value ← expression g .default
  let _ ← skip? Symbol.semicolon
  return ⟨name, value, ← spanFrom name.span.start⟩

/-- Reads a struct initialization. -/
def structInit : Parser StructInit := do
  let name ← identifier "struct_initialization"
  let generic ← genericClause? g
  let _ ← expect Symbol.openCurly "struct_initialization"
  let fields ← manyWhile (fun k => k ≠ Symbol.closeCurly && k ≠ .eof) (fieldInit g)
  let _ ← expect Symbol.closeCurly "struct_initialization"
  return ⟨name, generic, fields, ← spanFrom name.span.start⟩

/-- Whether a struct initialization is next: a name with a brace after it or after its
generic argument. -/
def structInitAhead : Parser Bool := do
  match ← kind, ← peekKind 1 with
  | .identifier, .symbol .openCurly => return true
  | .identifier, .symbol .less => genericThen g .openCurly
  | _, _ => return false

/-- Reads the first value of a variable. -/
def initializer : Parser Expr := do
  if ← structInitAhead g then return .structInit (← structInit g)
  else expression g .default

end FrontEnd.Parser
