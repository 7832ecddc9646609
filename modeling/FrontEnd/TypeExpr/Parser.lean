/-
Reading types.

The first token decides the form of a type: a star or an ampersand in front of another
type, a bracket, a reserved word or a name.  Two ampersands come as one token and are
two references.

* `typeExpr` reads a type.
* `genericClause` reads a generic argument in angle brackets, which must be plain.

Reading a type records nothing, so it can be tried and undone.
-/
import FrontEnd.Parser.Basic

namespace FrontEnd.Parser

/-- The tokens that a type can start with, as diagnostics list them. -/
def typeStart : List Kind :=
  [Symbol.star, .ampersand, .openBracket].map Kind.symbol ++
  [.identifier, .keyword .stringKw] ++
  Primitive.all.map (fun p => .keyword (.primitive p)) ++
  [.symbol .and]

/-- Reads a name. -/
def identifier (production : String) : Parser Identifier := do
  let token ← expect .identifier production
  return ⟨token.text, token.span⟩

/-- Reads an integer literal. -/
def number (production : String) : Parser Number := do
  let token ← expect .number production
  match Text.readNumber? 10 token.text.toList with
  | some value =>
    if value < Number.limit then return ⟨value, token.span⟩
    else throw ⟨.numberTooLarge token.text, token.span⟩
  | none => throw ⟨.numberTooLarge token.text, token.span⟩

/-- Reads the reserved word for a primitive type. -/
def primitiveType : Parser TypeExpr := do
  let token ← advance
  match token.kind.primitive? with
  | some p => return .primitive p token.span
  | none =>
    let expected := Primitive.all.map fun p => .keyword (.primitive p)
    throw ⟨.unexpected "primitive_type" expected token.text, token.span⟩

/-- Reads the reserved word `string`. -/
def stringType : Parser TypeExpr := do
  let token ← expect Keyword.stringKw "type"
  return .string token.span

section

-- the parser for the types inside a type
variable (inner : Parser TypeExpr)

/-- Reads a plain type in angle brackets. -/
def genericClauseOf : Parser TypeExpr := do
  let _ ← expect Symbol.less "generic"
  let argument ← inner
  if argument.isPlain then
    let _ ← expect Symbol.greater "generic"
    return argument
  else throw ⟨.malformedGeneric argument.nodeKind.name, argument.span⟩

/-- Reads a name and, if an angle bracket follows, its generic argument. -/
def namedTypeOf : Parser TypeExpr := do
  let name ← identifier "type"
  if (← kind) = Symbol.less then
    let argument ← genericClauseOf inner
    return .generic name argument (← spanFrom name.span.start)
  else return .named name

/-- Reads a pointer. -/
def pointerTypeOf : Parser TypeExpr := do
  let star ← expect Symbol.star "pointer_type"
  let pointee ← inner
  return .pointer pointee (← spanFrom star.span.start)

/-- Reads a reference. -/
def referenceTypeOf : Parser TypeExpr := do
  let mark ← expect Symbol.ampersand "ref_type"
  let referent ← inner
  return .reference referent (← spanFrom mark.span.start)

/-- Reads two references whose ampersands are one token. -/
def doubleReferenceTypeOf : Parser TypeExpr := do
  let marks ← expect Symbol.and "ref_type"
  let referent ← inner
  let outerStart := marks.span.start
  let innerStart := outerStart.next '&'
  let inside := TypeExpr.reference referent (← spanFrom innerStart)
  return .reference inside (← spanFrom outerStart)

/-- Reads an array type: an element type, a semicolon and a length, in brackets. -/
def arrayTypeOf : Parser TypeExpr := do
  let bracket ← expect Symbol.openBracket "array_type"
  let element ← inner
  let _ ← expect Symbol.semicolon "array_type"
  let length ← number "array_type"
  let _ ← expect Symbol.closeBracket "array_type"
  return .array element length (← spanFrom bracket.span.start)

end

variable (g : Grammar)

/-- Reads a type, given the parser for the types inside it. -/
def typeExprOf (inner : Parser TypeExpr) : Parser TypeExpr := do
  match g.type? (← kind) with
  | none => unexpected "type" typeStart
  | some .pointer => pointerTypeOf inner
  | some .reference => referenceTypeOf inner
  | some .doubleReference => doubleReferenceTypeOf inner
  | some .array => arrayTypeOf inner
  | some .string => stringType
  | some .named => namedTypeOf inner
  | some .primitive => primitiveType

/-- Reads a type. -/
def typeExpr : Parser TypeExpr := nest (typeExprOf g)

/-- Reads a plain type in angle brackets. -/
def genericClause : Parser TypeExpr := genericClauseOf (typeExpr g)

/-- Reads a generic argument if an angle bracket is next. -/
def genericClause? : Parser (Option TypeExpr) := do
  if (← kind) = Symbol.less then return some (← genericClause g) else return none

end FrontEnd.Parser
