/-
Expressions.

The shape of the tree is the precedence of the operators: nothing in it stands for a
pair of parentheses.  An expression that starts with a name is a call, an access or
the name alone.  Ranges and struct initializations are expressions by type, but stand
only where the grammar puts them: a range as a key of a match or after `in`, a struct
initialization as the first value of a variable.

* `Expr.span` is what an expression covers.
* `Expr.toNode` is the uniform view of an expression.
-/
import FrontEnd.Literal.Scan
import FrontEnd.TypeExpr.Basic

namespace FrontEnd

/-- Operators with two operands. -/
inductive BinaryOperator where
  | or | and | equals | notEquals | less | lessEquals | greater | greaterEquals
  | bitOr | bitXor | bitAnd | shiftLeft | shiftRight
  | add | subtract | multiply | divide | modulo
deriving DecidableEq, Repr

namespace BinaryOperator

/-- The mark that is written for an operator. -/
def symbol : BinaryOperator → Symbol
  | or => .or
  | and => .and
  | equals => .equals
  | notEquals => .notEquals
  | less => .less
  | lessEquals => .lessEquals
  | greater => .greater
  | greaterEquals => .greaterEquals
  | bitOr => .pipe
  | bitXor => .caret
  | bitAnd => .ampersand
  | shiftLeft => .shiftLeft
  | shiftRight => .shiftRight
  | add => .plus
  | subtract => .dash
  | multiply => .star
  | divide => .slash
  | modulo => .percent

/-- The operator that a token of the given kind is. -/
def ofKind? : Kind → Option BinaryOperator
  | .symbol .or => some or
  | .symbol .and => some and
  | .symbol .equals => some equals
  | .symbol .notEquals => some notEquals
  | .symbol .less => some less
  | .symbol .lessEquals => some lessEquals
  | .symbol .greater => some greater
  | .symbol .greaterEquals => some greaterEquals
  | .symbol .pipe => some bitOr
  | .symbol .caret => some bitXor
  | .symbol .ampersand => some bitAnd
  | .symbol .shiftLeft => some shiftLeft
  | .symbol .shiftRight => some shiftRight
  | .symbol .plus => some add
  | .symbol .dash => some subtract
  | .symbol .star => some multiply
  | .symbol .slash => some divide
  | .symbol .percent => some modulo
  | _ => none

/-- The text of an operator. -/
def spelling (op : BinaryOperator) : String := op.symbol.spelling

/-- An operator is recognised by its mark, and by no other. -/
theorem ofKind?_eq_some_iff {kind : Kind} {op : BinaryOperator} :
    ofKind? kind = some op ↔ kind = .symbol op.symbol := by
  constructor
  · intro h
    unfold ofKind? at h
    split at h <;> simp_all <;> subst h <;> rfl
  · rintro rfl
    cases op <;> rfl

end BinaryOperator

/-- An operator where it stands. -/
structure Operator where
  op : BinaryOperator
  span : Span
deriving DecidableEq, Repr

/-- The uniform view of an operator. -/
def Operator.toNode (o : Operator) : Node :=
  { kind := .operator, span := o.span, text := some o.op.spelling }

/-- A segment of a quoted literal where it stands. -/
structure LiteralPart where
  segment : Literal.Segment
  span : Span
deriving DecidableEq, Repr

/-- The uniform view of a segment. -/
def LiteralPart.toNode (p : LiteralPart) : Node :=
  let kind := match p.segment with
    | .text _ => .stringContent
    | _ => .escapeSequence
  { kind, span := p.span, text := some (Text.quoted p.segment.raw) }

/-- A string literal. -/
structure StringLiteral where
  parts : List LiteralPart
  span : Span
deriving DecidableEq, Repr

namespace StringLiteral

/-- The characters that the literal stands for. -/
def value (l : StringLiteral) : String := Literal.decode (l.parts.map (·.segment))

/-- The uniform view of a string literal. -/
def toNode (l : StringLiteral) : Node :=
  { kind := .stringLiteral, span := l.span, children := l.parts.map (·.toNode) }

end StringLiteral

/-- A char literal. -/
structure CharLiteral where
  parts : List LiteralPart
  span : Span
deriving DecidableEq, Repr

namespace CharLiteral

/-- The character that the literal stands for, if it stands for exactly one. -/
def value? (l : CharLiteral) : Option Char :=
  match (Literal.decode (l.parts.map (·.segment))).toList with
  | [c] => some c
  | _ => none

/-- The uniform view of a char literal. -/
def toNode (l : CharLiteral) : Node :=
  { kind := .charLiteral, span := l.span, children := l.parts.map (·.toNode) }

end CharLiteral

/-- Numbers that share an arm of a match. -/
structure ConstantList where
  values : List Number
  span : Span
deriving DecidableEq, Repr

/-- The uniform view of a list of numbers. -/
def ConstantList.toNode (l : ConstantList) : Node :=
  { kind := .constantList, span := l.span, children := l.values.map (·.toNode) }

mutual

/-- An expression. -/
inductive Expr where
  | binary (left : Expr) (operator : Operator) (right : Expr) (span : Span)
  | number (number : Number)
  | char (literal : CharLiteral)
  | string (literal : StringLiteral)
  | null (span : Span)
  | bool (value : Bool) (span : Span)
  | call (call : Call)
  /-- A member of a named object; the member is again an access, a call or a name. -/
  | fieldAccess (object : Identifier) (member : Expr) (span : Span)
  | identifier (name : Identifier)
  | matching (m : Match)
  | typecast (value : Expr) (target : TypeExpr) (span : Span)
  | arrayAccess (base : Identifier) (index : Expr) (span : Span)
  | structInit (init : StructInit)
  | range (range : Range)

/-- A call, with its generic argument if it has one. -/
structure Call where
  function : Identifier
  generic : Option TypeExpr
  arguments : List Expr
  span : Span

/-- A choice by the first key that fits a value. -/
structure Match where
  value : Expr
  arms : List MatchArm
  span : Span

/-- A key and the value of a match for it. -/
structure MatchArm where
  key : MatchKey
  value : Expr
  span : Span

/-- What an arm of a match is for. -/
inductive MatchKey where
  /-- Names the matched value and fits all of them. -/
  | identifier (name : Identifier)
  | constants (constants : ConstantList)
  | number (number : Number)
  | char (literal : CharLiteral)
  | range (range : Range)

/-- The values from `first` to `last`, which is one of them if the range is
inclusive. -/
structure Range where
  first : Expr
  inclusive : Bool
  last : Expr
  span : Span

/-- A struct, with its generic argument if it has one, and values for its fields. -/
structure StructInit where
  name : Identifier
  generic : Option TypeExpr
  fields : List FieldInit
  span : Span

/-- A value for a field. -/
structure FieldInit where
  name : Identifier
  value : Expr
  span : Span

end

/-- What an expression covers. -/
def Expr.span : Expr → Span
  | binary _ _ _ span => span
  | number n => n.span
  | char l => l.span
  | string l => l.span
  | null span => span
  | bool _ span => span
  | call c => c.span
  | fieldAccess _ _ span => span
  | identifier name => name.span
  | matching m => m.span
  | typecast _ _ span => span
  | arrayAccess _ _ span => span
  | structInit init => init.span
  | range r => r.span

/-- The generic argument of a construct, as its unlabelled child. -/
def genericNodes (generic : Option TypeExpr) : List Node :=
  generic.toList.map (·.toNode)

mutual

/-- The uniform view of an expression. -/
def Expr.toNode : Expr → Node
  | .binary left operator right span =>
    { kind := .binaryExpression, span
      children := [left.toNode.labelled .left, operator.toNode.labelled .operator,
        right.toNode.labelled .right] }
  | .number n => n.toNode
  | .char l => l.toNode
  | .string l => l.toNode
  | .null span => { kind := .null, span }
  | .bool value span => { kind := if value then .trueLiteral else .falseLiteral, span }
  | .call c => c.toNode
  | .fieldAccess object member span =>
    { kind := .fieldAccess, span
      children := [object.toNode.labelled .object, member.toNode] }
  | .identifier name => name.toNode
  | .matching m => m.toNode
  | .typecast value target span =>
    { kind := .typecast, span
      children := [value.toNode.labelled .value, target.toNode.labelled .type] }
  | .arrayAccess base index span =>
    { kind := .arrayAccess, span, children := [base.toNode, index.toNode] }
  | .structInit init => init.toNode
  | .range r => r.toNode

/-- The uniform view of a call. -/
def Call.toNode : Call → Node
  | ⟨function, generic, arguments, span⟩ =>
    { kind := .callExpression, span
      children := function.toNode.labelled .function ::
        (genericNodes generic ++ Expr.toNodes arguments) }

/-- The uniform view of a match. -/
def Match.toNode : Match → Node
  | ⟨value, arms, span⟩ =>
    { kind := .matchExpression, span
      children := value.toNode.labelled .value :: MatchArm.toNodes arms }

/-- The uniform view of an arm. -/
def MatchArm.toNode : MatchArm → Node
  | ⟨key, value, span⟩ =>
    { kind := .matchArm, span, children := [key.toNode, value.toNode.labelled .value] }

/-- The uniform view of a key. -/
def MatchKey.toNode : MatchKey → Node
  | .identifier name => name.toNode
  | .constants l => l.toNode
  | .number n => n.toNode
  | .char l => l.toNode
  | .range r => r.toNode

/-- The uniform view of a range. -/
def Range.toNode : Range → Node
  | ⟨first, inclusive, last, span⟩ =>
    { kind := .range, span, text := some (if inclusive then "..=" else "..")
      children := [first.toNode, last.toNode] }

/-- The uniform view of a struct initialization. -/
def StructInit.toNode : StructInit → Node
  | ⟨name, generic, fields, span⟩ =>
    { kind := .structInitialization, span
      children := name.toNode.labelled .name ::
        (genericNodes generic ++ FieldInit.toNodes fields) }

/-- The uniform view of a value for a field. -/
def FieldInit.toNode : FieldInit → Node
  | ⟨name, value, span⟩ =>
    { kind := .fieldInit, span
      children := [name.toNode.labelled .name, value.toNode.labelled .value] }

/-- The uniform views of expressions. -/
def Expr.toNodes : List Expr → List Node
  | [] => []
  | e :: es => e.toNode :: Expr.toNodes es

/-- The uniform views of arms. -/
def MatchArm.toNodes : List MatchArm → List Node
  | [] => []
  | a :: as => a.toNode :: MatchArm.toNodes as

/-- The uniform views of values for fields. -/
def FieldInit.toNodes : List FieldInit → List Node
  | [] => []
  | f :: fs => f.toNode :: FieldInit.toNodes fs

end

end FrontEnd
