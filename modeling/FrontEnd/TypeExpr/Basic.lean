/-
Type annotations.

A type is a primitive, `string`, a name, an array of fixed length, a pointer, a
reference, or a name with one generic argument.  Nothing is resolved: a named type is
only a name.

* `TypeExpr.isPlain` says which types may be a generic argument.
* `TypeExpr.toNode` is the uniform view of a type.
-/
import FrontEnd.Token.Kind
import FrontEnd.Tree.Node

namespace FrontEnd

/-- A name as it stands in the source. -/
structure Identifier where
  name : String
  span : Span
deriving DecidableEq, Repr

/-- The uniform view of a name. -/
def Identifier.toNode (i : Identifier) : Node :=
  { kind := .identifier, span := i.span, text := some i.name }

/-- An integer literal. -/
structure Number where
  value : Nat
  span : Span
deriving DecidableEq, Repr

namespace Number

/-- The first value that 64 bits do not hold; integer literals lie below it. -/
def limit : Nat := 0x10000000000000000

/-- The uniform view of an integer literal. -/
def toNode (n : Number) : Node :=
  { kind := .number, span := n.span, text := some (toString n.value) }

end Number

/-- A type annotation. -/
inductive TypeExpr where
  | primitive (primitive : Primitive) (span : Span)
  | string (span : Span)
  | named (name : Identifier)
  /-- An element type and a length. -/
  | array (element : TypeExpr) (length : Number) (span : Span)
  | pointer (pointee : TypeExpr) (span : Span)
  | reference (referent : TypeExpr) (span : Span)
  /-- A name and its one argument. -/
  | generic (name : Identifier) (argument : TypeExpr) (span : Span)
deriving DecidableEq, Repr

namespace TypeExpr

/-- What the type covers. -/
def span : TypeExpr → Span
  | primitive _ span => span
  | string span => span
  | named name => name.span
  | array _ _ span => span
  | pointer _ span => span
  | reference _ span => span
  | generic _ _ span => span

/-- The type may be a generic argument: it is a primitive, `string`, a name or an
array. -/
def isPlain : TypeExpr → Bool
  | primitive .. | string .. | named .. | array .. => true
  | pointer .. | reference .. | generic .. => false

/-- The kind of node that a type is. -/
def nodeKind : TypeExpr → NodeKind
  | primitive .. => .primitiveType
  | string .. => .stringType
  | named .. => .typeIdentifier
  | array .. => .arrayType
  | pointer .. => .pointerType
  | reference .. => .refType
  | generic .. => .genericType

/-- The uniform view of a type. -/
def toNode : TypeExpr → Node
  | primitive p span => { kind := .primitiveType, span, text := some p.spelling }
  | string span => { kind := .stringType, span }
  | named name => { kind := .typeIdentifier, span := name.span, text := some name.name }
  | array element length span =>
    { kind := .arrayType, span, children := [element.toNode, length.toNode] }
  | pointer pointee span => { kind := .pointerType, span, children := [pointee.toNode] }
  | reference referent span => { kind := .refType, span, children := [referent.toNode] }
  | generic name argument span =>
    { kind := .genericType, span, children := [name.toNode, argument.toNode] }

theorem kind_toNode (t : TypeExpr) : t.toNode.kind = t.nodeKind := by cases t <;> rfl

end TypeExpr

end FrontEnd
