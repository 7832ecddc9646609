/-
Statements and blocks.

A block is a sequence of statements between braces.  Comments that stand where a
statement could stand are kept among the statements, and so are the stretches of
tokens that were skipped because they are no statement.

* `Stmt.span` is what a statement covers.
* `Stmt.toNode` and `Block.toNode` are the uniform views.
-/
import FrontEnd.Expr.Basic
import FrontEnd.Token.Stream

namespace FrontEnd

/-- A comment that is part of a tree. -/
structure Comment where
  kind : CommentKind
  /-- The comment with its delimiters. -/
  text : String
  span : Span
deriving DecidableEq, Repr

namespace Comment

/-- The comment that a piece of trivia is. -/
def ofTrivia? (t : Trivia) : Option Comment :=
  t.kind.comment?.map fun kind => ⟨kind, t.text, t.span⟩

/-- The uniform view of a comment. -/
def toNode (c : Comment) : Node :=
  { kind := .comment, span := c.span, text := some (Text.quoted c.text) }

end Comment

/-- The uniform view of skipped tokens. -/
def errorNode (span : Span) : Node := { kind := .error, span }

/-- The uniform view of a `mut` marker. -/
def mutNode (span : Span) : Node := { kind := .mutMarker, span }

mutual

/-- A statement. -/
inductive Stmt where
  | returning (value : Expr) (span : Span)
  /-- A new variable, with the span of its `mut` marker if it has one, and with a
  first value if it has one. -/
  | declaration (mutability : Option Span) (name : Identifier) (type : TypeExpr)
      (value : Option Expr) (span : Span)
  | assignment (name : Identifier) (value : Expr) (span : Span)
  /-- A new value for a member of a named object; the member is a name or an array
  access. -/
  | fieldAssignment (object : Identifier) (name : Expr) (value : Expr) (span : Span)
  | arrayAssignment (name : Expr) (index : Expr) (value : Expr) (span : Span)
  | conditional (condition : Expr) (ifBlock : Block) (elseBlock : Option Block) (span : Span)
  | whileLoop (condition : Expr) (body : Block) (span : Span)
  /-- A loop over a named collection or a range. -/
  | forLoop (hasLet : Bool) (binding : Identifier) (iterable : Expr) (body : Block)
      (span : Span)
  | breakLoop (span : Span)
  | continueLoop (span : Span)
  | comment (comment : Comment)
  | call (call : Call) (span : Span)
  | matching (m : Match) (span : Span)
  /-- Tokens that were skipped because they are no statement. -/
  | error (span : Span)

/-- Statements between braces. -/
structure Block where
  statements : List Stmt
  span : Span

end

/-- What a statement covers. -/
def Stmt.span : Stmt → Span
  | returning _ span => span
  | declaration _ _ _ _ span => span
  | assignment _ _ span => span
  | fieldAssignment _ _ _ span => span
  | arrayAssignment _ _ _ span => span
  | conditional _ _ _ span => span
  | whileLoop _ _ span => span
  | forLoop _ _ _ _ span => span
  | breakLoop span => span
  | continueLoop span => span
  | comment c => c.span
  | call _ span => span
  | matching _ span => span
  | error span => span

mutual

/-- The uniform view of a statement. -/
def Stmt.toNode : Stmt → Node
  | .returning value span => { kind := .returnStatement, span, children := [value.toNode] }
  | .declaration mutability name type value span =>
    { kind := .variableDeclaration, span
      children := mutability.toList.map mutNode ++
        [name.toNode.labelled .name, type.toNode.labelled .type] ++
        value.toList.map (·.toNode.labelled .value) }
  | .assignment name value span =>
    { kind := .variableAssignment, span
      children := [name.toNode.labelled .name, value.toNode.labelled .value] }
  | .fieldAssignment object name value span =>
    { kind := .fieldAssignment, span
      children := [object.toNode.labelled .object, name.toNode.labelled .name,
        value.toNode.labelled .value] }
  | .arrayAssignment name index value span =>
    { kind := .arrayAssignment, span
      children := [name.toNode.labelled .name, index.toNode, value.toNode.labelled .value] }
  | .conditional condition ifBlock none span =>
    { kind := .ifStatement, span
      children := [condition.toNode, ifBlock.toNode.labelled .ifBlock] }
  | .conditional condition ifBlock (some elseBlock) span =>
    { kind := .ifStatement, span
      children := [condition.toNode, ifBlock.toNode.labelled .ifBlock,
        elseBlock.toNode.labelled .elseBlock] }
  | .whileLoop condition body span =>
    { kind := .whileStatement, span, children := [condition.toNode, body.toNode] }
  | .forLoop _ binding iterable body span =>
    { kind := .forStatement, span
      children := [binding.toNode, iterable.toNode, body.toNode] }
  | .breakLoop span => { kind := .breakStatement, span }
  | .continueLoop span => { kind := .continueStatement, span }
  | .comment c => c.toNode
  | .call c span => { kind := .callStatement, span, children := [c.toNode] }
  | .matching m span => { kind := .matchStatement, span, children := [m.toNode] }
  | .error span => errorNode span

/-- The uniform view of a block. -/
def Block.toNode : Block → Node
  | ⟨statements, span⟩ => { kind := .block, span, children := Stmt.toNodes statements }

/-- The uniform views of statements. -/
def Stmt.toNodes : List Stmt → List Node
  | [] => []
  | s :: ss => s.toNode :: Stmt.toNodes ss

end

end FrontEnd
