/-
The uniform view of a tree.

Every construct of the language, from a whole file down to the parts of a string
literal, can be seen as a `Node`: a kind, the label under which its parent holds it,
the text of a leaf, a span, and children in source order.

* `Node.sexp` writes a node and all below it as an S-expression.
* `Node.preorder` lists a node and all below it, parents first, with depths.
* `Node.child?` finds a child by its label.
-/
import FrontEnd.Source.Position

namespace FrontEnd

/-- The kinds of nodes, named after the constructs of the grammar. -/
inductive NodeKind where
  | sourceFile | useStatement | structDefinition | functionDefinition
  | externFunctionDefinition | parameter | mutMarker | comment | error
  | primitiveType | stringType | typeIdentifier | arrayType | pointerType | refType | genericType
  | block | returnStatement | variableDeclaration | variableAssignment | fieldAssignment
  | arrayAssignment | ifStatement | whileStatement | forStatement | breakStatement
  | continueStatement | callStatement | matchStatement
  | binaryExpression | operator | number | charLiteral | stringLiteral | stringContent
  | escapeSequence | null | trueLiteral | falseLiteral | callExpression | fieldAccess
  | identifier | matchExpression | matchArm | constantList | typecast | arrayAccess
  | structInitialization | fieldInit | range
deriving DecidableEq, Repr

/-- The name of a kind in written trees. -/
def NodeKind.name : NodeKind → String
  | sourceFile => "source_file"
  | useStatement => "use_statement"
  | structDefinition => "struct_definition"
  | functionDefinition => "function_definition"
  | externFunctionDefinition => "extern_function_definition"
  | parameter => "parameter"
  | mutMarker => "mut"
  | comment => "comment"
  | error => "ERROR"
  | primitiveType => "primitive_type"
  | stringType => "string_type"
  | typeIdentifier => "type_identifier"
  | arrayType => "array_type"
  | pointerType => "pointer_type"
  | refType => "ref_type"
  | genericType => "generic_type"
  | block => "block"
  | returnStatement => "return_statement"
  | variableDeclaration => "variable_declaration"
  | variableAssignment => "variable_assignment"
  | fieldAssignment => "field_assignment"
  | arrayAssignment => "array_assignment"
  | ifStatement => "if_statement"
  | whileStatement => "while_statement"
  | forStatement => "for_statement"
  | breakStatement => "break"
  | continueStatement => "continue"
  | callStatement => "call_statement"
  | matchStatement => "match_statement"
  | binaryExpression => "binary_expression"
  | operator => "operator"
  | number => "number"
  | charLiteral => "char_literal"
  | stringLiteral => "string_literal"
  | stringContent => "string_content"
  | escapeSequence => "escape_sequence"
  | null => "null"
  | trueLiteral => "true"
  | falseLiteral => "false"
  | callExpression => "call_expression"
  | fieldAccess => "field_access"
  | identifier => "identifier"
  | matchExpression => "match_expression"
  | matchArm => "match_arm"
  | constantList => "constant_list"
  | typecast => "typecast"
  | arrayAccess => "array_access"
  | structInitialization => "struct_initialization"
  | fieldInit => "field_init"
  | range => "range"

/-- Labels that tell the children of a node apart. -/
inductive Label where
  | name | type | mutability | value | object | function | left | operator | right
  | ifBlock | elseBlock | funcBlock | returnType
deriving DecidableEq, Repr

namespace Label

/-- The text of a label in written trees. -/
def text : Label → String
  | name => "name"
  | type => "type"
  | mutability => "mut"
  | value => "value"
  | object => "object"
  | function => "function"
  | left => "left"
  | operator => "operator"
  | right => "right"
  | ifBlock => "if_block"
  | elseBlock => "else_block"
  | funcBlock => "func_block"
  | returnType => "return_type"

end Label

/-- A construct seen as a node of a labelled tree. -/
structure Node where
  kind : NodeKind
  span : Span
  /-- What a leaf says, where its kind does not say it all. -/
  text : Option String := none
  /-- The label under which the parent holds the node. -/
  label : Option Label := none
  children : List Node := []
deriving Repr

namespace Node

/-- The node, held under a label. -/
def labelled (n : Node) (label : Label) : Node := { n with label := some label }

/-- The first child under a label. -/
def child? (n : Node) (label : Label) : Option Node :=
  n.children.find? (·.label == some label)

/-- The kind of a node and, for a leaf with text, its text. -/
def title (kind : NodeKind) (text : Option String) : String :=
  match text with
  | none => kind.name
  | some text => kind.name ++ " " ++ text

/-- What is written before a child that is held under a label. -/
def labelText : Option Label → String
  | none => ""
  | some label => label.text ++ ": "

mutual

/-- The node as an S-expression, without its own label. -/
def sexp : Node → String
  | ⟨kind, _, text, _, children⟩ => "(" ++ title kind text ++ sexps children ++ ")"

/-- The children of a node as S-expressions, each after a space and its label. -/
def sexps : List Node → String
  | [] => ""
  | n :: rest => " " ++ labelText n.label ++ sexp n ++ sexps rest

end

mutual

/-- The node at the given depth and all nodes below it, parents first. -/
def preorder (depth : Nat) : Node → List (Nat × Node)
  | ⟨kind, span, text, label, children⟩ =>
    (depth, ⟨kind, span, text, label, children⟩) :: preorders (depth + 1) children

/-- The given nodes and all nodes below them, parents first. -/
def preorders (depth : Nat) : List Node → List (Nat × Node)
  | [] => []
  | n :: rest => preorder depth n ++ preorders depth rest

end

/-- The line of a node in a printed tree: indented by its depth, with its label, its
text and where it starts. -/
def line (depth : Nat) (n : Node) : String :=
  let indent := String.join (List.replicate depth "  ")
  let place := s!"[{n.span.start.line}:{n.span.start.column}]"
  indent ++ labelText n.label ++ title n.kind n.text ++ " " ++ place

end Node

end FrontEnd
