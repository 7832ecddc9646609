/-
Definitions and whole files.

A file is a sequence of definitions: functions, declared external functions, structs
and uses of other modules.  Comments between definitions are kept among them, and so
are the stretches of tokens that were skipped because they are no definition.

* `Definition.name?` is the name that a definition gives.
* `SourceFile.toNode` is the uniform view of a file.
-/
import FrontEnd.Stmt.Basic

namespace FrontEnd

/-- A parameter of a function, or a field of a struct. -/
structure Parameter where
  name : Identifier
  /-- Where the `mut` marker stands, if there is one. -/
  mutability : Option Span
  type : TypeExpr
  span : Span
deriving DecidableEq, Repr

/-- The uniform view of a parameter. -/
def Parameter.toNode (p : Parameter) : Node :=
  { kind := .parameter, span := p.span
    children := p.name.toNode.labelled .name ::
      (p.mutability.toList.map (fun span => (mutNode span).labelled .mutability) ++
        [p.type.toNode.labelled .type]) }

/-- The type of a result, as a labelled child. -/
def returnTypeNodes (type : Option TypeExpr) : List Node :=
  type.toList.map (·.toNode.labelled .returnType)

/-- A function with a body. -/
structure FunctionDef where
  name : Identifier
  generic : Option TypeExpr
  parameters : List Parameter
  returnType : Option TypeExpr
  body : Block
  span : Span

/-- The uniform view of a function. -/
def FunctionDef.toNode (f : FunctionDef) : Node :=
  { kind := .functionDefinition, span := f.span
    children := f.name.toNode.labelled .name ::
      (genericNodes f.generic ++ f.parameters.map (·.toNode) ++ returnTypeNodes f.returnType ++
        [f.body.toNode.labelled .funcBlock]) }

/-- A function that is defined elsewhere. -/
structure ExternalFunction where
  name : Identifier
  parameters : List Parameter
  returnType : Option TypeExpr
  span : Span

/-- The uniform view of an external function. -/
def ExternalFunction.toNode (f : ExternalFunction) : Node :=
  { kind := .externFunctionDefinition, span := f.span
    children := f.name.toNode.labelled .name ::
      (f.parameters.map (·.toNode) ++ returnTypeNodes f.returnType) }

/-- A struct: fields first, then methods. -/
structure StructDef where
  name : Identifier
  generic : Option TypeExpr
  fields : List Parameter
  methods : List FunctionDef
  /-- Comments between the members. -/
  comments : List Comment
  span : Span

/-- The uniform view of a struct.  Its members stand in source order. -/
def StructDef.toNode (s : StructDef) : Node :=
  let members := s.fields.map (·.toNode) ++ s.methods.map (·.toNode) ++ s.comments.map (·.toNode)
  { kind := .structDefinition, span := s.span
    children := s.name.toNode.labelled .name ::
      (genericNodes s.generic ++
        members.mergeSort (fun a b => a.span.start.offset ≤ b.span.start.offset)) }

/-- A use of another module. -/
structure UseStatement where
  path : List Identifier
  span : Span
deriving DecidableEq, Repr

namespace UseStatement

/-- The path with `::` between its names, whatever stands there in the source. -/
def pathString (u : UseStatement) : String := "::".intercalate (u.path.map (·.name))

/-- The uniform view of a use. -/
def toNode (u : UseStatement) : Node :=
  { kind := .useStatement, span := u.span, children := u.path.map (·.toNode) }

end UseStatement

/-- A definition, or what stands in the place of one. -/
inductive Definition where
  | function (f : FunctionDef)
  | external (f : ExternalFunction)
  | struct (s : StructDef)
  | use (u : UseStatement)
  | comment (c : Comment)
  /-- Tokens that were skipped because they are no definition. -/
  | error (span : Span)

namespace Definition

/-- The name that a definition gives. -/
def name? : Definition → Option String
  | function f => some f.name.name
  | external f => some f.name.name
  | struct s => some s.name.name
  | use _ | comment _ | error _ => none

/-- The uniform view of a definition. -/
def toNode : Definition → Node
  | function f => f.toNode
  | external f => f.toNode
  | struct s => s.toNode
  | use u => u.toNode
  | comment c => c.toNode
  | error span => errorNode span

end Definition

/-- A whole file. -/
structure SourceFile where
  definitions : List Definition
  span : Span

/-- The uniform view of a file. -/
def SourceFile.toNode (f : SourceFile) : Node :=
  { kind := .sourceFile, span := f.span, children := f.definitions.map (·.toNode) }

end FrontEnd
