/-
Reading definitions and whole files.

A file is read definition by definition.  One that cannot be read is recorded, tokens are
skipped up to a place where a definition can start again, and the skipped stretch is kept
among the definitions.

* `definition` reads a definition.
* `skipToDefinition` skips to where a definition can start again.
* `sourceFile` reads all of the tokens and never fails.
-/
import FrontEnd.Definition.Basic
import FrontEnd.Stmt.Parser

namespace FrontEnd.Parser

/-- The tokens that a definition can start with, as diagnostics list them. -/
def definitionStart : List Kind :=
  [Keyword.useKw, .fnKw, .externKw, .structKw].map Kind.keyword

/-- Skips tokens outside of braces up to a semicolon or a closing brace, which are
skipped too, or up to a word that starts a definition, unless it is the token with the
index `start`. -/
def skipTokensToDefinition (start : Nat) : Parser Unit :=
  nest fun more => do
    let s ← get
    let kind := s.current.kind
    if kind = .eof then return ()
    else if kind = Symbol.semicolon ∧ s.depth = 0 then
      let _ ← advance
    else if kind = Symbol.closeCurly then
      let _ ← advance
      if (← get).depth = 0 then return () else more
    else if kind.startsDefinition ∧ s.depth = 0 ∧ start < s.index then return ()
    else
      let _ ← advance
      more

/-- Skips to where a definition can start again, and at least one token from the index
`start` on. -/
def skipToDefinition (start : Nat) : Parser Unit := do
  skipTokensToDefinition start
  if (← get).index = start then
    let _ ← advance

/-- Reads `use` and a path; what stands between its names is optional. -/
def useStatement : Parser UseStatement := do
  let word ← expect Keyword.useKw "use_statement"
  let path ← manyWhile (· = .identifier) do
    let name ← identifier "use_statement"
    match ← kind with
    | .symbol .colonColon | .symbol .dot =>
      let _ ← advance
      return name
    | _ => return name
  let _ ← expect Symbol.semicolon "use_statement"
  return ⟨path, ← spanFrom word.span.start⟩

variable (g : Grammar)

/-- Reads a parameter or a field, with the comma after it if there is one. -/
def parameter : Parser Parameter := do
  let name ← identifier "parameter"
  let _ ← expect Symbol.colon "parameter"
  let mutability ← mutMarker?
  let type ← typeExpr g
  let span ← spanFrom name.span.start
  let _ ← skip? Symbol.comma
  return ⟨name, mutability, type, span⟩

/-- Reads parameters in parentheses. -/
def parameterList : Parser (List Parameter) := do
  let _ ← expect Symbol.openParen "parameter_list"
  let parameters ← manyWhile (fun k => k ≠ Symbol.closeParen && k ≠ .eof) (parameter g)
  let _ ← expect Symbol.closeParen "parameter_list"
  return parameters

/-- Reads a colon and a type if a colon is next. -/
def returnType? : Parser (Option TypeExpr) := do
  if ← skip? Symbol.colon then some <$> typeExpr g else return none

/-- Reads a function with its body. -/
def function : Parser FunctionDef := do
  let word ← expect Keyword.fnKw "function_definition"
  let name ← identifier "function_definition"
  let generic ← genericClause? g
  let parameters ← parameterList g
  let returnType ← returnType? g
  let body ← block g
  return ⟨name, generic, parameters, returnType, body, ← spanFrom word.span.start⟩

/-- Reads the declaration of an external function. -/
def externalFunction : Parser ExternalFunction := do
  let word ← expect Keyword.externKw "extern_function_definition"
  let _ ← expect Keyword.fnKw "extern_function_definition"
  let name ← identifier "extern_function_definition"
  let parameters ← parameterList g
  let returnType ← returnType? g
  let _ ← expect Symbol.semicolon "extern_function_definition"
  return ⟨name, parameters, returnType, ← spanFrom word.span.start⟩

/-- Reads members of a struct for as long as the kind of the next token is `wanted`: the
members, and the comments before, between and after them. -/
def membersWhile (wanted : Kind → Bool) (member : Parser α) :
    Parser (List α × List Comment) := do
  let leading ← takeComments
  let members ← manyWhile wanted do
    let m ← member
    return (m, ← takeComments)
  return (members.map (·.1), leading ++ members.flatMap (·.2))

/-- Reads a struct. -/
def structDef : Parser StructDef := do
  let word ← expect Keyword.structKw "struct_definition"
  let name ← identifier "struct_definition"
  let generic ← genericClause? g
  let _ ← expect Symbol.openCurly "struct_definition"
  let (fields, fieldComments) ← membersWhile (· = .identifier) (parameter g)
  let (methods, methodComments) ← membersWhile (· = Keyword.fnKw) (function g)
  if (← kind) = Symbol.closeCurly then
    let _ ← advance
    return ⟨name, generic, fields, methods, fieldComments ++ methodComments,
      ← spanFrom word.span.start⟩
  else unexpected "struct_definition" [Keyword.fnKw, Symbol.closeCurly]

/-- Reads a definition. -/
def definition : Parser Definition := do
  match g.definition? (← kind) with
  | none => unexpected "source_file" definitionStart
  | some .use => return .use (← useStatement)
  | some .function => return .function (← function g)
  | some .external => return .external (← externalFunction g)
  | some .struct => return .struct (← structDef g)

/-- Reads a definition, or skips what is none; gives it with the comments after it. -/
def fileItem : Parser (List Definition) := do
  setDepth 0
  let s ← get
  let item ← match ← attempt (definition g) with
    | .ok item => pure item
    | .error d => do
      record d
      skipToDefinition s.index
      pure (.error (← spanFrom s.position))
  return item :: (← takeComments).map Definition.comment

/-- Reads a whole file. -/
def sourceFile : Parser SourceFile := do
  let leading ← takeComments
  let items ← manyWhile (· ≠ .eof) (fileItem g)
  let stop := (← current).span.stop
  return ⟨leading.map Definition.comment ++ items.flatten, ⟨Position.start, stop⟩⟩

end FrontEnd.Parser
