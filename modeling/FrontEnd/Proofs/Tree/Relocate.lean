/-
Trees at other places.

`relocate f` puts everything in a tree where `f` says: it maps the positions of all spans
and changes nothing else.  The functions follow the types, the members of lists by `map`.

* `Expr.relocate`, `Stmt.relocate`, `Definition.relocate` — trees;
* `Token.relocate`, `Trivia.relocate`, `Diagnostic.relocate` — what trees are made from;
* `Expr.span_relocate` — what an expression covers is mapped with it;
* `Position.shift` — the map for what is put behind other lines, which keeps columns.
-/
import FrontEnd.Definition.Basic
import FrontEnd.Diagnostic.Basic

namespace FrontEnd

/-- The span between the images of two positions. -/
def Span.relocate (f : Position → Position) (s : Span) : Span := ⟨f s.start, f s.stop⟩

section

variable (f : Position → Position)

@[simp] theorem Span.start_relocate (s : Span) : (s.relocate f).start = f s.start := rfl

@[simp] theorem Span.stop_relocate (s : Span) : (s.relocate f).stop = f s.stop := rfl

def Token.relocate (t : Token) : Token := { t with span := t.span.relocate f }

def Trivia.relocate (t : Trivia) : Trivia := { t with span := t.span.relocate f }

def Diagnostic.relocate (d : Diagnostic) : Diagnostic := { d with span := d.span.relocate f }

@[simp] theorem Token.kind_relocate (t : Token) : (t.relocate f).kind = t.kind := rfl

@[simp] theorem Token.text_relocate (t : Token) : (t.relocate f).text = t.text := rfl

@[simp] theorem Token.span_relocate (t : Token) : (t.relocate f).span = t.span.relocate f := rfl

/-! ### Types and literals -/

def Identifier.relocate (i : Identifier) : Identifier := { i with span := i.span.relocate f }

def Number.relocate (n : Number) : Number := { n with span := n.span.relocate f }

def TypeExpr.relocate : TypeExpr → TypeExpr
  | .primitive p span => .primitive p (span.relocate f)
  | .string span => .string (span.relocate f)
  | .named name => .named (name.relocate f)
  | .array element length span => .array element.relocate (length.relocate f) (span.relocate f)
  | .pointer pointee span => .pointer pointee.relocate (span.relocate f)
  | .reference referent span => .reference referent.relocate (span.relocate f)
  | .generic name argument span =>
    .generic (name.relocate f) argument.relocate (span.relocate f)

def Operator.relocate (o : Operator) : Operator := { o with span := o.span.relocate f }

def LiteralPart.relocate (p : LiteralPart) : LiteralPart := { p with span := p.span.relocate f }

def StringLiteral.relocate (l : StringLiteral) : StringLiteral :=
  ⟨l.parts.map (·.relocate f), l.span.relocate f⟩

def CharLiteral.relocate (l : CharLiteral) : CharLiteral :=
  ⟨l.parts.map (·.relocate f), l.span.relocate f⟩

def ConstantList.relocate (l : ConstantList) : ConstantList :=
  ⟨l.values.map (·.relocate f), l.span.relocate f⟩

/-! ### Expressions -/

mutual

def Expr.relocate : Expr → Expr
  | .binary left operator right span =>
    .binary left.relocate (operator.relocate f) right.relocate (span.relocate f)
  | .number n => .number (n.relocate f)
  | .char l => .char (l.relocate f)
  | .string l => .string (l.relocate f)
  | .null span => .null (span.relocate f)
  | .bool value span => .bool value (span.relocate f)
  | .call c => .call c.relocate
  | .fieldAccess object member span =>
    .fieldAccess (object.relocate f) member.relocate (span.relocate f)
  | .identifier name => .identifier (name.relocate f)
  | .matching m => .matching m.relocate
  | .typecast value target span =>
    .typecast value.relocate (target.relocate f) (span.relocate f)
  | .arrayAccess base index span =>
    .arrayAccess (base.relocate f) index.relocate (span.relocate f)
  | .structInit init => .structInit init.relocate
  | .range r => .range r.relocate

def Call.relocate : Call → Call
  | ⟨function, generic, arguments, span⟩ =>
    ⟨function.relocate f, generic.map (·.relocate f), Expr.relocateAll arguments,
      span.relocate f⟩

def Match.relocate : Match → Match
  | ⟨value, arms, span⟩ => ⟨value.relocate, MatchArm.relocateAll arms, span.relocate f⟩

def MatchArm.relocate : MatchArm → MatchArm
  | ⟨key, value, span⟩ => ⟨key.relocate, value.relocate, span.relocate f⟩

def MatchKey.relocate : MatchKey → MatchKey
  | .identifier name => .identifier (name.relocate f)
  | .constants l => .constants (l.relocate f)
  | .number n => .number (n.relocate f)
  | .char l => .char (l.relocate f)
  | .range r => .range r.relocate

def Range.relocate : Range → Range
  | ⟨first, inclusive, last, span⟩ => ⟨first.relocate, inclusive, last.relocate, span.relocate f⟩

def StructInit.relocate : StructInit → StructInit
  | ⟨name, generic, fields, span⟩ =>
    ⟨name.relocate f, generic.map (·.relocate f), FieldInit.relocateAll fields, span.relocate f⟩

def FieldInit.relocate : FieldInit → FieldInit
  | ⟨name, value, span⟩ => ⟨name.relocate f, value.relocate, span.relocate f⟩

def Expr.relocateAll : List Expr → List Expr
  | [] => []
  | e :: es => e.relocate :: Expr.relocateAll es

def MatchArm.relocateAll : List MatchArm → List MatchArm
  | [] => []
  | a :: as => a.relocate :: MatchArm.relocateAll as

def FieldInit.relocateAll : List FieldInit → List FieldInit
  | [] => []
  | i :: is => i.relocate :: FieldInit.relocateAll is

end

@[simp] theorem Expr.relocateAll_eq_map (es : List Expr) :
    Expr.relocateAll f es = es.map (·.relocate f) := by
  induction es with
  | nil => rfl
  | cons e es ih => rw [Expr.relocateAll, ih, List.map_cons]

@[simp] theorem MatchArm.relocateAll_eq_map (as : List MatchArm) :
    MatchArm.relocateAll f as = as.map (·.relocate f) := by
  induction as with
  | nil => rfl
  | cons a as ih => rw [MatchArm.relocateAll, ih, List.map_cons]

@[simp] theorem FieldInit.relocateAll_eq_map (is : List FieldInit) :
    FieldInit.relocateAll f is = is.map (·.relocate f) := by
  induction is with
  | nil => rfl
  | cons i is ih => rw [FieldInit.relocateAll, ih, List.map_cons]

/-! ### Statements and definitions -/

def Comment.relocate (c : Comment) : Comment := { c with span := c.span.relocate f }

mutual

def Stmt.relocate : Stmt → Stmt
  | .returning value span => .returning (value.relocate f) (span.relocate f)
  | .declaration mutability name type value span =>
    .declaration (mutability.map (·.relocate f)) (name.relocate f) (type.relocate f)
      (value.map (·.relocate f)) (span.relocate f)
  | .assignment name value span =>
    .assignment (name.relocate f) (value.relocate f) (span.relocate f)
  | .fieldAssignment object name value span =>
    .fieldAssignment (object.relocate f) (name.relocate f) (value.relocate f) (span.relocate f)
  | .arrayAssignment name index value span =>
    .arrayAssignment (name.relocate f) (index.relocate f) (value.relocate f) (span.relocate f)
  | .conditional condition ifBlock elseBlock span =>
    .conditional (condition.relocate f) ifBlock.relocate (Block.relocateOption elseBlock)
      (span.relocate f)
  | .whileLoop condition body span =>
    .whileLoop (condition.relocate f) body.relocate (span.relocate f)
  | .forLoop hasLet binding iterable body span =>
    .forLoop hasLet (binding.relocate f) (iterable.relocate f) body.relocate (span.relocate f)
  | .breakLoop span => .breakLoop (span.relocate f)
  | .continueLoop span => .continueLoop (span.relocate f)
  | .comment c => .comment (c.relocate f)
  | .call c span => .call (c.relocate f) (span.relocate f)
  | .matching m span => .matching (m.relocate f) (span.relocate f)
  | .error span => .error (span.relocate f)

def Block.relocate : Block → Block
  | ⟨statements, span⟩ => ⟨Stmt.relocateAll statements, span.relocate f⟩

def Block.relocateOption : Option Block → Option Block
  | none => none
  | some b => some b.relocate

def Stmt.relocateAll : List Stmt → List Stmt
  | [] => []
  | s :: ss => s.relocate :: Stmt.relocateAll ss

end

@[simp] theorem Block.relocateOption_eq_map (b : Option Block) :
    Block.relocateOption f b = b.map (·.relocate f) := by
  cases b <;> rfl

@[simp] theorem Stmt.relocateAll_eq_map (ss : List Stmt) :
    Stmt.relocateAll f ss = ss.map (·.relocate f) := by
  induction ss with
  | nil => rfl
  | cons s ss ih => rw [Stmt.relocateAll, ih, List.map_cons]

def Parameter.relocate (p : Parameter) : Parameter :=
  ⟨p.name.relocate f, p.mutability.map (·.relocate f), p.type.relocate f, p.span.relocate f⟩

def FunctionDef.relocate (d : FunctionDef) : FunctionDef :=
  ⟨d.name.relocate f, d.generic.map (·.relocate f), d.parameters.map (·.relocate f),
    d.returnType.map (·.relocate f), d.body.relocate f, d.span.relocate f⟩

def ExternalFunction.relocate (d : ExternalFunction) : ExternalFunction :=
  ⟨d.name.relocate f, d.parameters.map (·.relocate f), d.returnType.map (·.relocate f),
    d.span.relocate f⟩

def StructDef.relocate (d : StructDef) : StructDef :=
  ⟨d.name.relocate f, d.generic.map (·.relocate f), d.fields.map (·.relocate f),
    d.methods.map (·.relocate f), d.comments.map (·.relocate f), d.span.relocate f⟩

def UseStatement.relocate (u : UseStatement) : UseStatement :=
  ⟨u.path.map (·.relocate f), u.span.relocate f⟩

/-- The definition with all its positions mapped. -/
def Definition.relocate : Definition → Definition
  | .function d => .function (d.relocate f)
  | .external d => .external (d.relocate f)
  | .struct d => .struct (d.relocate f)
  | .use u => .use (u.relocate f)
  | .comment c => .comment (c.relocate f)
  | .error span => .error (span.relocate f)

/-! ### What does not change -/

@[simp] theorem TypeExpr.span_relocate (t : TypeExpr) :
    (t.relocate f).span = t.span.relocate f := by
  cases t <;> rfl

@[simp] theorem TypeExpr.isPlain_relocate (t : TypeExpr) :
    (t.relocate f).isPlain = t.isPlain := by
  cases t <;> rfl

@[simp] theorem TypeExpr.nodeKind_relocate (t : TypeExpr) :
    (t.relocate f).nodeKind = t.nodeKind := by
  cases t <;> rfl

@[simp] theorem Expr.span_relocate (e : Expr) : (e.relocate f).span = e.span.relocate f := by
  cases e with
  | call c => obtain ⟨_, _, _, _⟩ := c; rfl
  | matching m => obtain ⟨_, _, _⟩ := m; rfl
  | structInit i => obtain ⟨_, _, _, _⟩ := i; rfl
  | range r => obtain ⟨_, _, _, _⟩ := r; rfl
  | _ => rfl

theorem Comment.ofTrivia?_relocate (t : Trivia) :
    Comment.ofTrivia? (t.relocate f) = (Comment.ofTrivia? t).map (·.relocate f) := by
  unfold Comment.ofTrivia?
  cases h : t.kind.comment? <;> simp [Trivia.relocate, Comment.relocate, h]

end

/-! ### Behind other lines -/

/-- How far a text moves that is put behind other lines. -/
structure Shift where
  bytes : Nat
  lines : Nat
deriving DecidableEq, Repr

/-- The shift over a text, which is meant to end with a line feed. -/
def Shift.over (text : List Char) : Shift := ⟨byteLength text, text.count '\n'⟩

namespace Position

variable (δ : Shift)

/-- The position that many bytes and lines on, in the same column. -/
def shift (p : Position) : Position := ⟨p.offset + δ.bytes, p.line + δ.lines, p.column⟩

@[simp] theorem offset_shift (p : Position) : (p.shift δ).offset = p.offset + δ.bytes := rfl

theorem shift_next (p : Position) (c : Char) : (p.next c).shift δ = (p.shift δ).next c := by
  unfold next
  split
  · simp only [shift, mk.injEq, and_true]
    omega
  · simp only [shift, mk.injEq, and_true]
    omega

theorem shift_after (p : Position) (cs : List Char) :
    (p.after cs).shift δ = (p.shift δ).after cs := by
  induction cs generalizing p with
  | nil => rfl
  | cons c cs ih => rw [after_cons, after_cons, ih, shift_next]

theorem shift_along (p : Position) (cs : List Char) :
    (p.along cs).shift δ = (p.shift δ).along cs := by
  simp only [along, shift, mk.injEq, and_true]
  omega

theorem line_after (p : Position) (cs : List Char) :
    (p.after cs).line = p.line + cs.count '\n' := by
  induction cs generalizing p with
  | nil => rfl
  | cons c cs ih =>
    rw [after_cons, ih, List.count_cons]
    by_cases hc : c = '\n'
    · simp [next, hc]
      omega
    · simp [next, hc]

/-- What stands behind lines starts where their shift takes the start of a text. -/
theorem start_after_lines (cs : List Char) :
    start.after (cs ++ ['\n']) = start.shift (.over (cs ++ ['\n'])) := by
  have hoffset := offset_after start (cs ++ ['\n'])
  have hline := line_after start (cs ++ ['\n'])
  have hcolumn : (start.after (cs ++ ['\n'])).column = 1 := by
    rw [after_append]
    rfl
  generalize start.after (cs ++ ['\n']) = p at *
  obtain ⟨offset, line, column⟩ := p
  simp only at hoffset hline hcolumn
  subst hoffset hline hcolumn
  rfl

end Position

end FrontEnd
