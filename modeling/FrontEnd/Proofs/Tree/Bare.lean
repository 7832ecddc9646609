/-
Trees without places and comments.

What a tree says, apart from where its parts stand and from the comments between them.  Comments
are taken out first (`uncommented`), then all positions are made the same one.

* `SourceFile.bare` is a file without places and comments;
* `Stmt.bareAll` and `Definition.bareAll` are sequences of which the comments have been left out,
  and `bareAll_append` says that this can be done piece by piece.
-/
import FrontEnd.Definition.Basic
import FrontEnd.Proofs.Tree.Relocate

namespace FrontEnd

/-- Forgets a position. -/
def unplaced (_ : Position) : Position := Position.start

/-! ### Comments taken out -/

mutual

/-- The statement without the comments in its blocks. -/
def Stmt.uncommented : Stmt → Stmt
  | .conditional condition ifBlock elseBlock span =>
    .conditional condition ifBlock.uncommented (Block.uncommentedOption elseBlock) span
  | .whileLoop condition body span => .whileLoop condition body.uncommented span
  | .forLoop hasLet binding iterable body span =>
    .forLoop hasLet binding iterable body.uncommented span
  | stmt => stmt

/-- The block without comments. -/
def Block.uncommented : Block → Block
  | ⟨statements, span⟩ => ⟨Stmt.uncommentedAll statements, span⟩

def Block.uncommentedOption : Option Block → Option Block
  | none => none
  | some b => some b.uncommented

/-- The statements that are no comments, and without the comments inside them. -/
def Stmt.uncommentedAll : List Stmt → List Stmt
  | [] => []
  | .comment _ :: ss => Stmt.uncommentedAll ss
  | s :: ss => s.uncommented :: Stmt.uncommentedAll ss

end

def FunctionDef.uncommented (d : FunctionDef) : FunctionDef := { d with body := d.body.uncommented }

/-- The struct without the comments between its members and in them. -/
def StructDef.uncommented (d : StructDef) : StructDef :=
  { d with methods := d.methods.map (·.uncommented), comments := [] }

def Definition.uncommented : Definition → Definition
  | .function d => .function d.uncommented
  | .struct d => .struct d.uncommented
  | d => d

/-- The definitions that are no comments, and without the comments inside them. -/
def Definition.uncommentedAll : List Definition → List Definition
  | [] => []
  | .comment _ :: ds => Definition.uncommentedAll ds
  | d :: ds => d.uncommented :: Definition.uncommentedAll ds

/-! ### Places forgotten -/

def Stmt.bare (s : Stmt) : Stmt := s.uncommented.relocate unplaced

def Block.bare (b : Block) : Block := b.uncommented.relocate unplaced

def Stmt.bareAll (ss : List Stmt) : List Stmt := (Stmt.uncommentedAll ss).map (·.relocate unplaced)

def FunctionDef.bare (d : FunctionDef) : FunctionDef := d.uncommented.relocate unplaced

def StructDef.bare (d : StructDef) : StructDef := d.uncommented.relocate unplaced

def Definition.bare (d : Definition) : Definition := d.uncommented.relocate unplaced

def Definition.bareAll (ds : List Definition) : List Definition :=
  (Definition.uncommentedAll ds).map (·.relocate unplaced)

/-- The file without places and comments. -/
def SourceFile.bare (f : SourceFile) : SourceFile :=
  ⟨Definition.bareAll f.definitions, f.span.relocate unplaced⟩

theorem Stmt.bare_conditional (condition : Expr) (ifBlock : Block) (elseBlock : Option Block)
    (span : Span) :
    (Stmt.conditional condition ifBlock elseBlock span).bare =
      .conditional (condition.relocate unplaced) ifBlock.bare (elseBlock.map (·.bare))
        (span.relocate unplaced) := by
  cases elseBlock <;> rfl

theorem Stmt.bare_whileLoop (condition : Expr) (body : Block) (span : Span) :
    (Stmt.whileLoop condition body span).bare =
      .whileLoop (condition.relocate unplaced) body.bare (span.relocate unplaced) := rfl

theorem Stmt.bare_forLoop (hasLet : Bool) (binding : Identifier) (iterable : Expr) (body : Block)
    (span : Span) :
    (Stmt.forLoop hasLet binding iterable body span).bare =
      .forLoop hasLet (binding.relocate unplaced) (iterable.relocate unplaced) body.bare
        (span.relocate unplaced) := rfl

/-! ### Sequences -/

namespace Stmt

def isComment : Stmt → Bool
  | .comment _ => true
  | _ => false

/-- What is left of a statement among others is told by what is left of it alone. -/
theorem bareAll_cons (s : Stmt) (ss : List Stmt) :
    bareAll (s :: ss) = (if s.bare.isComment then [] else [s.bare]) ++ bareAll ss := by
  cases s <;> simp [bareAll, uncommentedAll, bare, uncommented, relocate, isComment]

theorem bareAll_append (ss ss' : List Stmt) :
    bareAll (ss ++ ss') = bareAll ss ++ bareAll ss' := by
  induction ss with
  | nil => rfl
  | cons s ss ih => rw [List.cons_append, bareAll_cons, bareAll_cons, ih, List.append_assoc]

theorem bareAll_comments (cs : List Comment) : bareAll (cs.map comment) = [] := by
  induction cs with
  | nil => rfl
  | cons c cs ih => exact ih

theorem bareAll_flatten (items : List (List Stmt)) :
    bareAll items.flatten = (items.map bareAll).flatten := by
  induction items with
  | nil => rfl
  | cons item items ih => simp [bareAll_append, ih]

end Stmt

theorem Block.bare_mk (statements : List Stmt) (span : Span) :
    Block.bare ⟨statements, span⟩ = ⟨Stmt.bareAll statements, span.relocate unplaced⟩ := by
  simp [Block.bare, Block.uncommented, Block.relocate, Stmt.bareAll]

theorem FunctionDef.bare_mk (name : Identifier) (generic : Option TypeExpr)
    (parameters : List Parameter) (returnType : Option TypeExpr) (body : Block) (span : Span) :
    FunctionDef.bare ⟨name, generic, parameters, returnType, body, span⟩ =
      ⟨name.relocate unplaced, generic.map (·.relocate unplaced),
        parameters.map (·.relocate unplaced), returnType.map (·.relocate unplaced), body.bare,
        span.relocate unplaced⟩ := rfl

theorem StructDef.bare_mk (name : Identifier) (generic : Option TypeExpr) (fields : List Parameter)
    (methods : List FunctionDef) (comments : List Comment) (span : Span) :
    StructDef.bare ⟨name, generic, fields, methods, comments, span⟩ =
      ⟨name.relocate unplaced, generic.map (·.relocate unplaced),
        fields.map (·.relocate unplaced), methods.map (·.bare), [], span.relocate unplaced⟩ := by
  simp [StructDef.bare, StructDef.uncommented, StructDef.relocate, FunctionDef.bare]

namespace Definition

def isComment : Definition → Bool
  | .comment _ => true
  | _ => false

theorem bareAll_cons (d : Definition) (ds : List Definition) :
    bareAll (d :: ds) = (if d.bare.isComment then [] else [d.bare]) ++ bareAll ds := by
  cases d <;> simp [bareAll, uncommentedAll, bare, uncommented, relocate, isComment]

theorem bareAll_append (ds ds' : List Definition) :
    bareAll (ds ++ ds') = bareAll ds ++ bareAll ds' := by
  induction ds with
  | nil => rfl
  | cons d ds ih => rw [List.cons_append, bareAll_cons, bareAll_cons, ih, List.append_assoc]

theorem bareAll_comments (cs : List Comment) : bareAll (cs.map comment) = [] := by
  induction cs with
  | nil => rfl
  | cons c cs ih => exact ih

theorem bareAll_flatten (items : List (List Definition)) :
    bareAll items.flatten = (items.map bareAll).flatten := by
  induction items with
  | nil => rfl
  | cons item items ih => simp [bareAll_append, ih]

end Definition

end FrontEnd
