/-
A statement in the place of another.

* `Block.Holds`, `SourceFile.Holds` — a statement stands in one of the blocks of a tree, however
  deep;
* `Block.Swaps`, `SourceFile.Swaps` — two trees are the same, spans included, but for one
  statement: where it stands in the first tree, the second one has a list of others;
* `SourceFile.statements` — the statements in the blocks of a file, as a list.

A statement knows its place, so that it stands in a tree once at most.
-/
import FrontEnd.Definition.Basic

namespace FrontEnd

/-! ### One element of a list -/

section

variable {α β : Type} {R : α → α → Prop} {as as' : List α}

/-- The lists are the same but for one element, which is related to the one in its place. -/
inductive Altered (R : α → α → Prop) : List α → List α → Prop
  | mk (before : List α) {a a' : α} (after : List α) (h : R a a') :
    Altered R (before ++ a :: after) (before ++ a' :: after)

namespace Altered

theorem head {a a' : α} (h : R a a') (as : List α) : Altered R (a :: as) (a' :: as) :=
  .mk [] as h

theorem tail (a : α) (h : Altered R as as') : Altered R (a :: as) (a :: as') := by
  obtain ⟨before, after, h⟩ := h
  exact .mk (a :: before) after h

theorem append_left (before : List α) (h : Altered R as as') :
    Altered R (before ++ as) (before ++ as') := by
  obtain ⟨front, after, h⟩ := h
  rw [← List.append_assoc, ← List.append_assoc]
  exact .mk (before ++ front) after h

theorem map {S : β → β → Prop} {f : α → β} (hf : ∀ a a', R a a' → S (f a) (f a'))
    (h : Altered R as as') : Altered S (as.map f) (as'.map f) := by
  obtain ⟨before, after, h⟩ := h
  simpa using Altered.mk (before.map f) (after.map f) (hf _ _ h)

/-- Lists put end to end, one of which is altered. -/
theorem flatten {as as' : List (List α)} (h : Altered (Altered R) as as') :
    Altered R as.flatten as'.flatten := by
  obtain ⟨before, after, ⟨front, behind, h⟩⟩ := h
  simpa using Altered.mk (before.flatten ++ front) (behind ++ after.flatten) h

/-- What related elements agree in is the same. -/
theorem flatMap_eq {f : α → List β} (hf : ∀ a a', R a a' → f a = f a') (h : Altered R as as') :
    as.flatMap f = as'.flatMap f := by
  obtain ⟨before, after, h⟩ := h
  simp [hf _ _ h]

end Altered

end

/-! ### Statements and blocks -/

section

variable (x : Stmt)

mutual

/-- The statement stands in the block, or in a block inside it. -/
inductive Block.Holds : Block → Prop
  | item {statements : List Stmt} {span : Span} (h : x ∈ statements) :
    Block.Holds ⟨statements, span⟩
  | inside {statements : List Stmt} {span : Span} {stmt : Stmt} (hmem : stmt ∈ statements)
    (h : Stmt.Within stmt) : Block.Holds ⟨statements, span⟩

/-- The statement stands in a block of the other one. -/
inductive Stmt.Within : Stmt → Prop
  | ifBlock {condition : Expr} {ifBlock : Block} {elseBlock : Option Block} {span : Span}
    (h : Block.Holds ifBlock) : Stmt.Within (.conditional condition ifBlock elseBlock span)
  | elseBlock {condition : Expr} {ifBlock elseBlock : Block} {span : Span}
    (h : Block.Holds elseBlock) : Stmt.Within (.conditional condition ifBlock (some elseBlock) span)
  | whileBody {condition : Expr} {body : Block} {span : Span} (h : Block.Holds body) :
    Stmt.Within (.whileLoop condition body span)
  | forBody {hasLet : Bool} {binding : Identifier} {iterable : Expr} {body : Block} {span : Span}
    (h : Block.Holds body) : Stmt.Within (.forLoop hasLet binding iterable body span)

end

/-- The statement is one of the others, or stands in a block of one of them. -/
def Stmt.HeldAmong (statements : List Stmt) : Prop :=
  x ∈ statements ∨ ∃ stmt ∈ statements, x.Within stmt

theorem Block.holds_iff {statements : List Stmt} {span : Span} :
    Block.Holds x ⟨statements, span⟩ ↔ Stmt.HeldAmong x statements := by
  refine ⟨fun h => ?_, fun h => ?_⟩
  · cases h with
    | item h => exact .inl h
    | inside hmem h => exact .inr ⟨_, hmem, h⟩
  · rcases h with h | ⟨stmt, hmem, h⟩
    · exact .item h
    · exact .inside hmem h

mutual

/-- The statements of the block, and of the blocks inside it. -/
def Block.all : Block → List Stmt
  | ⟨statements, _⟩ => statements ++ Stmt.allInside statements

/-- The statements in the blocks of all the statements. -/
def Stmt.allInside : List Stmt → List Stmt
  | [] => []
  | stmt :: rest => stmt.inside ++ Stmt.allInside rest

/-- The statements in the blocks of the statement. -/
def Stmt.inside : Stmt → List Stmt
  | .conditional _ ifBlock none _ => ifBlock.all
  | .conditional _ ifBlock (some elseBlock) _ => ifBlock.all ++ elseBlock.all
  | .whileLoop _ body _ => body.all
  | .forLoop _ _ _ body _ => body.all
  | _ => []

end

variable {x} in
mutual

/-- What is listed stands in the block. -/
theorem Block.holds_of_mem_all {block : Block} (h : x ∈ block.all) : block.Holds x := by
  cases block with
  | mk statements span =>
    rw [Block.all] at h
    refine (Block.holds_iff x).mpr ((List.mem_append.mp h).imp_right fun h => ?_)
    exact Stmt.exists_within_of_mem h

theorem Stmt.exists_within_of_mem {statements : List Stmt} (h : x ∈ Stmt.allInside statements) :
    ∃ stmt ∈ statements, x.Within stmt := by
  cases statements with
  | nil => simp [Stmt.allInside] at h
  | cons stmt rest =>
    rw [Stmt.allInside] at h
    rcases List.mem_append.mp h with h | h
    · exact ⟨stmt, List.mem_cons_self, Stmt.within_of_mem_inside h⟩
    · obtain ⟨other, hmem, hx⟩ := Stmt.exists_within_of_mem h
      exact ⟨other, List.mem_cons_of_mem stmt hmem, hx⟩

theorem Stmt.within_of_mem_inside {stmt : Stmt} (h : x ∈ stmt.inside) : x.Within stmt := by
  cases stmt with
  | conditional condition ifBlock elseBlock span =>
    cases elseBlock with
    | none => exact .ifBlock (Block.holds_of_mem_all h)
    | some elseBlock =>
      rw [Stmt.inside] at h
      rcases List.mem_append.mp h with h | h
      · exact .ifBlock (Block.holds_of_mem_all h)
      · exact .elseBlock (Block.holds_of_mem_all h)
  | whileLoop condition body span => exact .whileBody (Block.holds_of_mem_all h)
  | forLoop hasLet binding iterable body span => exact .forBody (Block.holds_of_mem_all h)
  | _ => simp [Stmt.inside] at h

end

variable (ys : List Stmt)

mutual

/-- Among the statements, or in a block inside one of them, `x` is replaced by `ys`. -/
inductive Stmt.SwapsAmong : List Stmt → List Stmt → Prop
  | here (before after : List Stmt) :
    Stmt.SwapsAmong (before ++ x :: after) (before ++ (ys ++ after))
  | inside (before : List Stmt) {stmt stmt' : Stmt} (after : List Stmt)
    (h : Stmt.Swaps stmt stmt') : Stmt.SwapsAmong (before ++ stmt :: after) (before ++ stmt' :: after)

/-- In a block of the statement `x` is replaced by `ys`. -/
inductive Stmt.Swaps : Stmt → Stmt → Prop
  | ifBlock {condition : Expr} {ifBlock ifBlock' : Block} {elseBlock : Option Block} {span : Span}
    (h : Block.Swaps ifBlock ifBlock') :
    Stmt.Swaps (.conditional condition ifBlock elseBlock span)
      (.conditional condition ifBlock' elseBlock span)
  | elseBlock {condition : Expr} {ifBlock elseBlock elseBlock' : Block} {span : Span}
    (h : Block.Swaps elseBlock elseBlock') :
    Stmt.Swaps (.conditional condition ifBlock (some elseBlock) span)
      (.conditional condition ifBlock (some elseBlock') span)
  | whileBody {condition : Expr} {body body' : Block} {span : Span} (h : Block.Swaps body body') :
    Stmt.Swaps (.whileLoop condition body span) (.whileLoop condition body' span)
  | forBody {hasLet : Bool} {binding : Identifier} {iterable : Expr} {body body' : Block}
    {span : Span} (h : Block.Swaps body body') :
    Stmt.Swaps (.forLoop hasLet binding iterable body span)
      (.forLoop hasLet binding iterable body' span)

/-- In the block `x` is replaced by `ys`. -/
inductive Block.Swaps : Block → Block → Prop
  | mk {statements statements' : List Stmt} {span : Span}
    (h : Stmt.SwapsAmong statements statements') :
    Block.Swaps ⟨statements, span⟩ ⟨statements', span⟩

end

end

namespace Stmt.SwapsAmong

variable {x : Stmt} {ys statements statements' : List Stmt}

theorem append_left (before : List Stmt) (h : SwapsAmong x ys statements statements') :
    SwapsAmong x ys (before ++ statements) (before ++ statements') := by
  cases h with
  | here front after =>
    rw [← List.append_assoc, ← List.append_assoc]
    exact .here (before ++ front) after
  | inside front after h =>
    rw [← List.append_assoc, ← List.append_assoc]
    exact .inside (before ++ front) after h

theorem append_right (h : SwapsAmong x ys statements statements') (after : List Stmt) :
    SwapsAmong x ys (statements ++ after) (statements' ++ after) := by
  cases h with
  | here front behind => simpa using here front (behind ++ after)
  | inside front behind h => simpa using inside front (behind ++ after) h

/-- Lists of statements put end to end. -/
theorem flatten {items items' : List (List Stmt)} (h : Altered (SwapsAmong x ys) items items') :
    SwapsAmong x ys items.flatten items'.flatten := by
  obtain ⟨before, after, h⟩ := h
  simpa using (h.append_right after.flatten).append_left before.flatten

end Stmt.SwapsAmong

/-! ### Definitions and files -/

section

variable (x : Stmt)

/-- The statement stands in the body of the function. -/
def FunctionDef.Holds (f : FunctionDef) : Prop := f.body.Holds x

/-- The statement stands in a method of the struct. -/
def StructDef.Holds (d : StructDef) : Prop := ∃ f ∈ d.methods, f.Holds x

/-- The statement stands in the definition. -/
def Definition.Holds : Definition → Prop
  | .function f => f.Holds x
  | .struct d => d.Holds x
  | _ => False

/-- The statement stands in the file. -/
def SourceFile.Holds (file : SourceFile) : Prop := ∃ d ∈ file.definitions, d.Holds x

/-- The statements in the definition. -/
def Definition.statements : Definition → List Stmt
  | .function f => f.body.all
  | .struct d => d.methods.flatMap (·.body.all)
  | _ => []

/-- The statements in the file. -/
def SourceFile.statements (file : SourceFile) : List Stmt :=
  file.definitions.flatMap Definition.statements

variable {x} in
theorem SourceFile.holds_of_mem_statements {file : SourceFile} (h : x ∈ file.statements) :
    file.Holds x := by
  obtain ⟨d, hmem, h⟩ := List.mem_flatMap.mp h
  refine ⟨d, hmem, ?_⟩
  cases d with
  | function f => exact Block.holds_of_mem_all h
  | struct d =>
    obtain ⟨f, hf, h⟩ := List.mem_flatMap.mp h
    exact ⟨f, hf, Block.holds_of_mem_all h⟩
  | _ => simp [Definition.statements] at h

variable (ys : List Stmt)

/-- In the body of the function `x` is replaced by `ys`. -/
inductive FunctionDef.Swaps : FunctionDef → FunctionDef → Prop
  | mk {name : Identifier} {generic : Option TypeExpr} {parameters : List Parameter}
    {returnType : Option TypeExpr} {body body' : Block} {span : Span}
    (h : Block.Swaps x ys body body') :
    FunctionDef.Swaps ⟨name, generic, parameters, returnType, body, span⟩
      ⟨name, generic, parameters, returnType, body', span⟩

/-- In a method of the struct `x` is replaced by `ys`. -/
inductive StructDef.Swaps : StructDef → StructDef → Prop
  | mk {name : Identifier} {generic : Option TypeExpr} {fields : List Parameter}
    {methods methods' : List FunctionDef} {comments : List Comment} {span : Span}
    (h : Altered (FunctionDef.Swaps x ys) methods methods') :
    StructDef.Swaps ⟨name, generic, fields, methods, comments, span⟩
      ⟨name, generic, fields, methods', comments, span⟩

/-- In the definition `x` is replaced by `ys`. -/
inductive Definition.Swaps : Definition → Definition → Prop
  | function {f f' : FunctionDef} (h : FunctionDef.Swaps x ys f f') :
    Definition.Swaps (.function f) (.function f')
  | struct {d d' : StructDef} (h : StructDef.Swaps x ys d d') :
    Definition.Swaps (.struct d) (.struct d')

/-- In the file `x` is replaced by `ys`. -/
inductive SourceFile.Swaps : SourceFile → SourceFile → Prop
  | mk {definitions definitions' : List Definition} {span : Span}
    (h : Altered (Definition.Swaps x ys) definitions definitions') :
    SourceFile.Swaps ⟨definitions, span⟩ ⟨definitions', span⟩

end

end FrontEnd
