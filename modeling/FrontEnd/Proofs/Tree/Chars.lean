/-
Char literals in a tree.

A char literal is an expression or a key of a match.  Wherever it stands, it is one char token of
the text, with the parts that the text of this token has; skipped stretches hold none.

* `SourceFile.chars` — the char literals of a file, in the order of its tree;
* `FromTokens` — each of some char literals is spelled by one of some tokens;
* `Expr.SpelledBy.chars`, `Stmt.MadeOf.chars`, `Definition.MadeOf.chars` — this holds for every
  construct and the tokens it is made of;
* `exists_charToken` — so for the tree of every text.
-/
import FrontEnd.Proofs.Grammar.Making

namespace FrontEnd

/-! ### Enumeration -/

mutual

/-- The char literals of an expression. -/
def Expr.chars : Expr → List CharLiteral
  | .char l => [l]
  | .binary left _ right _ => left.chars ++ right.chars
  | .call c => c.chars
  | .fieldAccess _ member _ => member.chars
  | .matching m => m.chars
  | .typecast value _ _ => value.chars
  | .arrayAccess _ index _ => index.chars
  | .structInit init => init.chars
  | .range r => r.chars
  | .number _ | .string _ | .null _ | .bool _ _ | .identifier _ => []

def Call.chars : Call → List CharLiteral
  | ⟨_, _, arguments, _⟩ => Expr.charsOf arguments

def Match.chars : Match → List CharLiteral
  | ⟨value, arms, _⟩ => value.chars ++ MatchArm.charsOf arms

def MatchArm.chars : MatchArm → List CharLiteral
  | ⟨key, value, _⟩ => key.chars ++ value.chars

def MatchKey.chars : MatchKey → List CharLiteral
  | .char l => [l]
  | .range r => r.chars
  | .identifier _ | .constants _ | .number _ => []

def Range.chars : Range → List CharLiteral
  | ⟨first, _, last, _⟩ => first.chars ++ last.chars

def StructInit.chars : StructInit → List CharLiteral
  | ⟨_, _, fields, _⟩ => FieldInit.charsOf fields

def FieldInit.chars : FieldInit → List CharLiteral
  | ⟨_, value, _⟩ => value.chars

def Expr.charsOf : List Expr → List CharLiteral
  | [] => []
  | e :: es => e.chars ++ Expr.charsOf es

def MatchArm.charsOf : List MatchArm → List CharLiteral
  | [] => []
  | a :: as => a.chars ++ MatchArm.charsOf as

def FieldInit.charsOf : List FieldInit → List CharLiteral
  | [] => []
  | f :: fs => f.chars ++ FieldInit.charsOf fs

end

mutual

/-- The char literals of a statement. -/
def Stmt.chars : Stmt → List CharLiteral
  | .returning value _ => value.chars
  | .declaration _ _ _ value _ => value.toList.flatMap Expr.chars
  | .assignment _ value _ => value.chars
  | .fieldAssignment _ name value _ => name.chars ++ value.chars
  | .arrayAssignment name index value _ => name.chars ++ (index.chars ++ value.chars)
  | .conditional condition ifBlock none _ => condition.chars ++ ifBlock.chars
  | .conditional condition ifBlock (some elseBlock) _ =>
    condition.chars ++ (ifBlock.chars ++ elseBlock.chars)
  | .whileLoop condition body _ => condition.chars ++ body.chars
  | .forLoop _ _ iterable body _ => iterable.chars ++ body.chars
  | .call c _ => c.chars
  | .matching m _ => m.chars
  | .breakLoop _ | .continueLoop _ | .comment _ | .error _ => []

def Block.chars : Block → List CharLiteral
  | ⟨statements, _⟩ => Stmt.charsOf statements

def Stmt.charsOf : List Stmt → List CharLiteral
  | [] => []
  | s :: ss => s.chars ++ Stmt.charsOf ss

end

/-- The char literals of a definition. -/
def Definition.chars : Definition → List CharLiteral
  | .function f => f.body.chars
  | .struct d => d.methods.flatMap (·.body.chars)
  | .external _ | .use _ | .comment _ | .error _ => []

/-- The char literals of a file. -/
def SourceFile.chars (f : SourceFile) : List CharLiteral := f.definitions.flatMap Definition.chars

theorem Expr.charsOf_eq (es : List Expr) : Expr.charsOf es = es.flatMap Expr.chars := by
  induction es with
  | nil => rw [Expr.charsOf, List.flatMap_nil]
  | cons e es ih => rw [Expr.charsOf, ih, List.flatMap_cons]

theorem MatchArm.charsOf_eq (as : List MatchArm) :
    MatchArm.charsOf as = as.flatMap MatchArm.chars := by
  induction as with
  | nil => rw [MatchArm.charsOf, List.flatMap_nil]
  | cons a as ih => rw [MatchArm.charsOf, ih, List.flatMap_cons]

theorem FieldInit.charsOf_eq (fs : List FieldInit) :
    FieldInit.charsOf fs = fs.flatMap FieldInit.chars := by
  induction fs with
  | nil => rw [FieldInit.charsOf, List.flatMap_nil]
  | cons f fs ih => rw [FieldInit.charsOf, ih, List.flatMap_cons]

theorem Stmt.charsOf_eq (ss : List Stmt) : Stmt.charsOf ss = ss.flatMap Stmt.chars := by
  induction ss with
  | nil => rw [Stmt.charsOf, List.flatMap_nil]
  | cons s ss ih => rw [Stmt.charsOf, ih, List.flatMap_cons]

/-! ### Literals of tokens -/

/-- Each of the literals is one of the tokens. -/
def FromTokens (ts : List Token) (ls : List CharLiteral) : Prop :=
  ∀ l ∈ ls, ∃ t ∈ ts, l.SpelledBy [t]

namespace FromTokens

variable {α : Type} {t : Token} {ts us : List Token} {ls ms : List CharLiteral}

theorem none : FromTokens ts [] := fun _ h => absurd h List.not_mem_nil

theorem mono (h : FromTokens ts ls) (hts : ts ⊆ us) : FromTokens us ls := by
  intro l hl
  obtain ⟨t, ht, hspelled⟩ := h l hl
  exact ⟨t, hts ht, hspelled⟩

theorem append (h : FromTokens ts ls) (h' : FromTokens us ms) :
    FromTokens (ts ++ us) (ls ++ ms) := by
  intro l hl
  rcases List.mem_append.mp hl with hl | hl
  · exact h.mono (List.subset_append_left ts us) l hl
  · exact h'.mono (List.subset_append_right ts us) l hl

theorem token (h : FromTokens ts ls) : FromTokens (t :: ts) ls :=
  h.mono (List.subset_cons_self t ts)

theorem behind (h : FromTokens ts ls) : FromTokens (us ++ ts) ls :=
  h.mono (List.subset_append_right us ts)

theorem before (h : FromTokens ts ls) : FromTokens (ts ++ us) ls :=
  h.mono (List.subset_append_left ts us)

theorem each {V : α → List Token → Prop} {f : α → List CharLiteral} {as : List α}
    (h : Each V as ts) (hf : ∀ a ∈ as, ∀ us, V a us → FromTokens us (f a)) :
    FromTokens ts (as.flatMap f) := by
  intro l hl
  obtain ⟨a, ha, hla⟩ := List.mem_flatMap.mp hl
  obtain ⟨us, hus, hv⟩ := h.of_mem ha
  exact (hf a ha us hv).mono hus.subset l hla

theorem separated {k : Kind} {V : α → List Token → Prop} {f : α → List CharLiteral} {as : List α}
    (h : Separated k V as ts) (hf : ∀ a ∈ as, ∀ us, V a us → FromTokens us (f a)) :
    FromTokens ts (as.flatMap f) := by
  induction h with
  | nil => exact .none
  | one hv => simpa using hf _ (by simp) _ hv
  | more hv _ _ ih =>
    rw [List.flatMap_cons]
    exact (hf _ (by simp) _ hv).append (ih fun b hb => hf b (List.mem_cons_of_mem _ hb)).token

end FromTokens

theorem CharLiteral.SpelledBy.chars {l : CharLiteral} {ts : List Token} (h : l.SpelledBy ts) :
    FromTokens ts [l] := by
  intro l' hl'
  rw [List.mem_singleton.mp hl']
  cases h with
  | @mk t hkind => exact ⟨t, by simp, .mk hkind⟩

/-! ### Expressions -/

mutual

theorem Expr.PrimaryBy.chars {e : Expr} {ts : List Token} (h : e.PrimaryBy ts) :
    FromTokens ts e.chars := by
  cases h with
  | char h => rw [Expr.chars]; exact h.chars
  | call h => rw [Expr.chars]; exact h.chars
  | fieldAccess object hdot hmember =>
    rw [Expr.chars]
    exact hmember.chars.token.token
  | arrayAccess base ho hindex hc =>
    rw [Expr.chars]
    exact hindex.chars.before.token.token
  | matching h => rw [Expr.chars]; exact h.chars
  | number | string | null | true | false | identifier =>
    rw [Expr.chars]
    exact .none
termination_by (sizeOf e, 0)

theorem Expr.SpelledBy.chars {e : Expr} {ts : List Token} (h : e.SpelledBy ts) :
    FromTokens ts e.chars := by
  cases h with
  | primary hprimary => exact hprimary.chars
  | binary hleft hop hright =>
    rw [Expr.chars]
    exact hleft.chars.append hright.chars.token
  | typecast hvalue hword htarget =>
    rw [Expr.chars]
    exact hvalue.chars.before
termination_by (sizeOf e, 1)
decreasing_by
  -- An expression without operators is the same expression, read by the first of the two.
  · subst_vars
    exact Prod.Lex.right _ (by decide)
  all_goals decreasing_tactic

theorem Call.SpelledBy.chars {c : Call} {ts : List Token} (h : c.SpelledBy ts) :
    FromTokens ts c.chars := by
  cases h with
  | mk function hgeneric ho harguments hc =>
    rw [Call.chars, Expr.charsOf_eq]
    exact (FromTokens.separated harguments fun e he us hus => hus.chars).before.token.behind.token
termination_by (sizeOf c, 0)

theorem Match.SpelledBy.chars {m : Match} {ts : List Token} (h : m.SpelledBy ts) :
    FromTokens ts m.chars := by
  cases h with
  | mk hword hvalue ho harms hc =>
    rw [Match.chars, MatchArm.charsOf_eq]
    have harms' := FromTokens.each harms fun a ha us hus => hus.chars
    exact (hvalue.chars.append harms'.before.token).token
termination_by (sizeOf m, 0)

theorem MatchArm.SpelledBy.chars {a : MatchArm} {ts : List Token} (h : a.SpelledBy ts) :
    FromTokens ts a.chars := by
  cases h with
  | mk hkey harrow hvalue hcomma =>
    rw [MatchArm.chars]
    exact hkey.chars.append hvalue.chars.before.token
termination_by (sizeOf a, 0)

theorem MatchKey.SpelledBy.chars {key : MatchKey} {ts : List Token} (h : key.SpelledBy ts) :
    FromTokens ts key.chars := by
  cases h with
  | char h => rw [MatchKey.chars]; exact h.chars
  | range h => rw [MatchKey.chars]; exact h.chars
  | identifier | constants | number =>
    rw [MatchKey.chars]
    exact .none
termination_by (sizeOf key, 0)

theorem Range.SpelledBy.chars {r : Range} {ts : List Token} (h : r.SpelledBy ts) :
    FromTokens ts r.chars := by
  cases h with
  | mk hfirst hdots hinclusive hlast =>
    rw [Range.chars]
    exact hfirst.chars.append hlast.chars.behind.token
termination_by (sizeOf r, 0)

end

theorem FieldInit.SpelledBy.chars {f : FieldInit} {ts : List Token} (h : f.SpelledBy ts) :
    FromTokens ts f.chars := by
  cases h with
  | mk name hcolon hvalue hsemi =>
    rw [FieldInit.chars]
    exact hvalue.chars.before.token.token

theorem InitializerBy.chars {e : Expr} {ts : List Token} (h : InitializerBy e ts) :
    FromTokens ts e.chars := by
  cases h with
  | expression h => exact h.chars
  | structInit h =>
    cases h with
    | mk name hgeneric ho hfields hc =>
      rw [Expr.chars, StructInit.chars, FieldInit.charsOf_eq]
      have hall := FromTokens.each hfields fun _ _ _ hfield => hfield.chars
      exact hall.before.token.behind.token

theorem IterableBy.chars {e : Expr} {ts : List Token} (h : IterableBy e ts) :
    FromTokens ts e.chars := by
  cases h with
  | identifier =>
    rw [Expr.chars]
    exact .none
  | range h => rw [Expr.chars]; exact h.chars

/-! ### Statements -/

/-- A statement without blocks. -/
theorem Stmt.SpelledBy.chars {stmt : Stmt} {ts : List Token} (h : stmt.SpelledBy ts)
    (hflat : stmt.holdsBlock = false) : FromTokens ts stmt.chars := by
  cases h with
  | returning hword hvalue hsemi =>
    rw [Stmt.chars]
    exact hvalue.chars.before.token
  | declaration name hword hmut hcolon htype hvalue hsemi =>
    rw [Stmt.chars]
    cases hvalue with
    | none => exact .none
    | some hbehind =>
      obtain ⟨-, hinit⟩ := hbehind
      simp only [Option.toList_some, List.flatMap_singleton]
      exact hinit.chars.token.before.behind.token.token.behind.token
  | assignment name heq hvalue hsemi =>
    rw [Stmt.chars]
    exact hvalue.chars.before.token.token
  | fieldAssignment object hdot hmember hform heq hvalue hsemi =>
    rw [Stmt.chars]
    exact (hmember.chars.append hvalue.chars.before.token).token.token
  | arrayAssignment htarget ho hindex hc heq hvalue hsemi =>
    rw [Stmt.chars]
    exact htarget.chars.append (hindex.chars.append hvalue.chars.before.token.token).token
  | conditional | whileLoop | forLoop => simp [Stmt.holdsBlock] at hflat
  | breakLoop | continueLoop =>
    rw [Stmt.chars]
    exact .none
  | call hcall hsemi =>
    rw [Stmt.chars]
    exact hcall.chars.before
  | matching hmatch hsemi =>
    rw [Stmt.chars]
    exact hmatch.chars.before

section

variable {C : Comment → Prop}

mutual

theorem Stmt.MadeOf.chars {stmt : Stmt} {ts : List Token} (h : stmt.MadeOf C ts) :
    FromTokens ts stmt.chars := by
  cases h with
  | flat hspelled hflat => exact hspelled.chars hflat
  | conditional hword hcondition hif helse =>
    cases helse with
    | none =>
      rw [Stmt.chars]
      exact (hcondition.chars.append hif.chars.before).token
    | some hbehind =>
      obtain ⟨-, helse⟩ := hbehind
      rw [Stmt.chars]
      exact (hcondition.chars.append (hif.chars.append helse.chars.token)).token
  | whileLoop hword hcondition hbody =>
    rw [Stmt.chars]
    exact (hcondition.chars.append hbody.chars).token
  | forLoop binding hword hlet hinside hiterable hbody =>
    rw [Stmt.chars]
    exact (hiterable.chars.append hbody.chars).token.token.behind.token
  | skipped | comment =>
    rw [Stmt.chars]
    exact .none
termination_by sizeOf stmt

theorem Block.MadeOf.chars {b : Block} {ts : List Token} (h : b.MadeOf C ts) :
    FromTokens ts b.chars := by
  cases h with
  | mk ho hstatements hclosing =>
    rw [Block.chars, Stmt.charsOf_eq]
    exact (FromTokens.each hstatements fun _ _ _ hstmt => hstmt.chars).before.token
termination_by sizeOf b

end

theorem FunctionDef.MadeOf.chars {f : FunctionDef} {ts : List Token} (h : f.MadeOf C ts) :
    FromTokens ts f.body.chars := by
  cases h with
  | mk name hword hgeneric hparameters hreturn hbody =>
    exact hbody.chars.behind.behind.behind.token.token

theorem Definition.MadeOf.chars {d : Definition} {ts : List Token} (h : d.MadeOf C ts) :
    FromTokens ts d.chars := by
  cases h with
  | function hf => exact hf.chars
  | struct hd =>
    cases hd with
    | mk name hword hgeneric ho hfields hmethods hc hcomments =>
      have hall := FromTokens.each hmethods fun _ _ _ hmethod => hmethod.chars
      exact hall.before.behind.token.behind.token.token
  | external | use | skipped | comment => exact .none

end

/-- Every char literal in the tree of a text is a char token of the text. -/
theorem exists_charToken {source : String} {l : CharLiteral}
    (h : l ∈ (parseSource source).file.chars) :
    ∃ t ∈ placedTokens Position.start (lexemes source.toList), t.kind = .char ∧
      l = ⟨Parser.literalParts t '\'', t.span⟩ := by
  obtain ⟨hmade, -⟩ := parseSource_made source
  obtain ⟨t, ht, hspelled⟩ := FromTokens.each hmade (fun _ _ _ hd => hd.chars) l h
  refine ⟨t, ht, ?_⟩
  cases hspelled with
  | mk hkind => exact ⟨hkind, rfl⟩

end FrontEnd
