/-
Tokens that leave nothing open.

A stretch of tokens is `Tidy` if no bracket that is opened in it is left open, wherever one starts
to count, if its last token asks for no other, and if no slash stands right before a star.  All
constructs are written with such tokens: a bracket that the grammar opens it also closes, and
behind a mark that a type or an operand has to follow it reads one.  The last point is about
texts: a slash right before a star may start a comment.

* `Tidy.append`, `Tidy.cons`, `Tidy.ahead`, `Tidy.bracketed` — how such stretches are put together;
* `TypeExpr.SpelledBy.tidy`, `Expr.SpelledBy.tidy`, `Block.SpelledBy.tidy`, `Definition.ItemBy.tidy`
  — the constructs of the grammar.
-/
import FrontEnd.Proofs.Grammar.Progress
import FrontEnd.Proofs.Parser.Comparing
import FrontEnd.Proofs.Token.Blanks

namespace FrontEnd

variable {α : Type}

namespace Parser

variable {t o c : Token} {ts us : List Token} {k : Kind}

/-! ### Brackets -/

theorem shut_cons_iff :
    Shut (t :: ts) ↔
      countKind (.symbol .openBracket) (t :: ts) ≤ countKind (.symbol .closeBracket) (t :: ts) ∧
        Shut ts := by
  refine ⟨fun h => ⟨h _ List.suffix_rfl, fun us hus => h us (hus.trans (List.suffix_cons t ts))⟩,
    fun h us hus => ?_⟩
  rcases List.suffix_cons_iff.mp hus with rfl | hus
  · exact h.1
  · exact h.2 us hus

theorem shut_nil : Shut [] := by
  intro us hus
  rw [List.suffix_nil.mp hus]
  exact Nat.le_refl _

theorem Shut.append (h : Shut ts) (h' : Shut us) : Shut (ts ++ us) := by
  induction ts with
  | nil => exact h'
  | cons t ts ih =>
    obtain ⟨hcount, htail⟩ := shut_cons_iff.mp h
    refine shut_cons_iff.mpr ⟨?_, ih htail⟩
    have hbehind := h' us List.suffix_rfl
    show countKind _ ((t :: ts) ++ us) ≤ countKind _ ((t :: ts) ++ us)
    simp only [countKind, List.countP_append] at hcount hbehind ⊢
    omega

/-- A token that opens no bracket. -/
theorem Shut.cons (ht : t.kind ≠ .symbol .openBracket) (h : Shut ts) : Shut (t :: ts) := by
  refine shut_cons_iff.mpr ⟨?_, h⟩
  have hcount := h ts List.suffix_rfl
  simp only [countKind, List.countP_cons, ht, decide_false] at hcount ⊢
  simp only [Bool.false_eq_true, if_false]
  omega

/-- Tokens between brackets. -/
theorem Shut.bracketed (ho : o.kind = .symbol .openBracket) (h : Shut ts)
    (hc : c.kind = .symbol .closeBracket) : Shut (o :: (ts ++ [c])) := by
  have hinside : Shut (ts ++ [c]) := h.append (shut_nil.cons (by simp [hc]))
  refine shut_cons_iff.mpr ⟨?_, hinside⟩
  have hcount := h ts List.suffix_rfl
  simpa [countKind, List.countP_cons, ho, hc] using hcount

/-! ### Tidy stretches -/

/-- The kinds of the tokens that another one has to follow. -/
def hanging : List Kind := .symbol .slash :: openers

/-- The tokens leave nothing open. -/
structure Tidy (ts : List Token) : Prop where
  shut : Shut ts
  last : ∀ t ∈ ts.getLast?, t.kind ∉ hanging
  apart : ts.IsChain Token.Apart

theorem tidy_nil : Tidy [] := ⟨shut_nil, by simp, .nil⟩

theorem Tidy.append (h : Tidy ts) (h' : Tidy us) : Tidy (ts ++ us) where
  shut := h.shut.append h'.shut
  last t ht := by
    rw [List.getLast?_append, Option.mem_def, Option.or_eq_some_iff] at ht
    exact ht.elim (h'.last t) fun ht => h.last t ht.2
  apart := by
    refine List.isChain_append.mpr ⟨h.apart, h'.apart, fun t ht u _ hboth => h.last t ht ?_⟩
    simp [hanging, hboth.1]

/-- A token that no other has to follow. -/
theorem Tidy.cons (ht : t.kind = k) (hk : k ∉ hanging) (h : Tidy ts) : Tidy (t :: ts) := by
  have hfirst : Tidy [t] := by
    refine ⟨shut_nil.cons ?_, ?_, .singleton t⟩
    · rw [ht]
      rintro rfl
      exact hk (by decide)
    · simpa [ht] using hk
  exact hfirst.append h

theorem tidy_singleton (ht : t.kind = k) (hk : k ∉ hanging) : Tidy [t] := tidy_nil.cons ht hk

/-- A token that another one has to follow, and what follows it. -/
theorem Tidy.ahead (ht : t.kind = k) (hk : k ≠ .symbol .openBracket) (h : Tidy ts)
    (hne : ts ≠ []) (hfirst : k = .symbol .slash → ∀ u ∈ ts.head?, u.kind ≠ .symbol .star) :
    Tidy (t :: ts) where
  shut := h.shut.cons (ht ▸ hk)
  last u hu := by
    rw [List.getLast?_cons, List.getLast?_eq_some_getLast hne] at hu
    exact h.last u (by rw [List.getLast?_eq_some_getLast hne]; exact hu)
  apart := List.isChain_cons.mpr
    ⟨fun u hu hboth => hfirst (ht.symm.trans hboth.1) u hu hboth.2, h.apart⟩

theorem Tidy.bracketed (ho : o.kind = .symbol .openBracket) (h : Tidy ts)
    (hc : c.kind = .symbol .closeBracket) : Tidy (o :: (ts ++ [c])) where
  shut := h.shut.bracketed ho hc
  last t ht := by
    rw [← List.cons_append, List.getLast?_concat, Option.mem_some_iff] at ht
    rw [← ht, hc]
    decide
  apart := by
    refine List.isChain_cons.mpr ⟨fun t _ hboth => ?_, ?_⟩
    · simp [ho] at hboth
    · exact (h.append (tidy_singleton hc (by decide))).apart

/-! ### Sequences -/

section

variable {V : α → List Token → Prop}

theorem Tidy.each {as : List α} (h : Each V as ts) (hV : ∀ a ∈ as, ∀ us, V a us → Tidy us) :
    Tidy ts := by
  induction h with
  | nil => exact tidy_nil
  | cons ha _ ih =>
    exact (hV _ (by simp) _ ha).append (ih fun a ha => hV a (List.mem_cons_of_mem _ ha))

theorem Tidy.separated {as : List α} (h : Separated k V as ts) (hk : k ∉ hanging)
    (hV : ∀ a ∈ as, ∀ us, V a us → Tidy us) : Tidy ts := by
  induction h with
  | nil => exact tidy_nil
  | one ha => exact hV _ (by simp) _ ha
  | more ha hsep _ ih =>
    refine (hV _ (by simp) _ ha).append (.cons hsep hk (ih fun a ha => hV a ?_))
    exact List.mem_cons_of_mem _ ha

theorem Tidy.optional {b : Bool} (h : Optional k b ts) (hk : k ∉ hanging) : Tidy ts := by
  cases h with
  | absent => exact tidy_nil
  | present ht => exact tidy_singleton ht hk

theorem Tidy.perhaps {a : Option α} (h : Perhaps V a ts) (hV : ∀ x ∈ a, ∀ us, V x us → Tidy us) :
    Tidy ts := by
  cases h with
  | none => exact tidy_nil
  | some h => exact hV _ rfl _ h

theorem Tidy.behind {a : α} (h : Behind k V a ts) (hk : k ∉ hanging)
    (hV : ∀ us, V a us → Tidy us) : Tidy ts := by
  cases h with
  | mk ht h => exact .cons ht hk (hV _ h)

end

end Parser

open FrontEnd.Parser (Tidy tidy_nil tidy_singleton)

variable {ts : List Token}

/-! ### Types -/

theorem Identifier.tidy (name : Identifier) (h : Tidy ts) : Tidy (name.token :: ts) :=
  .cons (k := .identifier) rfl (by decide) h

theorem Identifier.tidy_token (name : Identifier) : Tidy [name.token] := name.tidy tidy_nil

theorem Number.SpelledBy.tidy {n : Number} (h : n.SpelledBy ts) : Tidy ts := by
  obtain ⟨hkind, -, -⟩ := h
  exact tidy_singleton hkind (by decide)

theorem TypeExpr.SpelledBy.tidy {type : TypeExpr} (h : type.SpelledBy ts) : Tidy ts := by
  induction h with
  | primitive ht => exact tidy_singleton ht (by simp [Parser.hanging, Parser.openers])
  | string ht => exact tidy_singleton ht (by decide)
  | named name => exact name.tidy_token
  | @array o semi c _ es _ ns ho _ hsemi hlength hc ih =>
    rw [show es ++ semi :: (ns ++ [c]) = (es ++ semi :: ns) ++ [c] by simp]
    exact .bracketed ho (ih.append (.cons hsemi (by decide) hlength.tidy)) hc
  | pointer hstar hpointee ih =>
    exact .ahead hstar (by decide) ih hpointee.startsWith.ne_nil (by simp)
  | reference hmark hreferent ih =>
    exact .ahead hmark (by decide) ih hreferent.startsWith.ne_nil (by simp)
  | doubleReference hmarks hreferent ih =>
    exact .ahead hmarks (by decide) ih hreferent.startsWith.ne_nil (by simp)
  | generic name ho _ _ hc ih =>
    have hinside := ih.append (tidy_singleton hc (by decide))
    exact name.tidy (.ahead ho (by decide) hinside (by simp) (by simp))

theorem GenericClause.tidy {type : TypeExpr} (h : GenericClause type ts) : Tidy ts := by
  obtain ⟨ho, hargument, -, hc⟩ := h
  have hinside := hargument.tidy.append (tidy_singleton hc (by decide))
  exact .ahead ho (by decide) hinside (by simp) (by simp)

theorem tidy_generic {generic : Option TypeExpr} (h : Perhaps GenericClause generic ts) :
    Tidy ts := .perhaps h fun _ _ _ hclause => hclause.tidy

/-! ### Expressions -/

/-- No expression starts with a star. -/
theorem Expr.PrimaryBy.head_ne_star {e : Expr} (h : e.PrimaryBy ts) :
    ∀ u ∈ ts.head?, u.kind ≠ .symbol .star := by
  cases h with
  | number h => cases h with | mk hkind => simp [hkind]
  | char h => cases h with | mk hkind => simp [hkind]
  | string h => cases h with | mk hkind => simp [hkind]
  | null ht | true ht | false ht => simp [ht]
  | identifier | fieldAccess | arrayAccess => simp [Identifier.token]
  | call h => cases h; simp [Identifier.token]
  | matching h => cases h with | mk hword => simp [hword]

theorem Expr.SpelledBy.head_ne_star {e : Expr} {ts : List Token} (h : e.SpelledBy ts) :
    ∀ u ∈ ts.head?, u.kind ≠ .symbol .star := by
  cases h with
  | primary h => exact h.head_ne_star
  | binary hleft =>
    rw [List.head?_append_of_ne_nil _ hleft.ne_nil]
    exact hleft.head_ne_star
  | typecast hvalue =>
    rw [List.head?_append_of_ne_nil _ hvalue.ne_nil]
    exact hvalue.head_ne_star
termination_by sizeOf e

theorem ConstantList.SpelledBy.tidy {l : ConstantList} (h : l.SpelledBy ts) : Tidy ts := by
  obtain ⟨hfirst, hbar, hothers⟩ := h
  refine hfirst.tidy.append (.cons hbar (by decide) (.each hothers ?_))
  rintro n - us ⟨ns, b, bs, rfl, hn, hbar⟩
  exact hn.tidy.append (.optional hbar (by decide))

theorem CharLiteral.SpelledBy.tidy {l : CharLiteral} (h : l.SpelledBy ts) : Tidy ts := by
  obtain ⟨hkind⟩ := h
  exact tidy_singleton hkind (by decide)

mutual

theorem Expr.PrimaryBy.tidy {e : Expr} {ts : List Token} (h : e.PrimaryBy ts) : Tidy ts := by
  cases h with
  | number h => exact h.tidy
  | char h => exact h.tidy
  | string h =>
    obtain ⟨hkind⟩ := h
    exact tidy_singleton hkind (by decide)
  | null ht | true ht | false ht => exact tidy_singleton ht (by decide)
  | identifier name => exact name.tidy_token
  | call h => exact h.tidy
  | fieldAccess object hdot hmember => exact object.tidy (.cons hdot (by decide) hmember.tidy)
  | arrayAccess base ho hindex hc => exact base.tidy (.bracketed ho hindex.tidy hc)
  | matching h => exact h.tidy
termination_by (sizeOf e, 0)

theorem Expr.SpelledBy.tidy {e : Expr} {ts : List Token} (h : e.SpelledBy ts) : Tidy ts := by
  cases h with
  | primary hprimary => exact hprimary.tidy
  | @binary _ _ _ _ op _ hleft hop hright =>
    have hbracket : Kind.symbol op.symbol ≠ .symbol .openBracket := by cases op <;> decide
    refine hleft.tidy.append (.ahead hop hbracket hright.tidy hright.ne_nil ?_)
    exact fun _ => hright.head_ne_star
  | typecast hvalue hword htarget =>
    exact hvalue.tidy.append (.cons hword (by decide) htarget.tidy)
termination_by (sizeOf e, 1)
decreasing_by
  -- An expression without operators is the same expression, read by the first of the two.
  · subst_vars
    exact Prod.Lex.right _ (by decide)
  all_goals decreasing_tactic

theorem Call.SpelledBy.tidy {c : Call} {ts : List Token} (h : c.SpelledBy ts) : Tidy ts := by
  cases h with
  | mk function hgeneric ho harguments hc =>
    refine function.tidy ((tidy_generic hgeneric).append (.cons ho (by decide) ?_))
    refine Tidy.append ?_ (tidy_singleton hc (by decide))
    exact .separated harguments (by decide) fun _ _ _ hargument => hargument.tidy
termination_by (sizeOf c, 0)

theorem Match.SpelledBy.tidy {m : Match} {ts : List Token} (h : m.SpelledBy ts) : Tidy ts := by
  cases h with
  | mk hword hvalue ho harms hc =>
    refine .cons hword (by decide) (hvalue.tidy.append (.cons ho (by decide) ?_))
    refine Tidy.append ?_ (tidy_singleton hc (by decide))
    exact .each harms fun _ _ _ harm => harm.tidy
termination_by (sizeOf m, 0)

theorem MatchArm.SpelledBy.tidy {a : MatchArm} {ts : List Token} (h : a.SpelledBy ts) :
    Tidy ts := by
  cases h with
  | mk hkey harrow hvalue hcomma =>
    refine hkey.tidy.append (.cons harrow (by decide) (hvalue.tidy.append ?_))
    exact tidy_singleton hcomma (by decide)
termination_by (sizeOf a, 0)

theorem MatchKey.SpelledBy.tidy {key : MatchKey} {ts : List Token} (h : key.SpelledBy ts) :
    Tidy ts := by
  cases h with
  | identifier name => exact name.tidy_token
  | constants h => exact h.tidy
  | number h => exact h.tidy
  | char h => exact h.tidy
  | range h => exact h.tidy
termination_by (sizeOf key, 0)

theorem Range.SpelledBy.tidy {r : Range} {ts : List Token} (h : r.SpelledBy ts) : Tidy ts := by
  cases h with
  | mk hfirst hdots hinclusive hlast =>
    refine hfirst.tidy.append (.cons hdots (by decide) ?_)
    exact Tidy.append (.optional hinclusive (by decide)) hlast.tidy
termination_by (sizeOf r, 0)

end

theorem FieldInit.SpelledBy.tidy {f : FieldInit} (h : f.SpelledBy ts) : Tidy ts := by
  obtain ⟨name, hcolon, hvalue, hsemi⟩ := h
  refine name.tidy (.cons hcolon (by decide) (hvalue.tidy.append ?_))
  exact .optional hsemi (by decide)

theorem InitializerBy.tidy {e : Expr} (h : InitializerBy e ts) : Tidy ts := by
  cases h with
  | expression h => exact h.tidy
  | structInit h =>
    obtain ⟨name, hgeneric, ho, hfields, hc⟩ := h
    refine name.tidy ((tidy_generic hgeneric).append (.cons ho (by decide) ?_))
    refine Tidy.append ?_ (tidy_singleton hc (by decide))
    exact .each hfields fun _ _ _ hfield => hfield.tidy

theorem IterableBy.tidy {e : Expr} (h : IterableBy e ts) : Tidy ts := by
  cases h with
  | identifier name => exact name.tidy_token
  | range h => exact h.tidy

/-! ### Statements -/

theorem MutMarker.tidy {mutability : Option Span} (h : MutMarker mutability ts) : Tidy ts := by
  cases h with
  | absent => exact tidy_nil
  | present ht => exact tidy_singleton ht (by decide)

/-- The statement ends with a semicolon. -/
def Stmt.endsWithSemicolon : Stmt → Bool
  | .returning .. | .declaration .. | .assignment .. | .fieldAssignment .. | .arrayAssignment ..
  | .call .. | .matching .. | .breakLoop .. | .continueLoop .. => true
  | _ => false

/-- Before the semicolon that ends a statement nothing is left open. -/
theorem Stmt.SpelledBy.exists_semicolon {stmt : Stmt} (h : stmt.SpelledBy ts)
    (hform : stmt.endsWithSemicolon) :
    ∃ us semi, ts = us ++ [semi] ∧ us ≠ [] ∧ semi.kind = .symbol .semicolon ∧ Tidy us ∧
      stmt.span = covering ts := by
  cases h with
  | returning hword hvalue hsemi =>
    exact ⟨_ :: _, _, rfl, by simp, hsemi, .cons hword (by decide) hvalue.tidy, rfl⟩
  | @declaration name word colon semi _ ms _ ts _ vs hword hmut hcolon htype hvalue hsemi =>
    refine ⟨word :: (ms ++ name.token :: colon :: (ts ++ vs)), semi, by simp, by simp, hsemi, ?_,
      rfl⟩
    refine .cons hword (by decide) (hmut.tidy.append (name.tidy (.cons hcolon (by decide) ?_)))
    refine htype.tidy.append (.perhaps hvalue fun _ _ _ hinit => ?_)
    exact .behind hinit (by decide) fun _ h => h.tidy
  | assignment name heq hvalue hsemi =>
    exact ⟨_ :: _ :: _, _, rfl, by simp, hsemi, name.tidy (.cons heq (by decide) hvalue.tidy), rfl⟩
  | @fieldAssignment object dot eq semi _ _ ms vs hdot hmember _ heq hvalue hsemi =>
    refine ⟨object.token :: dot :: (ms ++ eq :: vs), semi, by simp, by simp, hsemi, ?_, rfl⟩
    refine object.tidy (.cons hdot (by decide) (hmember.tidy.append ?_))
    exact .cons heq (by decide) hvalue.tidy
  | @arrayAssignment _ _ _ ts is vs o c eq semi htarget ho hindex hc heq hvalue hsemi =>
    refine ⟨ts ++ ((o :: (is ++ [c])) ++ eq :: vs), semi, by simp, by simp, hsemi, ?_, rfl⟩
    refine htarget.tidy.append (Tidy.append (.bracketed ho hindex.tidy hc) ?_)
    exact .cons heq (by decide) hvalue.tidy
  | conditional | whileLoop | forLoop => simp [Stmt.endsWithSemicolon] at hform
  | breakLoop hword hsemi | continueLoop hword hsemi =>
    exact ⟨[_], _, rfl, by simp, hsemi, tidy_singleton hword (by decide), rfl⟩
  | call hcall hsemi => exact ⟨_, _, rfl, by cases hcall; simp, hsemi, hcall.tidy, rfl⟩
  | matching hmatch hsemi => exact ⟨_, _, rfl, by cases hmatch; simp, hsemi, hmatch.tidy, rfl⟩

mutual

theorem Stmt.SpelledBy.tidy {stmt : Stmt} {ts : List Token} (h : stmt.SpelledBy ts) : Tidy ts := by
  by_cases hform : stmt.endsWithSemicolon
  · obtain ⟨us, semi, rfl, -, hsemi, hus, -⟩ := h.exists_semicolon hform
    exact hus.append (tidy_singleton hsemi (by decide))
  · cases h with
    | conditional hword hcondition hif helse =>
      refine .cons hword (by decide) (hcondition.tidy.append (hif.tidy.append ?_))
      exact .perhaps helse fun _ _ _ h => .behind h (by decide) fun _ hblock => hblock.tidy
    | whileLoop hword hcondition hbody =>
      exact .cons hword (by decide) (hcondition.tidy.append hbody.tidy)
    | forLoop binding hword hlet hinside hiterable hbody =>
      refine .cons hword (by decide) (Tidy.append (.optional hlet (by decide)) ?_)
      exact binding.tidy (.cons hinside (by decide) (hiterable.tidy.append hbody.tidy))
    | _ => simp [Stmt.endsWithSemicolon] at hform
termination_by (sizeOf stmt, 0)

theorem Stmt.ItemBy.tidy {stmt : Stmt} {ts : List Token} (h : stmt.ItemBy ts) : Tidy ts := by
  cases h with
  | statement h => exact h.tidy
  | comment => exact tidy_nil
termination_by (sizeOf stmt, 1)
decreasing_by
  subst_vars
  exact Prod.Lex.right _ (by decide)

theorem Block.SpelledBy.tidy {b : Block} {ts : List Token} (h : b.SpelledBy ts) : Tidy ts := by
  cases h with
  | mk ho hstatements hc =>
    refine .cons ho (by decide) (Tidy.append ?_ (tidy_singleton hc (by decide)))
    exact .each hstatements fun _ _ _ hitem => hitem.tidy
termination_by (sizeOf b, 0)

end

/-! ### Definitions -/

theorem Parameter.SpelledBy.tidy {p : Parameter} (h : p.SpelledBy ts) : Tidy ts := by
  obtain ⟨name, hcolon, hmut, htype, hcomma⟩ := h
  refine name.tidy (.cons hcolon (by decide) (hmut.tidy.append (htype.tidy.append ?_)))
  exact .optional hcomma (by decide)

theorem ParameterList.tidy {ps : List Parameter} (h : ParameterList ps ts) : Tidy ts := by
  obtain ⟨ho, hparameters, hc⟩ := h
  refine .cons ho (by decide) (Tidy.append ?_ (tidy_singleton hc (by decide)))
  exact .each hparameters fun _ _ _ hp => hp.tidy

theorem ReturnTypeBy.tidy {type : Option TypeExpr} (h : ReturnTypeBy type ts) : Tidy ts :=
  .perhaps h fun _ _ _ hcolon => .behind hcolon (by decide) fun _ htype => htype.tidy

theorem FunctionDef.SpelledBy.tidy {f : FunctionDef} (h : f.SpelledBy ts) : Tidy ts := by
  obtain ⟨name, hword, hgeneric, hparameters, hreturn, hbody⟩ := h
  refine .cons hword (by decide) (name.tidy ((tidy_generic hgeneric).append ?_))
  exact hparameters.tidy.append (hreturn.tidy.append hbody.tidy)

theorem PathName.tidy {name : Identifier} (h : PathName name ts) : Tidy ts := by
  cases h with
  | bare => exact name.tidy_token
  | marked hmark =>
    refine name.tidy ?_
    rcases hmark with hmark | hmark
    · exact tidy_singleton hmark (by decide)
    · exact tidy_singleton hmark (by decide)

theorem Definition.SpelledBy.tidy {d : Definition} (h : d.SpelledBy ts) : Tidy ts := by
  cases h with
  | function h => exact h.tidy
  | external h =>
    obtain ⟨name, hword, hfn, hparameters, hreturn, hsemi⟩ := h
    refine .cons hword (by decide) (.cons hfn (by decide) (name.tidy (hparameters.tidy.append ?_)))
    exact hreturn.tidy.append (tidy_singleton hsemi (by decide))
  | struct h =>
    obtain ⟨name, -, hword, hgeneric, ho, hfields, hmethods, hc⟩ := h
    refine .cons hword (by decide) (name.tidy ((tidy_generic hgeneric).append ?_))
    refine .cons ho (by decide) (Tidy.append ?_ (Tidy.append ?_ (tidy_singleton hc (by decide))))
    · exact .each hfields fun _ _ _ hfield => hfield.tidy
    · exact .each hmethods fun _ _ _ hmethod => hmethod.tidy
  | use h =>
    obtain ⟨hword, hpath, hsemi⟩ := h
    refine .cons hword (by decide) (Tidy.append ?_ (tidy_singleton hsemi (by decide)))
    exact .each hpath fun _ _ _ hname => hname.tidy

theorem Definition.ItemBy.tidy {d : Definition} (h : d.ItemBy ts) : Tidy ts := by
  cases h with
  | definition h => exact h.tidy
  | comment => exact tidy_nil

end FrontEnd
