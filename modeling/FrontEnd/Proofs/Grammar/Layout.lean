/-
Where a tree lies that is written with tokens.

A construct that is spelled by a list of tokens grows over these tokens:

* `TypeExpr.SpelledBy.grows`, `Expr.SpelledBy.grows` — types and expressions;
* `Stmt.SpelledBy.covered` — statements without blocks;
* `Parameter.SpelledBy.covered`, `ExternalFunction.SpelledBy.covered`,
  `UseStatement.SpelledBy.covered` — what definitions without blocks are made of.

Most constructs cover their tokens.  The others start with their first part and end with their
last, or start inside a token: the second of two references that are written as one token, and
the parts of a literal.
-/
import FrontEnd.Proofs.Grammar.Progress
import FrontEnd.Proofs.Grammar.Soundness
import FrontEnd.Proofs.Tree.Growth

namespace FrontEnd

variable {α : Type} {T : List Token}

/-! ### Lists -/

theorem Each.grows {V : α → List Token → Prop} {view : α → Node} {as : List α}
    {ts : List Token} (h : Each V as ts)
    (hv : ∀ a ∈ as, ∀ us, V a us → Grows us [view a]) : Grows ts (as.map view) := by
  induction h with
  | nil => exact .nil
  | @cons a us as vs ha _ ih =>
    exact .append (hv a (by simp) us ha) (ih fun b hb => hv b (by simp [hb]))

theorem Separated.grows {k : Kind} {V : α → List Token → Prop} {view : α → Node} {as : List α}
    {ts : List Token} (h : Separated k V as ts) (hk : k.isMark)
    (hv : ∀ a ∈ as, ∀ us, V a us → Grows us [view a]) : Grows ts (as.map view) := by
  induction h with
  | nil => exact .nil
  | @one a ts ha => exact hv a (by simp) ts ha
  | @more a us sep b as vs ha hsep _ ih =>
    exact .append (hv a (by simp) us ha) (.token hsep hk (ih fun c hc => hv c (by simp_all)))

theorem Perhaps.grows {V : α → List Token → Prop} {view : α → Node} {o : Option α}
    {ts : List Token} (h : Perhaps V o ts)
    (hv : ∀ a ∈ o, ∀ us, V a us → Grows us [view a]) : Grows ts (o.toList.map view) := by
  cases h with
  | none => exact .nil
  | some ha => exact hv _ rfl _ ha

theorem Behind.grows {k : Kind} {V : α → List Token → Prop} {a : α} {n : Node}
    {ts : List Token} (h : Behind k V a ts) (hk : k.isMark) (hv : ∀ us, V a us → Grows us [n]) :
    Grows ts [n] := by
  cases h with
  | mk ht ha => exact .token ht hk (hv _ ha)

/-! ### Names and literals -/

theorem Identifier.grows (name : Identifier) : Grows [name.token] [name.toNode] :=
  .leaf (.name rfl)

theorem Number.SpelledBy.grows {n : Number} {ts : List Token} (h : n.SpelledBy ts) :
    Grows ts [n.toNode] := by
  cases h with
  | mk hkind hvalue hlimit => exact .leaf (.number hkind hvalue hlimit)

theorem MutMarker.grows {mutability : Option Span} {ts : List Token}
    (h : MutMarker mutability ts) : Grows ts (mutability.toList.map mutNode) := by
  cases h with
  | absent => exact .nil
  | present ht => exact .leaf (.keyword rfl ht)

theorem StringLiteral.SpelledBy.grows {l : StringLiteral} {ts : List Token}
    (h : l.SpelledBy ts) : Grows ts [l.toNode] := by
  cases h with
  | mk hkind => exact .literal (hkind ▸ .string) rfl rfl rfl

theorem CharLiteral.SpelledBy.grows {l : CharLiteral} {ts : List Token}
    (h : l.SpelledBy ts) : Grows ts [l.toNode] := by
  cases h with
  | mk hkind => exact .literal (hkind ▸ .char) rfl rfl rfl

/-! ### Types -/

theorem TypeExpr.SpelledBy.grows {type : TypeExpr} {ts : List Token} (h : type.SpelledBy ts) :
    Grows ts [type.toNode] := by
  induction h with
  | primitive ht => exact .leaf (.primitive ht)
  | string ht => exact .leaf (.keyword rfl ht)
  | named => exact .leaf (.typeName rfl)
  | array ho helement hsemi hlength hc ih =>
    refine .cover (.token ho rfl (ih.append (.token hsemi rfl ?_))) (by simp) rfl rfl
    exact hlength.grows.token_behind hc rfl
  | pointer hstar hpointee ih => exact .cover (.token hstar rfl ih) (by simp) rfl rfl
  | reference hmark hreferent ih => exact .cover (.token hmark rfl ih) (by simp) rfl rfl
  | doubleReference hmarks hreferent ih =>
    refine .cover ?_ (by simp) rfl rfl
    exact .inner hmarks ih hreferent.startsWith.ne_nil rfl rfl
  | generic name ho hargument hplain hc ih =>
    refine .cover ?_ (by simp) rfl rfl
    exact .append name.grows (.token ho rfl (ih.token_behind hc rfl))

theorem GenericClause.grows {type : TypeExpr} {ts : List Token} (h : GenericClause type ts) :
    Grows ts [type.toNode] := by
  cases h with
  | mk ho hargument hplain hc => exact .token ho rfl (hargument.grows.token_behind hc rfl)

theorem grows_genericNodes {generic : Option TypeExpr} {ts : List Token}
    (h : Perhaps GenericClause generic ts) : Grows ts (genericNodes generic) :=
  Perhaps.grows h fun _ _ _ hclause => hclause.grows

/-! ### Expressions -/

theorem ConstantList.SpelledBy.grows {l : ConstantList} {ts : List Token}
    (h : l.SpelledBy ts) : Grows ts [l.toNode] := by
  cases h with
  | mk hfirst hbar hothers =>
    refine .cover ?_ (by simp) rfl rfl
    refine .append hfirst.grows (.token hbar rfl (hothers.grows ?_))
    rintro n - us ⟨ns, b, bs, rfl, hn, hmore⟩
    exact hn.grows.tokens_behind (hmore.grows rfl)

theorem Expr.toNodes_eq_map (es : List Expr) : Expr.toNodes es = es.map (·.toNode) := by
  induction es with
  | nil => rw [Expr.toNodes, List.map_nil]
  | cons e es ih => rw [Expr.toNodes, ih, List.map_cons]

theorem MatchArm.toNodes_eq_map (as : List MatchArm) :
    MatchArm.toNodes as = as.map (·.toNode) := by
  induction as with
  | nil => rw [MatchArm.toNodes, List.map_nil]
  | cons a as ih => rw [MatchArm.toNodes, ih, List.map_cons]

theorem FieldInit.toNodes_eq_map (fs : List FieldInit) :
    FieldInit.toNodes fs = fs.map (·.toNode) := by
  induction fs with
  | nil => rw [FieldInit.toNodes, List.map_nil]
  | cons f fs ih => rw [FieldInit.toNodes, ih, List.map_cons]

theorem StartsWith.append {p : Span} {ts : List Token} (h : StartsWith p ts) (us : List Token) :
    StartsWith p (ts ++ us) := by
  obtain ⟨t, ts', rfl, hp⟩ := h
  exact ⟨t, ts' ++ us, rfl, hp⟩

theorem Expr.SpelledBy.startsWith {e : Expr} {ts : List Token} (h : e.SpelledBy ts) :
    StartsWith e.span ts := by
  cases h with
  | primary h => exact h.startsWith
  | binary hleft => exact hleft.startsWith.append _
  | typecast hvalue =>
    obtain ⟨t, us, hts, hstart⟩ := hvalue.startsWith.append _
    exact ⟨t, us, hts, by rw [← hstart]; exact spanning_start _ _⟩
termination_by sizeOf e

theorem StartsWith.spanning_eq {p : Span} {ts us : List Token} (h : StartsWith p ts) :
    spanning p.start (ts ++ us) = covering (ts ++ us) := by
  obtain ⟨t, ts', rfl, hp⟩ := h
  rw [hp, List.cons_append, covering_cons]

theorem Expr.span_toNode (e : Expr) : e.toNode.span = e.span := by
  cases e with
  | call c => cases c; simp [Expr.toNode, Call.toNode, Expr.span]
  | matching m => cases m; simp [Expr.toNode, Match.toNode, Expr.span]
  | structInit i => cases i; simp [Expr.toNode, StructInit.toNode, Expr.span]
  | range r => cases r; simp [Expr.toNode, Range.toNode, Expr.span]
  | _ => simp [Expr.toNode, Expr.span, Number.toNode, CharLiteral.toNode, StringLiteral.toNode,
      Identifier.toNode]

mutual

/-- An expression without operators grows over its tokens. -/
theorem Expr.PrimaryBy.grows {e : Expr} {ts : List Token} (h : e.PrimaryBy ts) :
    Grows ts [e.toNode] := by
  cases h with
  | number h => rw [Expr.toNode]; exact h.grows
  | char h => rw [Expr.toNode]; exact h.grows
  | string h => rw [Expr.toNode]; exact h.grows
  | null ht | true ht | false ht =>
    rw [Expr.toNode]
    exact .leaf (.keyword rfl ht)
  | identifier name => rw [Expr.toNode]; exact name.grows
  | call h => rw [Expr.toNode]; exact h.grows
  | fieldAccess object hdot hmember =>
    rw [Expr.toNode]
    refine .cover ?_ (by simp) rfl rfl
    exact .append (object.grows.labelled _) (.token hdot rfl hmember.grows)
  | arrayAccess base ho hindex hc =>
    rw [Expr.toNode]
    refine .cover ?_ (by simp) rfl rfl
    exact .append base.grows (.token ho rfl (hindex.grows.token_behind hc rfl))
  | matching h => rw [Expr.toNode]; exact h.grows
termination_by (sizeOf e, 0)

/-- An expression grows over its tokens. -/
theorem Expr.SpelledBy.grows {e : Expr} {ts : List Token} (h : e.SpelledBy ts) :
    Grows ts [e.toNode] := by
  cases h with
  | primary hprimary => exact hprimary.grows
  | @binary left right ls rs op t hleft hop hright =>
    have hparts : Grows (ls ++ t :: rs) (left.toNode.labelled .left ::
        ([(Operator.toNode ⟨op, t.span⟩).labelled .operator] ++
          [right.toNode.labelled .right])) := by
      have hmark : Grows [t] [Operator.toNode ⟨op, t.span⟩] := .leaf (.operator hop)
      exact .append (hleft.grows.labelled _) ((hmark.labelled _).append (hright.grows.labelled _))
    rw [Expr.toNode]
    refine hparts.hull rfl ?_ ?_ rfl
    · rw [Node.span_labelled, Expr.span_toNode]
    · rw [Node.span_labelled, Expr.span_toNode]
  | typecast hvalue hword htarget =>
    rw [Expr.toNode]
    refine .cover ?_ (by simp) hvalue.startsWith.spanning_eq rfl
    exact .append (hvalue.grows.labelled _) (.token hword rfl (htarget.grows.labelled _))
termination_by (sizeOf e, 1)
decreasing_by
  -- An expression without operators is the same expression, read by the first of the two.
  · subst_vars
    exact Prod.Lex.right _ (by decide)
  all_goals decreasing_tactic

theorem Call.SpelledBy.grows {c : Call} {ts : List Token} (h : c.SpelledBy ts) :
    Grows ts [c.toNode] := by
  cases h with
  | mk function hgeneric ho harguments hc =>
    rw [Call.toNode, Expr.toNodes_eq_map]
    refine .cover ?_ (by simp) rfl rfl
    refine .append (function.grows.labelled _) (.append (grows_genericNodes hgeneric) ?_)
    refine .token ho rfl (.token_behind ?_ hc rfl)
    exact harguments.grows rfl fun e he us hus => hus.grows
termination_by (sizeOf c, 0)

theorem Match.SpelledBy.grows {m : Match} {ts : List Token} (h : m.SpelledBy ts) :
    Grows ts [m.toNode] := by
  cases h with
  | mk hword hvalue ho harms hc =>
    rw [Match.toNode, MatchArm.toNodes_eq_map]
    refine .cover ?_ (by simp) rfl rfl
    refine .token hword rfl (.append (hvalue.grows.labelled _) (.token ho rfl ?_))
    exact .token_behind (harms.grows fun a ha us hus => hus.grows) hc rfl
termination_by (sizeOf m, 0)

theorem MatchArm.SpelledBy.grows {a : MatchArm} {ts : List Token} (h : a.SpelledBy ts) :
    Grows ts [a.toNode] := by
  cases h with
  | mk hkey harrow hvalue hcomma =>
    rw [MatchArm.toNode]
    refine .cover ?_ (by simp) rfl rfl
    refine .append hkey.grows (.token harrow rfl ?_)
    exact (hvalue.grows.labelled _).token_behind hcomma rfl
termination_by (sizeOf a, 0)

theorem MatchKey.SpelledBy.grows {key : MatchKey} {ts : List Token} (h : key.SpelledBy ts) :
    Grows ts [key.toNode] := by
  cases h with
  | identifier name => rw [MatchKey.toNode]; exact name.grows
  | constants h => rw [MatchKey.toNode]; exact h.grows
  | number h => rw [MatchKey.toNode]; exact h.grows
  | char h => rw [MatchKey.toNode]; exact h.grows
  | range h => rw [MatchKey.toNode]; exact h.grows
termination_by (sizeOf key, 0)

theorem Range.SpelledBy.grows {r : Range} {ts : List Token} (h : r.SpelledBy ts) :
    Grows ts [r.toNode] := by
  cases h with
  | @mk first last fs ls es dots inclusive hfirst hdots hinclusive hlast =>
    rw [Range.toNode]
    have hparts : Grows (fs ++ dots :: (es ++ ls)) (first.toNode :: ([] ++ [last.toNode])) :=
      .append hfirst.grows (.token hdots rfl (.append (hinclusive.grows rfl) hlast.grows))
    refine hparts.hull rfl ?_ ?_ ?_
    · rw [Expr.span_toNode]
    · rw [Expr.span_toNode]
    · cases inclusive <;> rfl
termination_by (sizeOf r, 0)

end

theorem FieldInit.SpelledBy.grows {f : FieldInit} {ts : List Token} (h : f.SpelledBy ts) :
    Grows ts [f.toNode] := by
  cases h with
  | mk name hcolon hvalue hsemi =>
    rw [FieldInit.toNode]
    refine .cover ?_ (by simp) rfl rfl
    refine .append (name.grows.labelled _) (.token hcolon rfl ?_)
    exact (hvalue.grows.labelled _).tokens_behind (hsemi.grows rfl)

theorem StructInit.SpelledBy.grows {i : StructInit} {ts : List Token} (h : i.SpelledBy ts) :
    Grows ts [i.toNode] := by
  cases h with
  | mk name hgeneric ho hfields hc =>
    rw [StructInit.toNode, FieldInit.toNodes_eq_map]
    refine .cover ?_ (by simp) rfl rfl
    refine .append (name.grows.labelled _) (.append (grows_genericNodes hgeneric) ?_)
    refine .token ho rfl (.token_behind ?_ hc rfl)
    exact hfields.grows fun _ _ _ hfield => hfield.grows

theorem InitializerBy.grows {e : Expr} {ts : List Token} (h : InitializerBy e ts) :
    Grows ts [e.toNode] := by
  cases h with
  | structInit h => rw [Expr.toNode]; exact h.grows
  | expression h => exact h.grows

theorem IterableBy.grows {e : Expr} {ts : List Token} (h : IterableBy e ts) :
    Grows ts [e.toNode] := by
  cases h with
  | identifier name => rw [Expr.toNode]; exact name.grows
  | range h => rw [Expr.toNode]; exact h.grows

/-! ### Statements without blocks -/

/-- The statement holds a block. -/
def Stmt.holdsBlock : Stmt → Bool
  | .conditional .. | .whileLoop .. | .forLoop .. => true
  | _ => false

/-- A statement without blocks covers its tokens. -/
theorem Stmt.SpelledBy.covered {stmt : Stmt} {ts : List Token} (h : stmt.SpelledBy ts)
    (hflat : stmt.holdsBlock = false) : Covered stmt.toNode ts := by
  cases h with
  | returning hword hvalue hsemi =>
    rw [Stmt.toNode]
    exact .cover (.token hword rfl (hvalue.grows.token_behind hsemi rfl)) (by simp) rfl rfl
  | declaration name hword hmut hcolon htype hvalue hsemi =>
    rw [Stmt.toNode]
    refine .cover (.token hword rfl ?_) (by simp) rfl rfl
    rw [List.append_assoc]
    refine .append hmut.grows (.append (name.grows.labelled _) (.token hcolon rfl ?_))
    refine .append (htype.grows.labelled _) (.token_behind (hvalue.grows ?_) hsemi rfl)
    intro e _ us hinit
    exact hinit.grows rfl fun _ he => he.grows.labelled _
  | assignment name heq hvalue hsemi =>
    rw [Stmt.toNode]
    refine .cover ?_ (by simp) rfl rfl
    refine .append (name.grows.labelled _) (.token heq rfl ?_)
    exact (hvalue.grows.labelled _).token_behind hsemi rfl
  | fieldAssignment object hdot hmember hform heq hvalue hsemi =>
    rw [Stmt.toNode]
    refine .cover ?_ (by simp) rfl rfl
    refine .append (object.grows.labelled _) (.token hdot rfl ?_)
    refine .append (hmember.grows.labelled _) (.token heq rfl ?_)
    exact (hvalue.grows.labelled _).token_behind hsemi rfl
  | arrayAssignment htarget ho hindex hc heq hvalue hsemi =>
    rw [Stmt.toNode]
    refine .cover ?_ (by simp) rfl rfl
    refine .append (htarget.grows.labelled _) (.token ho rfl (.append hindex.grows ?_))
    refine .token hc rfl (.token heq rfl ?_)
    exact (hvalue.grows.labelled _).token_behind hsemi rfl
  | conditional | whileLoop | forLoop => simp [Stmt.holdsBlock] at hflat
  | breakLoop hword hsemi | continueLoop hword hsemi =>
    rw [Stmt.toNode]
    exact .cover (.token hword rfl (.mark hsemi rfl)) (by simp) rfl rfl
  | call hcall hsemi =>
    rw [Stmt.toNode]
    exact .cover (hcall.grows.token_behind hsemi rfl) (by simp) rfl rfl
  | matching hmatch hsemi =>
    rw [Stmt.toNode]
    exact .cover (hmatch.grows.token_behind hsemi rfl) (by simp) rfl rfl

/-! ### Definitions without blocks -/

/-- A parameter covers its tokens but for the comma behind it. -/
theorem Parameter.SpelledBy.covered {p : Parameter} {ts : List Token} (h : p.SpelledBy ts) :
    ∃ us cs, ts = us ++ cs ∧ Grows cs [] ∧ Covered p.toNode us := by
  cases h with
  | @mk name colon mutability ms type ts cs _ hcolon hmut htype hcomma =>
    refine ⟨name.token :: colon :: (ms ++ ts), cs, by simp, hcomma.grows rfl, ?_⟩
    refine .cover ?_ (by simp) rfl rfl
    have hmarker : Grows ms
        (mutability.toList.map fun span => (mutNode span).labelled .mutability) := by
      cases hmut with
      | absent => exact .nil
      | present ht =>
        have hword : Grows [_] [mutNode _] := .leaf (.keyword rfl ht)
        exact hword.labelled _
    refine .append (name.grows.labelled _) (.token hcolon rfl ?_)
    exact hmarker.append (htype.grows.labelled _)

theorem Parameter.SpelledBy.grows {p : Parameter} {ts : List Token} (h : p.SpelledBy ts) :
    Grows ts [p.toNode] := by
  obtain ⟨us, cs, rfl, hcomma, hcovered⟩ := h.covered
  exact hcovered.grows.tokens_behind hcomma

theorem Parameter.SpelledBy.heads {p : Parameter} {ts : List Token} (h : p.SpelledBy ts) :
    Heads T p.toNode ts := by
  obtain ⟨us, cs, rfl, -, hcovered⟩ := h.covered
  exact ⟨us, List.prefix_append us cs, hcovered.laid⟩

theorem ParameterList.grows {parameters : List Parameter} {ts : List Token}
    (h : ParameterList parameters ts) : Grows ts (parameters.map (·.toNode)) := by
  cases h with
  | mk ho hparameters hc =>
    refine .token ho rfl (.token_behind ?_ hc rfl)
    exact hparameters.grows fun _ _ _ hone => hone.grows

theorem ReturnTypeBy.grows {type : Option TypeExpr} {ts : List Token}
    (h : ReturnTypeBy type ts) : Grows ts (returnTypeNodes type) :=
  Perhaps.grows h fun _ _ _ hbehind => hbehind.grows rfl fun _ htype => htype.grows.labelled _

theorem ExternalFunction.SpelledBy.covered {f : ExternalFunction} {ts : List Token}
    (h : f.SpelledBy ts) : Covered f.toNode ts := by
  cases h with
  | mk name hword hfn hparameters hreturn hsemi =>
    refine .cover ?_ (by simp) rfl rfl
    refine .token hword rfl (.token hfn rfl (.append (name.grows.labelled _) ?_))
    exact .append hparameters.grows (hreturn.grows.token_behind hsemi rfl)

theorem PathName.grows {name : Identifier} {ts : List Token} (h : PathName name ts) :
    Grows ts [name.toNode] := by
  cases h with
  | bare => exact name.grows
  | marked hmark =>
    rcases hmark with hmark | hmark
    · exact name.grows.token_behind hmark rfl
    · exact name.grows.token_behind hmark rfl

theorem UseStatement.SpelledBy.covered {u : UseStatement} {ts : List Token} (h : u.SpelledBy ts) :
    Covered u.toNode ts := by
  cases h with
  | mk hword hpath hsemi =>
    refine .cover (.token hword rfl (.token_behind ?_ hsemi rfl)) (by simp) rfl rfl
    exact hpath.grows fun _ _ _ hname => hname.grows

end FrontEnd
