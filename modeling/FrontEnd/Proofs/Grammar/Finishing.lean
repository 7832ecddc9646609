/-
How runs end.

A construct of the grammar ends with a token.  A run that reads it consumes that token last, so
the comments behind it are still to be handed out:

* `Ends` — one state comes before another in a run, and the run reads tokens at its end;
* `Ends.fresh` — such a run leaves the comments behind its last token where they are;
* `finishes_statementOf`, `finishes_function`, `finishes_definition` — so do the runs that read a
  statement, a function or a definition, if nothing is recorded.

A block without its closing brace ends otherwise: the comments behind its last statement are
handed out, and then nothing is read.  Such a block is recorded.
-/
import FrontEnd.Proofs.Grammar.Origins
import FrontEnd.Proofs.Parser.Gaps

namespace FrontEnd.Parser

variable {α β : Type} {T : List Token} {s s' s₁ : State} {ts : List Token}

/-- The second state is reached from the first, by a run that reads tokens at its end. -/
def Ends (s s' : State) : Prop := ∃ u ts, Leads s u ∧ Reads u ts s' ∧ ts ≠ []

namespace Ends

theorem behind (h : Ends s₁ s') (hleads : Leads s s₁) : Ends s s' := by
  obtain ⟨u, ts, hto, hread, hne⟩ := h
  exact ⟨u, ts, hleads.trans hto, hread, hne⟩

theorem read (h : Ends s s₁) (hmore : Reads s₁ ts s') : Ends s s' := by
  obtain ⟨u, us, hto, hread, hne⟩ := h
  exact ⟨u, us ++ ts, hto, hread.append hmore, by simp [hne]⟩

/-- Comments behind the last token are not handed out before the run ends. -/
theorem fresh (h : Ends s s') (hs : s.InPlace T) (hhanded : s.Handed) : s'.Fresh := by
  obtain ⟨u, ts, hto, hread, hne⟩ := h
  exact hread.fresh (hto.inPlace hs) (hto.handed hs hhanded) hne

end Ends

theorem ends_advance (h : s.current.kind ≠ .eof) : Ends s s.advance :=
  ⟨s, _, .refl s, reads_advance h, by simp⟩

/-- Run on `s`, the parser reads tokens at its end, if it succeeds and nothing is recorded. -/
def Finishes (s : State) (p : Parser α) : Prop :=
  ∀ a s', p s = .ok a s' → s'.Clean → Ends s s'

section

variable {p : Parser α} {f : α → Parser β}

/-- What comes last decides. -/
theorem Finishes.behind (hp : ∀ a s', p s = .ok a s' → Leads s s')
    (hf : ∀ a s', Finishes s' (f a)) : Finishes s (p >>= f) := by
  intro b s'' hrun hclean
  obtain ⟨a, s', hfirst, hsecond⟩ := bind_eq_ok hrun
  exact (hf a s' b s'' hsecond hclean).behind (hp a s' hfirst)

/-- What leaves the state as it is may come behind. -/
theorem Finishes.before (hp : Finishes s p) (hf : ∀ a s', ∃ b, f a s' = .ok b s') :
    Finishes s (p >>= f) := by
  intro b s'' hrun hclean
  obtain ⟨a, s', hfirst, hsecond⟩ := bind_eq_ok hrun
  obtain ⟨c, hsame⟩ := hf a s'
  obtain ⟨rfl, rfl⟩ := EStateM.Result.ok.inj (hsame.symm.trans hsecond)
  exact hp a s' hfirst hclean

theorem finishes_kind {f : Kind → Parser β} (h : Finishes s (f s.current.kind)) :
    Finishes s (kind >>= f) := h

theorem Meets.finishes {V : α → List Token → Prop} (h : Meets [] s p V)
    (hne : ∀ a ts, V a ts → ts ≠ []) : Finishes s p := by
  intro a s' hrun _
  obtain ⟨ts, hread, -, ha⟩ := h.of_ok hrun
  exact ⟨s, ts, .refl s, hread, hne a ts ha⟩

end

/-! ### Statements -/

section

variable {inner : Parser Block} (hfinishes : ∀ s, Finishes s inner)
  (hworks : ∀ s, Works true s inner Block.SpelledBy)

include hfinishes

include hworks in
theorem finishes_ifStmtOf (s : State) : Finishes s (ifStmtOf Grammar.standard inner) := by
  refine .behind (fun _ _ => (works_expect (by decide)).leads) fun word s₁ => ?_
  refine .behind (fun _ _ => meets_expression.leads) fun condition s₂ => ?_
  -- What comes last depends on whether there is an `else`.
  intro stmt s' hrun hclean
  obtain ⟨ifBlock, s₃, hif, hrun⟩ := bind_eq_ok hrun
  obtain ⟨found, s₄, hfound, hrun⟩ := bind_eq_ok hrun
  obtain ⟨ts, hread⟩ := (meets_skip? (by decide)).reads hfound
  cases found with
  | false =>
    obtain ⟨rfl, rfl⟩ := EStateM.Result.ok.inj hrun
    exact (hfinishes s₂ ifBlock s₃ hif (hread.walks.clean hclean)).read hread
  | true =>
    have hto := ((hworks s₂).leads hif).trans ⟨ts, hread.walks⟩
    obtain ⟨_, s₅, hsome, hrun⟩ := bind_eq_ok hrun
    rw [map_run] at hsome
    obtain ⟨elseBlock, s₆, hblock, hpure⟩ := bind_eq_ok hsome
    obtain ⟨rfl, rfl⟩ := EStateM.Result.ok.inj hpure
    obtain ⟨rfl, rfl⟩ := EStateM.Result.ok.inj hrun
    exact (hfinishes s₄ elseBlock _ hblock hclean).behind hto

theorem finishes_whileStmtOf (s : State) : Finishes s (whileStmtOf Grammar.standard inner) := by
  refine .behind (fun _ _ => (works_expect (by decide)).leads) fun word s₁ => ?_
  refine .behind (fun _ _ => meets_expression.leads) fun condition s₂ => ?_
  exact (hfinishes s₂).before fun body s₃ => ⟨_, rfl⟩

theorem finishes_forStmtOf (s : State) : Finishes s (forStmtOf Grammar.standard inner) := by
  refine .behind (fun _ _ => (works_expect (by decide)).leads) fun word s₁ => ?_
  refine .behind (fun _ _ => (meets_skip? (by decide)).leads) fun hasLet s₂ => ?_
  refine .behind (fun _ _ => meets_identifier.leads) fun binding s₃ => ?_
  refine .behind (fun _ _ => (works_expect (by decide)).leads) fun inside s₄ => ?_
  refine .behind (fun _ _ => meets_iterable.leads) fun values s₅ => ?_
  exact (hfinishes s₅).before fun body s₆ => ⟨_, rfl⟩

include hworks in
theorem finishes_statementOf (s : State) : Finishes s (statementOf Grammar.standard inner) := by
  refine finishes_kind ?_
  split
  · exact fun _ _ hrun => nomatch hrun
  · exact meets_returnStmt.finishes fun _ _ h => h.ne_nil
  · exact meets_declarationStmt.finishes fun _ _ h => h.ne_nil
  · exact finishes_ifStmtOf hfinishes hworks s
  · exact finishes_whileStmtOf hfinishes s
  · exact finishes_forStmtOf hfinishes s
  · exact meets_breakStmt.finishes fun _ _ h => h.ne_nil
  · exact meets_continueStmt.finishes fun _ _ h => h.ne_nil
  · exact meets_matchStmt.finishes fun _ _ h => h.ne_nil
  · exact meets_namedStmt.finishes fun _ _ h => h.ne_nil

end

/-! ### Blocks and definitions -/

/-- A block that is not recorded ends with its closing brace. -/
theorem closeBlock_closed {start : Position} {depth : Nat} {statements : List Stmt} {b : Block}
    (hrun : closeBlock start depth statements s = .ok b s') (hclean : s'.Clean) :
    s.current.kind = .symbol .closeCurly ∧ b.span = s.advance.spanFrom start ∧ s' = s.advance := by
  rcases (closeBlock_cases hrun).2 with hclosed | ⟨-, -, rfl⟩
  · exact hclosed
  · exact absurd hclean (not_clean_push _ _)

theorem finishes_block (s : State) : Finishes s (block Grammar.standard) := by
  intro b s' hrun hclean
  rw [Recursion.block.eq_body ()] at hrun
  obtain ⟨hopen, items, s₁, hitems, hclose⟩ := blockOf_eq_ok hrun
  obtain ⟨hleads, -⟩ := origins_blockItems (fun _ _ _ => part_block) works_block hitems
  obtain ⟨hright, -, rfl⟩ := closeBlock_closed hclose hclean
  have hto := (leads_advance (s := s) (by simp [hopen])).commented.trans hleads
  exact (ends_advance (by simp [hright])).behind hto

theorem finishes_function (s : State) : Finishes s (function Grammar.standard) := by
  refine .behind (fun _ _ => (works_expect (by decide)).leads) fun word s₁ => ?_
  refine .behind (fun _ _ => meets_identifier.leads) fun name s₂ => ?_
  refine .behind (fun _ _ => meets_genericClause?.leads) fun generic s₃ => ?_
  refine .behind (fun _ _ => meets_parameterList.leads) fun parameters s₄ => ?_
  refine .behind (fun _ _ => meets_returnType?.leads) fun returnType s₅ => ?_
  exact (finishes_block s₅).before fun body s₆ => ⟨_, rfl⟩

theorem finishes_parameter (s : State) : Finishes s (parameter Grammar.standard) :=
  meets_parameter.finishes fun _ _ h => by cases h; simp

theorem finishes_structDef (s : State) : Finishes s (structDef Grammar.standard) := by
  intro d s' hrun _
  obtain ⟨us, s₁, s₂, hread, -, hmembers, hclose, -, rfl⟩ := structDef_eq_ok hrun
  have hto : Leads s s₂ := Leads.trans ⟨us, hread.walks⟩ (works_structMembers.leads hmembers)
  exact (ends_advance (by simp [hclose])).behind hto

theorem finishes_definition (s : State) : Finishes s (definition Grammar.standard) := by
  refine finishes_kind ?_
  split
  · exact fun _ _ hrun => nomatch hrun
  · exact (meets_useStatement.finishes fun _ _ h => by cases h; simp).before fun u s₁ => ⟨_, rfl⟩
  · exact (finishes_function s).before fun f s₁ => ⟨_, rfl⟩
  · exact (meets_externalFunction.finishes fun _ _ h => by cases h; simp).before
      fun f s₁ => ⟨_, rfl⟩
  · exact (finishes_structDef s).before fun d s₁ => ⟨_, rfl⟩

end FrontEnd.Parser
