/-
A statement without its semicolon.

If the token behind a stretch is a semicolon on the first side and, on the second, a token that
can follow a statement, then a statement that the first run reads up to this semicolon is not
read by the second run: it comes equally far and fails right there (`statementOf_halts`).

That it comes equally far is what the comparison says.  No expression goes on with a token that
can follow a statement, and no type does, so that the parts of the statement are the same.
-/
import FrontEnd.Proofs.Grammar.MirroredFiles
import FrontEnd.Proofs.Grammar.Tidiness
import FrontEnd.Proofs.Parser.Closing

namespace FrontEnd.Parser

variable {α β : Type} {c : Comparison} {s s' t : State}

/-- The second run fails for want of a semicolon, where the first one has found it. -/
def Halts (c : Comparison) (_ : α) (t : State) (r : Outcome α) : Prop :=
  ∃ production u u', r = .error (u'.notFound production (.symbol .semicolon)) u' ∧
    Paired c u u' ∧ u.rest = c.rest ∧ t = u.advance

/-- A decision by the next token, which does not tell what can follow a statement from a
semicolon. -/
theorem closes_kind {R : α → State → Outcome α → Prop} {f f' : Kind → Parser α}
    (hblind : ∀ k ∈ followers, f' k = f' (.symbol .semicolon))
    (hf : ∀ k, Closes c R (f k) (f' k)) : Closes c R (kind >>= f) (kind >>= f') := by
  refine ⟨fun s a t hrun hwhole => (hf s.current.kind).moves s a t hrun hwhole,
    fun s s' a t hs hrun hwhole hend => ?_⟩
  have hgo := (hf s.current.kind).run s s' a t hs hrun hwhole hend
  show R a t (f' s'.current.kind s')
  rcases hs.kinds with hkind | ⟨hkind, hkind'⟩
  · rwa [← hkind]
  · rwa [hblind _ hkind', ← hkind]

section

variable (hinexact : ¬ c.Exact)

include hinexact

/-- The semicolon at the end of a statement, and what is done behind it without consuming a
token. -/
theorem closes_semicolon {production production' : String} {f f' : Token → Parser α}
    (hf : ∀ x u a t, f x u = .ok a t → t = u) :
    Closes c (Halts c) (expect (.symbol .semicolon) production >>= f)
      (expect (.symbol .semicolon) production' >>= f') := by
  have hfirst : ∀ s a t, (expect (.symbol .semicolon) production >>= f) s = .ok a t →
      s.current.kind = .symbol .semicolon ∧ t = s.advance := by
    intro s a t hrun
    obtain ⟨semi, u, hexpect, hthen⟩ := bind_eq_ok hrun
    obtain ⟨hkind, rfl, rfl⟩ := expect_eq_ok hexpect
    exact ⟨hkind, hf _ _ _ _ hthen⟩
  refine ⟨fun s a t hrun _ => ?_, fun s s' a t hs hrun _ hend => ?_⟩
  · obtain ⟨hkind, rfl⟩ := hfirst s a t hrun
    exact length_rest_advance (by simp [hkind])
  · obtain ⟨-, rfl⟩ := hfirst s a t hrun
    have hrest := hs.rest_eq hend
    have hnot : ¬ c.Before s := by
      rw [Comparison.Before, hrest]
      exact Nat.lt_irrefl _
    -- What the second run finds instead can follow a statement.
    have hkind' : s'.current.kind ≠ .symbol .semicolon := by
      rw [(hs.of_not_before hnot).2.2.2]
      intro hsemi
      have hmem := (Comparison.semicolon_of_not_exact hinexact).2
      rw [hsemi] at hmem
      exact absurd hmem (by decide)
    refine ⟨production', s, s', bind_of_error ?_, hs, hrest, rfl⟩
    rw [expect_run, if_neg hkind']

/-! ### The forms of a statement -/

omit hinexact in
/-- What is done behind a semicolon is no more than to take the span. -/
theorem spanned_same {start : Position} {g : Span → α} (u : State) (a : α) (t : State)
    (h : (spanFrom start >>= fun span => pure (g span)) u = .ok a t) : t = u :=
  (EStateM.Result.ok.inj h).2.symm

theorem closes_breakStmt : Closes c (Halts c) breakStmt breakStmt :=
  (mirrors_expect _ _).closes fun _ _ _ => closes_semicolon hinexact fun _ => spanned_same

theorem closes_continueStmt : Closes c (Halts c) continueStmt continueStmt :=
  (mirrors_expect _ _).closes fun _ _ _ => closes_semicolon hinexact fun _ => spanned_same

theorem closes_returnStmt :
    Closes c (Halts c) (returnStmt Grammar.standard) (returnStmt Grammar.standard) :=
  (mirrors_expect _ _).closes fun _ _ _ => (mirrors_expression _).closes fun _ _ _ =>
    closes_semicolon hinexact fun _ => spanned_same

theorem closes_declarationStmt :
    Closes c (Halts c) (declarationStmt Grammar.standard) (declarationStmt Grammar.standard) := by
  refine (mirrors_expect _ _).closes fun _ _ _ => mirrors_mutMarker?.closes fun _ _ _ => ?_
  refine (mirrors_identifier _).closes fun _ _ _ => (mirrors_expect _ _).closes fun _ _ _ => ?_
  refine mirrors_typeExpr.closes fun _ _ _ => ?_
  refine (mirrors_skip? (.inl (by decide))).closes fun found found' hfound => ?_
  obtain rfl : found = found' := hfound.shown
  cases found with
  | true =>
    refine (mirrors_initializer.map (n := Option.map (Expr.relocate unplaced)) fun _ _ h =>
      h.map some (congrArg some)).closes fun _ _ _ => ?_
    exact closes_semicolon hinexact fun _ => spanned_same
  | false => exact closes_semicolon hinexact fun _ => spanned_same

theorem closes_assignmentTo (target target' value value' : Expr) (start start' : Position) :
    Closes c (Halts c) (assignmentTo target value start) (assignmentTo target' value' start') := by
  rw [assignmentTo_eq, assignmentTo_eq]
  refine closes_semicolon hinexact fun x u stmt t hrun => ?_
  obtain ⟨span, v, hspan, hthen⟩ := bind_eq_ok hrun
  obtain ⟨-, rfl⟩ := EStateM.Result.ok.inj hspan
  cases hassigned : assigned target value span with
  | ok stmt' =>
    rw [hassigned] at hthen
    exact (EStateM.Result.ok.inj hthen).2.symm
  | error d =>
    rw [hassigned] at hthen
    exact nomatch hthen

theorem closes_callStmt {target target' : Expr}
    (htarget : Alike c.placed (Expr.relocate unplaced) target target') (start start' : Position) :
    Closes c (Halts c) (callStmt target start) (callStmt target' start') := by
  have hcalled : (called target).map (·.relocate unplaced) =
      (called target').map (·.relocate unplaced) := by
    rw [← called_relocate, ← called_relocate, htarget.shown]
  unfold callStmt
  cases hcall : called target with
  | none => exact ⟨fun _ _ _ hrun => (nomatch hrun), fun _ _ _ _ _ hrun => (nomatch hrun)⟩
  | some call =>
    rw [hcall] at hcalled
    obtain ⟨call', hcall', -⟩ := Option.map_eq_some_iff.mp hcalled.symm
    rw [hcall']
    exact closes_semicolon hinexact fun _ => spanned_same

theorem closes_namedFrom (start start' : Position) :
    Closes c (Halts c) (namedFrom Grammar.standard start) (namedFrom Grammar.standard start') := by
  refine mirrors_primary.closes fun target target' htarget => ?_
  refine closes_kind (by simp [followers]) fun k => ?_
  split
  · refine mirrors_advance.closes fun _ _ _ => (mirrors_expression _).closes fun _ _ _ => ?_
    exact closes_assignmentTo hinexact _ _ _ _ _ _
  · refine mirrors_advance.closes fun _ _ _ => mirrors_primary.closes fun _ _ _ => ?_
    refine (mirrors_expect _ _).closes fun _ _ _ => (mirrors_expect _ _).closes fun _ _ _ => ?_
    refine (mirrors_expression _).closes fun _ _ _ => ?_
    exact closes_semicolon hinexact fun _ => spanned_same
  · exact closes_callStmt hinexact htarget _ _

theorem closes_matching (start start' : Position) :
    Closes c (Halts c)
      (do
        let m ← matchExpr Grammar.standard
        let _ ← expect Symbol.semicolon "match_statement"
        return Stmt.matching m (← spanFrom start))
      (do
        let m ← matchExpr Grammar.standard
        let _ ← expect Symbol.semicolon "match_statement"
        return Stmt.matching m (← spanFrom start')) :=
  (mirrors_matchOf mirrors_goal).closes fun _ _ _ =>
    closes_semicolon hinexact fun _ => spanned_same

end

/-! ### Statements -/

theorem endsWithSemicolon_ifStmtOf {inner : Parser Block} {stmt : Stmt}
    (hrun : ifStmtOf Grammar.standard inner s = .ok stmt t) : stmt.endsWithSemicolon = false := by
  obtain ⟨word, s₁, -, hrun⟩ := bind_eq_ok hrun
  obtain ⟨condition, s₂, -, hrun⟩ := bind_eq_ok hrun
  obtain ⟨ifBlock, s₃, -, hrun⟩ := bind_eq_ok hrun
  obtain ⟨found, s₄, -, hrun⟩ := bind_eq_ok hrun
  cases found with
  | true =>
    obtain ⟨elseBlock, s₅, -, hrun⟩ := bind_eq_ok hrun
    obtain ⟨rfl, -⟩ := EStateM.Result.ok.inj hrun
    rfl
  | false =>
    obtain ⟨rfl, -⟩ := EStateM.Result.ok.inj hrun
    rfl

theorem endsWithSemicolon_whileStmtOf {inner : Parser Block} {stmt : Stmt}
    (hrun : whileStmtOf Grammar.standard inner s = .ok stmt t) :
    stmt.endsWithSemicolon = false := by
  obtain ⟨word, s₁, -, hrun⟩ := bind_eq_ok hrun
  obtain ⟨condition, s₂, -, hrun⟩ := bind_eq_ok hrun
  obtain ⟨body, s₃, -, hrun⟩ := bind_eq_ok hrun
  obtain ⟨rfl, -⟩ := EStateM.Result.ok.inj hrun
  rfl

theorem endsWithSemicolon_forStmtOf {inner : Parser Block} {stmt : Stmt}
    (hrun : forStmtOf Grammar.standard inner s = .ok stmt t) : stmt.endsWithSemicolon = false := by
  obtain ⟨word, s₁, -, hrun⟩ := bind_eq_ok hrun
  obtain ⟨hasLet, s₂, -, hrun⟩ := bind_eq_ok hrun
  obtain ⟨binding, s₃, -, hrun⟩ := bind_eq_ok hrun
  obtain ⟨inside, s₄, -, hrun⟩ := bind_eq_ok hrun
  obtain ⟨values, s₅, -, hrun⟩ := bind_eq_ok hrun
  obtain ⟨body, s₆, -, hrun⟩ := bind_eq_ok hrun
  obtain ⟨rfl, -⟩ := EStateM.Result.ok.inj hrun
  rfl

/-- A statement that is read up to its semicolon fails right there without it. -/
theorem statementOf_halts {inner inner' : Parser Block} {stmt : Stmt} (hinexact : ¬ c.Exact)
    (hs : Paired c s s') (hrun : statementOf Grammar.standard inner s = .ok stmt t)
    (hform : stmt.endsWithSemicolon) (hwhole : t.Unbroken) (hend : c.EndsAt t) :
    Halts c stmt t (statementOf Grammar.standard inner' s') := by
  have hgo : ∀ (f : Kind → Parser Stmt) (u : State), (kind >>= f) u = f u.current.kind u :=
    fun _ _ => rfl
  rw [statementOf, hgo] at hrun ⊢
  cases hstart : Grammar.standard.statement? s.current.kind with
  | none =>
    rw [hstart] at hrun
    exact nomatch hrun
  | some form =>
    -- A statement starts with a token of the stretch.
    have hbefore : c.Before s := by
      refine hs.before_of_kind fun hmem => ?_
      rw [(by decide : ∀ k ∈ ends, Grammar.standard.statement? k = none) _ hmem] at hstart
      exact nomatch hstart
    rw [← (hs.current (.inl hbefore)).kind_eq, hstart]
    rw [hstart] at hrun
    cases form with
    | returning => exact (closes_returnStmt hinexact).run s s' stmt t hs hrun hwhole hend
    | declaration => exact (closes_declarationStmt hinexact).run s s' stmt t hs hrun hwhole hend
    | conditional => exact absurd hform (by simp [endsWithSemicolon_ifStmtOf hrun])
    | whileLoop => exact absurd hform (by simp [endsWithSemicolon_whileStmtOf hrun])
    | forLoop => exact absurd hform (by simp [endsWithSemicolon_forStmtOf hrun])
    | breakLoop => exact (closes_breakStmt hinexact).run s s' stmt t hs hrun hwhole hend
    | continueLoop => exact (closes_continueStmt hinexact).run s s' stmt t hs hrun hwhole hend
    | matching =>
      exact (closes_matching hinexact s.position s'.position).run s s' stmt t hs hrun hwhole hend
    | named =>
      have hrun : namedStmt Grammar.standard s = .ok stmt t := hrun
      show Halts c stmt t (namedStmt Grammar.standard s')
      rw [namedStmt_eq] at hrun ⊢
      exact (closes_namedFrom hinexact s.position s'.position).run s s' stmt t hs hrun hwhole hend

end FrontEnd.Parser
