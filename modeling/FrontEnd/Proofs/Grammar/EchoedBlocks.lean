/-
First values, statements and blocks, read from a template.

* `echoes_initializer` — the first value of a variable, with the marks between the fields of a
  struct;
* `echoes_namedStmt` and its companions — statements without blocks;
* `echoes_block` — a block, of which nothing is recorded, and the statements in it.
-/
import FrontEnd.Proofs.Grammar.Echoing

namespace FrontEnd

/-! ### Where an expression ends -/

/-- What covers tokens in order ends with the last of them. -/
theorem TokensAt.covering_stop {lo hi : Nat} {t : Token} {ts : List Token}
    (h : TokensAt lo ts hi) (hlast : ts.getLast? = some t) :
    (FrontEnd.covering ts).stop = t.span.stop := by
  have hlt := h.covering_lt (by rintro rfl; cases hlast)
  revert hlt
  unfold FrontEnd.covering FrontEnd.spanning
  rw [hlast]
  dsimp only
  split
  · intro hlt
    exact absurd hlt (Nat.lt_irrefl _)
  · intro _
    rfl

theorem Expr.PrimaryBy.stop_eq {lo hi : Nat} {t : Token} {ts : List Token} {e : Expr}
    (h : e.PrimaryBy ts) (hts : TokensAt lo ts hi) (hlast : ts.getLast? = some t) :
    e.span.stop = t.span.stop := by
  have hleaf : ∀ {u : Token}, [u].getLast? = some t → u.span.stop = t.span.stop := by
    intro u hu
    obtain rfl : u = t := Option.some.inj hu
    rfl
  cases h with
  | number h | char h | string h =>
    obtain ⟨⟩ := h
    exact hleaf hlast
  | null | true | false | identifier => exact hleaf hlast
  | call h | matching h =>
    obtain ⟨⟩ := h
    exact hts.covering_stop hlast
  | fieldAccess | arrayAccess => exact hts.covering_stop hlast

/-- An expression ends with the last of its tokens. -/
theorem Expr.SpelledBy.stop_eq {lo hi : Nat} {t : Token} {ts : List Token} {e : Expr}
    (h : e.SpelledBy ts) (hts : TokensAt lo ts hi) (hlast : ts.getLast? = some t) :
    e.span.stop = t.span.stop := by
  cases h with
  | primary h => exact h.stop_eq hts hlast
  | @binary left right ls rs op o hleft hop hright =>
    obtain ⟨u, us, rfl, -⟩ := hright.startsWith
    obtain ⟨mid, -, -, -, hright'⟩ := hts.split
    refine hright.stop_eq hright' ?_
    rw [← hlast, List.getLast?_append_of_ne_nil _ (by simp), List.getLast?_cons_cons]
  | typecast hvalue hword htarget =>
    show (spanning _ _).stop = _
    rw [hvalue.startsWith.spanning_eq]
    exact hts.covering_stop hlast

namespace Parser

variable {α β γ δ : Type} {next shape : List Cell → Prop} {s : State}

/-! ### First values -/

theorem echoes_expression (power : BindingPower) :
    Echoes Calm (Headed Operand) exprView [] s (expression Grammar.standard power)
      (expression Grammar.standard power) := echoes_goal _

theorem echoes_primary :
    Echoes Calm (Headed Operand) exprView [] s (primary Grammar.standard)
      (primary Grammar.standard) := echoes_goal _

/-- Behind the value of a field there may be a semicolon. -/
theorem echoes_fieldInit :
    Echoes (Begins (· ∈ Separator.semicolon.followers)) (Begins (· = .identifier))
      ⟨FieldInit.relocate unplaced, fun f => f.toNode.slots⟩ [] s (fieldInit Grammar.standard)
      (fieldInit Grammar.standard) := by
  have hvalue : ∀ s : State, Echoes (Begins (· ∈ Separator.semicolon.followers)) (Begins Operand)
      (exprView.ended .semicolon (·.toNode.span.stop.offset)) [] s
      (ended .semicolon (expression Grammar.standard .default))
      (ended .semicolon (expression Grammar.standard .default)) := by
    intro s
    have hvalue : Echoes Calm (Begins Operand) exprView [] s (expression Grammar.standard .default)
        (expression Grammar.standard .default) :=
      (echoes_expression _).mono (fun _ h => h) fun _ h => h.begins
    refine hvalue.ended (fun sl fs hsl sl' fs' heq => ?_) fun e s₁ t hT hrun ht => ⟨?_, trivial⟩
    · obtain ⟨heq, -⟩ := List.cons.inj heq
      exact Cell.slot.inj heq ▸ hsl
    · have hmeets : Meets [] s (expression Grammar.standard .default) Expr.SpelledBy :=
        meets_expression
      obtain ⟨ts, hread, -, he⟩ := hmeets.of_ok hrun
      obtain ⟨T, hT⟩ := hT
      have hlast := (hread.toPasses.getLast?_eq he.startsWith.ne_nil).trans ht
      rw [Expr.span_toNode, he.stop_eq (hT.tokensAt hread.toPasses) hlast]
  have hended : fieldInit Grammar.standard = (do
      let name ← identifier "field_init"
      let _ ← expect Symbol.colon "field_init"
      let value ← ended .semicolon (expression Grammar.standard .default)
      return ⟨name, value, ← spanFrom name.span.start⟩) := by
    unfold fieldInit
    simp only [skip?_ended .semicolon rfl]
  rw [hended]
  refine (echoes_identifier _).then fun name _ _ => (echoes_expect (by simp) _).then fun _ s₂ _ =>
    (hvalue s₂).rest fun value value' _ _ hvalue => echoes_spanFrom _ _ fun span span' =>
      echoes_pure rfl ?_ fun x => ?_
  · have hvalue : value.relocate unplaced = value'.relocate unplaced := hvalue
    simp only [FieldInit.relocate, hvalue]
    rfl
  · simp [FieldInit.slots_toNode, View.ended, exprView]

theorem echoes_structInit :
    Echoes next (Headed (· = .identifier)) ⟨StructInit.relocate unplaced, fun i => i.toNode.slots⟩ []
      s (structInit Grammar.standard) (structInit Grammar.standard) := by
  have hfields : ∀ s : State, Echoes (Begins (· = .symbol .closeCurly)) _ _ [] s
      (manyWhile (fun k => k ≠ Symbol.closeCurly && k ≠ .eof) (fieldInit Grammar.standard))
      (manyWhile (fun k => k ≠ Symbol.closeCurly && k ≠ .eof) (fieldInit Grammar.standard)) :=
    echoes_manyWhile (fun s _ => echoes_fieldInit)
      (fun fs h => ⟨h.firm, h.mono fun k hk => by simp [hk, Separator.followers]⟩)
      fun fs h => h.mono fun k hk => by simp [hk, Separator.followers]
  refine (echoes_identifier _).behind fun name _ _ => echoes_genericClause?.and fun generic _ _ =>
    (echoes_expect (by simp) _).then fun _ s₃ _ => (hfields s₃).go (fun fields fields' _ _ hfields =>
      (echoes_expect (by simp) _).then fun _ _ _ => echoes_spanFrom _ _ fun span span' =>
        echoes_return ?_ fun x => ?_) begins_of_begins
  · have hfields : fields.map (FieldInit.relocate unplaced) =
      fields'.map (FieldInit.relocate unplaced) := hfields
    simp only [StructInit.relocate, FieldInit.relocateAll_eq_map, hfields]
    rfl
  · simp [StructInit.toNode, FieldInit.toNodes_eq_map, Node.ownSlots, View.list, List.flatMap_map]

/-- Whether a struct is next is seen from the tokens of the template. -/
theorem echoes_initializer :
    Echoes (Begins (· = .symbol .semicolon)) (Headed Operand) exprView [] s
      (initializer Grammar.standard) (initializer Grammar.standard) := by
  have hstruct : ∀ s : State, Echoes (Begins (· = .symbol .semicolon)) (Headed Operand) exprView [] s
      (do return .structInit (← structInit Grammar.standard))
      (do return .structInit (← structInit Grammar.standard)) := by
    intro s
    refine (echoes_structInit.rest fun i i' _ _ h => echoes_pure rfl (congrArg Expr.structInit h)
      fun x => ?_).mono (fun _ h => h) fun _ h => h.mono fun k hk => by rw [hk]; rfl
    simp [exprView, Expr.toNode]
  have hexpression : Echoes (Begins (· = .symbol .semicolon)) (Headed Operand) exprView [] s
      (expression Grammar.standard .default) (expression Grammar.standard .default) :=
    (echoes_expression _).mono (fun _ h => h.firm.calm) fun _ h => h
  unfold initializer structInitAhead
  simp only [bind_assoc]
  refine echoes_kind firm_of_headed (echoes_peekKind
    (fun es fs h hn => (h.append hn.firm).mono fun _ hk => hk.proper) ?_)
  split
  · exact hstruct s
  · next hname hless =>
    refine echoes_genericThen (by decide) hname hless (fun _ h => h) fun found => ?_
    cases found with
    | true => exact hstruct s
    | false => exact hexpression
  · exact hexpression

/-! ### Statements without blocks -/

/-- What is compared of a statement, and the places in it. -/
def stmtView : View Stmt Stmt := ⟨Stmt.bare, fun stmt => stmt.toNode.slots⟩

theorem echoes_breakStmt :
    Echoes next (Begins (· = .keyword .breakKw)) stmtView [] s breakStmt breakStmt := by
  refine (echoes_expect (by simp) _).then fun word _ _ => (echoes_expect (by simp) _).then
    fun _ _ _ => echoes_spanFrom _ _ fun span span' => echoes_return rfl fun x => ?_
  simp [stmtView, Stmt.toNode, Node.ownSlots]

theorem echoes_continueStmt :
    Echoes next (Begins (· = .keyword .continueKw)) stmtView [] s continueStmt continueStmt := by
  refine (echoes_expect (by simp) _).then fun word _ _ => (echoes_expect (by simp) _).then
    fun _ _ _ => echoes_spanFrom _ _ fun span span' => echoes_return rfl fun x => ?_
  simp [stmtView, Stmt.toNode, Node.ownSlots]

theorem echoes_mutMarker? :
    Echoes next Anywhere (.same (Option Span)) [] s mutMarker? mutMarker? := by
  refine echoes_test (by decide) (fun hkind => ?_) fun _ => echoes_return rfl fun _ => Iff.rfl
  exact (echoes_advance (by simp) hkind).and fun _ _ _ => echoes_return rfl fun _ => Iff.rfl

theorem echoes_returnStmt :
    Echoes next (Begins (· = .keyword .returnKw)) stmtView [] s (returnStmt Grammar.standard)
      (returnStmt Grammar.standard) := by
  refine (echoes_expect (by simp) _).then fun word _ _ => (echoes_expression _).lead
    (fun value value' _ _ hvalue => (echoes_expect (by simp) _).then fun _ _ _ =>
      echoes_spanFrom _ _ fun span span' => echoes_return ?_ fun x => ?_) calm_of_begins
  · exact congrArg (Stmt.returning · _) hvalue
  · simp [stmtView, Stmt.toNode, Node.ownSlots, exprView]

theorem echoes_declarationStmt :
    Echoes next (Begins (· = .keyword .letKw)) stmtView [] s (declarationStmt Grammar.standard)
      (declarationStmt Grammar.standard) := by
  refine (echoes_expect (by simp) _).then fun word _ _ => echoes_mutMarker?.and
    fun mutability _ _ => (echoes_identifier _).then fun name _ _ =>
      (echoes_expect (by simp) _).then fun _ _ _ => echoes_typeExpr.and fun type _ _ =>
        echoes_skipThen (by decide) (by decide) (fun _ => echoes_initializer)
          (fun value value' _ hvalue => (echoes_expect (by simp) _).then fun _ _ _ =>
            echoes_spanFrom _ _ fun span span' => echoes_return ?_ fun x => ?_) begins_of_begins
  · exact congrArg (Stmt.declaration (mutability.map (Span.relocate unplaced))
      (name.relocate unplaced) (type.relocate unplaced) · _) hvalue
  · cases value <;> cases mutability <;>
      simp [stmtView, Stmt.toNode, Node.ownSlots, View.option, exprView]

theorem slots_assigned {target value : Expr} {span : Span} {stmt : Stmt}
    (h : assigned target value span = .ok stmt) :
    stmt.toNode.slots = target.toNode.slots ++ value.toNode.slots := by
  cases target with
  | fieldAccess object member _ =>
    cases member <;> simp only [assigned, reduceCtorEq, Except.ok.injEq] at h <;> subst h <;>
      simp [Stmt.toNode, Expr.toNode, Node.ownSlots]
  | identifier | arrayAccess =>
    simp only [assigned, Except.ok.injEq] at h
    subst h
    simp [Stmt.toNode, Expr.toNode, Node.ownSlots]
  | _ => simp only [assigned, reduceCtorEq] at h

theorem echoes_assignmentTo {target target' value value' : Expr} {seen : List Slot}
    {start start' : Position}
    (htarget : exprView.shown target = exprView.shown target')
    (hvalue : exprView.shown value = exprView.shown value')
    (hseen : ∀ x, x ∈ seen ↔ x ∈ target.toNode.slots ++ value.toNode.slots) :
    Echoes next (Begins (· = .symbol .semicolon)) stmtView seen s (assignmentTo target value start)
      (assignmentTo target' value' start') := by
  have htarget : target.relocate unplaced = target'.relocate unplaced := htarget
  have hvalue : value.relocate unplaced = value'.relocate unplaced := hvalue
  have hproduction : assignmentProduction target = assignmentProduction target' := by
    rw [← assignmentProduction_relocate unplaced, htarget, assignmentProduction_relocate]
  rw [assignmentTo_eq, assignmentTo_eq, hproduction]
  refine (echoes_expect (by simp) _).then fun _ _ _ => echoes_spanFrom _ _
    fun span span' => (?_ : Echoes _ Anywhere _ _ _ _ _)
  have hshown := assigned_relocate unplaced target value span
  rw [htarget, hvalue, show span.relocate unplaced = span'.relocate unplaced from rfl,
    assigned_relocate] at hshown
  cases hrun : assigned target value span with
  | error d => exact echoes_throw
  | ok stmt =>
    cases hrun' : assigned target' value' span' with
    | error d' =>
      rw [hrun, hrun'] at hshown
      cases hshown
    | ok stmt' =>
      rw [hrun, hrun'] at hshown
      refine echoes_return ?_ fun x => (hseen x).trans (by rw [← slots_assigned hrun]; rfl)
      show stmt.bare = stmt'.bare
      rw [Stmt.bare_assigned hrun, Stmt.bare_assigned hrun']
      exact (Except.ok.inj hshown).symm

theorem echoes_callStmt {target target' : Expr} {start start' : Position}
    (htarget : exprView.shown target = exprView.shown target') :
    Echoes next (Begins (· = .symbol .semicolon)) stmtView target.toNode.slots s
      (callStmt target start) (callStmt target' start') := by
  have hcalled : (called target).map (·.relocate unplaced) =
      (called target').map (·.relocate unplaced) := by
    rw [← called_relocate, ← called_relocate]
    exact congrArg called htarget
  have hslots : ∀ call, called target = some call → target.toNode.slots = call.toNode.slots := by
    intro call h
    cases target <;> cases h
    simp [Expr.toNode]
  unfold callStmt
  cases hcall : called target with
  | none => exact echoes_unexpected
  | some call =>
    rw [hcall] at hcalled
    obtain ⟨call', hcall', hsame⟩ := Option.map_eq_some_iff.mp hcalled.symm
    rw [hcall', hslots call hcall]
    refine (echoes_expect (by simp) _).then fun _ _ _ => echoes_spanFrom _ _ fun span span' =>
      echoes_return (congrArg (Stmt.call · _) hsame.symm) fun x => ?_
    simp [stmtView, Stmt.toNode, Node.ownSlots]

theorem echoes_namedStmt :
    Echoes next (Headed Operand) stmtView [] s (namedStmt Grammar.standard)
      (namedStmt Grammar.standard) := by
  rw [namedStmt_eq]
  refine echoes_position firm_of_headed (echoes_primary.lead
    (fun target target' s₁ _ htarget => echoes_kind firm_of_begins
      (?_ : Echoes _ Moves _ _ _ _ _)) calm_of_begins)
  split
  · next hkind =>
    refine ((echoes_advance (by simp) hkind).then fun _ s₂ _ => (echoes_expression _).lead
      (fun value value' s₃ _ hvalue => echoes_assignmentTo htarget hvalue fun x => ?_)
      calm_of_begins).mono (fun _ h => h) fun _ h => h.mono fun _ _ => trivial
    exact Iff.rfl
  · next hkind =>
    refine ((echoes_advance (by simp) hkind).then fun _ _ _ => echoes_primary.lead
      (fun index index' _ _ hindex => (echoes_expect (by simp) _).then fun _ _ _ =>
        (echoes_expect (by simp) _).then fun _ _ _ => (echoes_expression _).lead
          (fun value value' _ _ hvalue => (echoes_expect (by simp) _).then fun _ _ _ =>
            echoes_spanFrom _ _ fun span span' => echoes_return ?_ fun x => ?_) calm_of_begins)
      calm_of_begins).mono (fun _ h => h) fun _ h => h.mono fun _ _ => trivial
    · have htarget : target.relocate unplaced = target'.relocate unplaced := htarget
      have hindex : index.relocate unplaced = index'.relocate unplaced := hindex
      have hvalue : value.relocate unplaced = value'.relocate unplaced := hvalue
      simp only [stmtView, Stmt.bare, Stmt.uncommented, Stmt.relocate, htarget, hindex, hvalue]
      rfl
    · simp [stmtView, Stmt.toNode, Node.ownSlots, exprView]
  · exact (echoes_callStmt htarget).mono (fun _ h => h) fun _ h => h.mono fun _ _ => trivial

theorem echoes_matchStmt :
    Echoes next (Headed (· = .keyword .matchKw)) stmtView [] s (matchStmt Grammar.standard)
      (matchStmt Grammar.standard) := by
  refine echoes_position firm_of_headed ((echoes_matchOf fun _ _ => echoes_goal _).lead
    (fun m m' _ _ hm => (echoes_expect (by simp) _).then fun _ _ _ =>
      echoes_spanFrom _ _ fun span span' => echoes_return ?_ fun x => ?_) calm_of_begins)
  · exact congrArg (Stmt.matching · _) hm
  · simp [stmtView, Stmt.toNode, Node.ownSlots]

theorem echoes_iterable :
    Echoes (Begins (· = .symbol .openCurly)) (Headed Operand) exprView [] s
      (iterable Grammar.standard) (iterable Grammar.standard) := by
  refine echoes_kind firm_of_headed (echoes_peekKind
    (fun es fs h hn => (h.append hn.firm).mono fun _ hk => hk.proper) ?_)
  split
  · refine ((echoes_identifier _).behind fun name _ _ => echoes_return rfl fun x => ?_).mono
      (fun _ h => h) fun _ h => h.mono fun k hk => by rw [hk]; rfl
    simp [exprView, Expr.toNode]
  · refine ((echoes_rangeOf fun _ _ => echoes_goal _).rest fun r r' _ _ h =>
      echoes_pure rfl (congrArg Expr.range h) fun x => ?_).mono (fun _ h => h.firm.calm) fun _ h => h
    simp [exprView, Expr.toNode]

/-! ### Statements with blocks -/

/-- What is compared of a block, and the places in it. -/
def blockView : View Block Block := ⟨Block.bare, fun b => b.toNode.slots⟩

/-- What is compared of statements, and the places in them. -/
def stmtsView : View (List Stmt) (List Stmt) := ⟨Stmt.bareAll, fun ss => ss.flatMap (·.toNode.slots)⟩

section

-- The blocks inside a statement are repeated.
variable {inner : Parser Block}
  (hinner : ∀ s : State, Echoes Anywhere (Begins (· = .symbol .openCurly)) blockView [] s inner
    (block Grammar.standard))

include hinner

theorem echoes_ifStmtOf :
    Echoes next (Begins (· = .keyword .ifKw)) stmtView [] s (ifStmtOf Grammar.standard inner)
      (ifStmtOf Grammar.standard (block Grammar.standard)) := by
  refine (echoes_expect (by simp) _).then fun word _ _ => (echoes_expression _).lead
    (fun condition condition' _ _ hcondition => (hinner _).bind (fun ifBlock ifBlock' _ _ hif =>
      echoes_skipThen (by decide) (by decide) hinner (fun elseBlock elseBlock' _ helse =>
        echoes_spanFrom _ _ fun span span' => echoes_return ?_ fun x => ?_)
        fun _ _ _ _ _ => trivial) (fun _ _ _ _ _ => trivial) fun _ _ _ h _ => h.append _)
    calm_of_begins
  · have hcondition : condition.relocate unplaced = condition'.relocate unplaced := hcondition
    have hif : ifBlock.bare = ifBlock'.bare := hif
    have helse : elseBlock.map Block.bare = elseBlock'.map Block.bare := helse
    show Stmt.bare _ = Stmt.bare _
    rw [Stmt.bare_conditional, Stmt.bare_conditional, hcondition, hif]
    exact congrArg (Stmt.conditional _ _ · _) helse
  · cases elseBlock <;>
      simp [stmtView, Stmt.toNode, Node.ownSlots, exprView, blockView, View.option]

theorem echoes_whileStmtOf :
    Echoes next (Begins (· = .keyword .whileKw)) stmtView [] s (whileStmtOf Grammar.standard inner)
      (whileStmtOf Grammar.standard (block Grammar.standard)) := by
  refine (echoes_expect (by simp) _).then fun word _ _ => (echoes_expression _).lead
    (fun condition condition' _ _ hcondition => (hinner _).bind (fun body body' _ _ hbody =>
      echoes_spanFrom _ _ fun span span' => echoes_return ?_ fun x => ?_)
        (fun _ _ _ _ _ => trivial) fun _ _ _ h _ => h.append _)
    calm_of_begins
  · exact congrArg₂ (Stmt.whileLoop · · _) hcondition hbody
  · simp [stmtView, Stmt.toNode, Node.ownSlots, exprView, blockView]

theorem echoes_forStmtOf :
    Echoes next (Begins (· = .keyword .forKw)) stmtView [] s (forStmtOf Grammar.standard inner)
      (forStmtOf Grammar.standard (block Grammar.standard)) := by
  refine (echoes_expect (by simp) _).then fun word _ _ => (echoes_skip? (by decide) (by decide)).and
    fun hasLet _ _ => (echoes_identifier _).then fun binding _ _ => (echoes_expect (by simp) _).then
      fun _ _ _ => echoes_iterable.lead (fun values values' _ _ hvalues => (hinner _).bind
        (fun body body' _ _ hbody => echoes_spanFrom _ _ fun span span' =>
          echoes_return ?_ fun x => ?_) (fun _ _ _ _ _ => trivial) fun _ _ _ h _ => h.append _)
      begins_of_begins
  · exact congrArg₂ (Stmt.forLoop hasLet (binding.relocate unplaced) · · _) hvalues hbody
  · simp [stmtView, Stmt.toNode, Node.ownSlots, exprView, blockView]

theorem echoes_statementOf :
    Echoes next Moves stmtView [] s (statementOf Grammar.standard inner)
      (statementOf Grammar.standard (block Grammar.standard)) := by
  have hmoves : ∀ {K : Kind → Prop} {es : List Cell}, Begins K es → Moves es := fun h =>
    h.mono fun _ _ => trivial
  refine echoes_kind firm_of_begins ?_
  split
  · exact echoes_unexpected
  · exact echoes_returnStmt.mono (fun _ h => h) fun _ h => hmoves h
  · exact echoes_declarationStmt.mono (fun _ h => h) fun _ h => hmoves h
  · exact (echoes_ifStmtOf hinner).mono (fun _ h => h) fun _ h => hmoves h
  · exact (echoes_whileStmtOf hinner).mono (fun _ h => h) fun _ h => hmoves h
  · exact (echoes_forStmtOf hinner).mono (fun _ h => h) fun _ h => hmoves h
  · exact echoes_breakStmt.mono (fun _ h => h) fun _ h => hmoves h
  · exact echoes_continueStmt.mono (fun _ h => h) fun _ h => hmoves h
  · exact echoes_matchStmt.mono (fun _ h => h) fun _ h => hmoves h.begins
  · exact echoes_namedStmt.mono (fun _ h => h) fun _ h => hmoves h.begins

/-- A statement that is skipped is recorded, so that none is. -/
theorem echoes_blockItemOf (depth : Nat) :
    Echoes next Moves stmtsView [] s (blockItemOf Grammar.standard inner depth)
      (blockItemOf Grammar.standard (block Grammar.standard) depth) := by
  have hitem : Echoes next Moves stmtsView [] s (statementOf Grammar.standard inner >>= withComments)
      (statementOf Grammar.standard (block Grammar.standard) >>= withComments) := by
    refine (echoes_statementOf hinner).rest fun stmt stmt' s₁ _ hstmt =>
      echoes_takeComments (echoes_pure rfl ?_ fun x => ?_)
    · have hstmt : stmt.bare = stmt'.bare := hstmt
      show Stmt.bareAll _ = Stmt.bareAll _
      rw [Stmt.bareAll_cons, Stmt.bareAll_cons, Stmt.bareAll_comments, Stmt.bareAll_comments, hstmt]
    · simp [stmtsView, stmtView, Stmt.toNode, List.flatMap_map]
  refine hitem.of_ok (fun items s' hrun hclean => ?_) fun u items u' hrun => ?_
  · cases hstmt : statementOf Grammar.standard inner s with
    | ok stmt s₁ => rwa [bind_of_ok hstmt, ← blockItemOf_of_ok hstmt]
    | error d s₁ =>
      obtain ⟨ts, s₂, hrecover, hread, -⟩ := recoverStatement_reads d depth s.index s.position s₁
      rw [blockItemOf_of_error hstmt, bind_of_ok hrecover, withComments_run] at hrun
      obtain ⟨-, rfl⟩ := EStateM.Result.ok.inj hrun
      have hdirty : ¬ s₂.commented.Clean := by
        show ¬ s₂.Clean
        rw [State.Clean, hread.diagnostics]
        exact not_clean_push _ _
      exact absurd hclean hdirty
  · obtain ⟨stmt, u₁, hstmt, hrest⟩ := bind_eq_ok hrun
    rw [blockItemOf_of_ok hstmt, hrest]

omit hinner in
/-- A block of which nothing is recorded has its closing brace. -/
theorem echoes_closeBlock {start : Position} (depth : Nat) {statements statements' : List Stmt}
    {seen : List Slot} (hstatements : Stmt.bareAll statements = Stmt.bareAll statements')
    (hseen : ∀ x, x ∈ seen ↔ x ∈ statements.flatMap (·.toNode.slots)) :
    Echoes next (Begins (· = .symbol .closeCurly)) blockView seen s
      (closeBlock start depth statements) (closeBlock start depth statements') := by
  have hclose : Echoes next (Begins (· = .symbol .closeCurly)) blockView seen s
      (do let _ ← expect Symbol.closeCurly "block"; return ⟨statements, ← spanFrom start⟩)
      (do let _ ← expect Symbol.closeCurly "block"; return ⟨statements', ← spanFrom start⟩) := by
    refine (echoes_expect (by simp) _).then fun _ _ _ => echoes_spanFrom _ _ fun span span' =>
      echoes_return ?_ fun x => (hseen x).trans ?_
    · show Block.bare _ = Block.bare _
      rw [Block.bare_mk, Block.bare_mk, hstatements]
      rfl
    · simp [blockView, Block.toNode, Node.ownSlots, Stmt.toNodes_eq_map, List.flatMap_map]
  refine hclose.of_ok (fun b s' hrun hclean => ?_) fun u b u' hrun => ?_
  · rw [closeBlock_run] at hrun
    split at hrun
    · next hkind => rwa [bind_run, expect_run, if_pos hkind]
    · obtain ⟨-, rfl⟩ := EStateM.Result.ok.inj hrun
      exact absurd hclean (not_clean_push _ _)
  · obtain ⟨t, u₁, hexpect, hrest⟩ := bind_eq_ok hrun
    obtain ⟨hkind, rfl, rfl⟩ := expect_eq_ok hexpect
    rw [closeBlock_run, if_pos hkind]
    exact hrest

theorem echoes_blockOf :
    Echoes next (Begins (· = .symbol .openCurly)) blockView [] s (blockOf Grammar.standard inner)
      (blockOf Grammar.standard (block Grammar.standard)) := by
  have hitems : ∀ (depth : Nat) (s : State), Echoes (Begins (· = .symbol .closeCurly)) _ _ [] s
      (manyWhile inBlock (blockItemOf Grammar.standard inner depth))
      (manyWhile inBlock (blockItemOf Grammar.standard (block Grammar.standard) depth)) :=
    fun depth => echoes_manyWhile (fun s _ => echoes_blockItemOf hinner depth)
      (fun fs h => ⟨h.firm, trivial⟩) fun fs _ => trivial
  have hbody : ∀ (start : Position) (depth : Nat) (s : State),
      Echoes next Anywhere blockView [] s (blockBody Grammar.standard inner start depth)
        (blockBody Grammar.standard (block Grammar.standard) start depth) := by
    intro start depth s
    refine echoes_takeComments ((hitems depth _).go (fun items items' _ _ hitems =>
      echoes_closeBlock depth ?_ fun x => ?_) begins_of_begins)
    · have hitems : items.map Stmt.bareAll = items'.map Stmt.bareAll := hitems
      rw [Stmt.bareAll_append, Stmt.bareAll_append, Stmt.bareAll_comments, Stmt.bareAll_comments,
        Stmt.bareAll_flatten, Stmt.bareAll_flatten, hitems]
    · have hflat : items.flatten.flatMap (·.toNode.slots) =
          items.flatMap fun item => item.flatMap (·.toNode.slots) := by
        rw [← List.flatMap_id, List.flatMap_assoc]
        rfl
      rw [List.flatMap_append, hflat]
      simp [View.list, stmtsView, Stmt.toNode, List.flatMap_map]
  refine (echoes_expect (by simp) _).then fun brace s₁ _ =>
    echoes_seen rfl (fun _ _ u _ _ _ _ _ _ hu => ⟨u, rfl, ?_⟩) (hbody brace.span.start s₁.depth s₁)
  exact congrArg (blockBody Grammar.standard (block Grammar.standard) brace.span.start) hu.depth

end

/-- A block is repeated, and what stands behind it does not matter. -/
theorem echoes_block :
    Echoes next (Begins (· = .symbol .openCurly)) blockView [] s (block Grammar.standard)
      (block Grammar.standard) := by
  have hblock : Echoes Anywhere (Begins (· = .symbol .openCurly)) blockView [] s
      (block Grammar.standard) (block Grammar.standard) :=
    echoes_fix Eq (fun _ => []) (fun self _ => blockOf Grammar.standard (self ()))
      Recursion.block.eq_body (fun self hself _ _ _ s => echoes_blockOf fun s => hself () () rfl s) rfl s
  exact hblock.mono (fun _ _ => trivial) fun _ h => h

end Parser

end FrontEnd
