/-
Blocks, definitions and files behind a front.

* `shifts_block`, `shifts_definition` — a block or a definition is read as the same tree at
  its new place, and the same is recorded;
* `shifted_fileItem` — so are the items of a file, also those that are skipped;
* `shifted_fileItems` — so is what is left of a file.

Recovery counts tokens from the first of all and compares the count with the one it began
with, so the tokens of the front are counted on both sides.
-/
import FrontEnd.Proofs.Grammar.Definitions
import FrontEnd.Proofs.Grammar.Shifting

namespace FrontEnd.Parser

variable {α β : Type} {φ : Front} {moved : Bool} {g : Grammar}

/-! ### Statements with blocks -/

section

-- The blocks inside a statement are shifted.
variable {inner inner' : Parser Block}
  (hinner : Shifts φ true (Block.relocate φ.move) inner inner')

include hinner

theorem shifts_ifStmtOf :
    Shifts φ moved (Stmt.relocate φ.move) (ifStmtOf g inner) (ifStmtOf g inner') := by
  refine (shifts_expect _ (by decide)).bind fun word => ?_
  refine (shifts_expression _).bind fun condition => hinner.bind fun ifBlock => ?_
  refine shifts_skipThen hinner fun elseBlock => ?_
  refine (shifts_spanFrom _).bind fun span => shifts_pure ?_
  simp [Stmt.relocate]

theorem shifts_whileStmtOf :
    Shifts φ moved (Stmt.relocate φ.move) (whileStmtOf g inner) (whileStmtOf g inner') := by
  refine (shifts_expect _ (by decide)).bind fun word => ?_
  refine (shifts_expression _).bind fun condition => hinner.bind fun body => ?_
  exact (shifts_spanFrom _).bind fun span => shifts_pure rfl

theorem shifts_forStmtOf :
    Shifts φ moved (Stmt.relocate φ.move) (forStmtOf g inner) (forStmtOf g inner') := by
  refine (shifts_expect _ (by decide)).bind fun word => (shifts_skip? _).bind fun hasLet => ?_
  refine (shifts_identifier _).bind fun binding => (shifts_expect _ (by decide)).bind fun _ => ?_
  refine shifts_iterable.bind fun values => hinner.bind fun body => ?_
  exact (shifts_spanFrom _).bind fun span => shifts_pure rfl

theorem shifts_statementOf :
    Shifts φ moved (Stmt.relocate φ.move) (statementOf g inner) (statementOf g inner') := by
  refine shifts_kind fun k => ?_
  split
  · exact shifts_unexpected _ _
  · exact shifts_returnStmt
  · exact shifts_declarationStmt
  · exact shifts_ifStmtOf hinner
  · exact shifts_whileStmtOf hinner
  · exact shifts_forStmtOf hinner
  · exact shifts_breakStmt
  · exact shifts_continueStmt
  · exact shifts_matchStmt
  · exact shifts_namedStmt

/-! ### Blocks -/

omit hinner in
/-- Skipping goes as far on both sides.  The index at which it starts is counted from the
first token of all. -/
theorem shifts_skipTokensInBlock (depth start : Nat) :
    Shifts φ true id (skipTokensInBlock depth start)
      (skipTokensInBlock depth (start + φ.before.length)) := by
  intro s s' h hne
  induction hn : s.rest.length using Nat.strong_induction_on generalizing s s' with
  | _ n ih =>
    rw [skipTokensInBlock_run, skipTokensInBlock_run, h.kind, h.depth, h.index, h.length_rest]
    simp only [Nat.add_lt_add_iff_right]
    have hmoved := consumed_advance (hne rfl)
    split
    · exact .ok h (hne rfl)
    · split
      · exact .ok h.advance hmoved
      · split
        · exact .ok h (hne rfl)
        · unfold guarded
          rw [h.advance.length_rest]
          split
          · next hlt => exact ih _ (hn ▸ hlt) _ _ h.advance (fun _ => hmoved) rfl
          · exact shifts_unexpected "source_file" [] _ _ h.advance fun _ => hmoved

omit hinner in
theorem shifts_skipInBlock (depth start : Nat) :
    Shifts φ true id (skipInBlock depth start)
      (skipInBlock depth (start + φ.before.length)) := by
  refine (shifts_skipTokensInBlock depth start).bind fun _ s s' h hne => ?_
  show OutcomeShifted φ true id
    ((if s.index = start ∧ s.current.kind ≠ .eof ∧ s.current.kind ≠ .symbol .closeCurly
      then _ else _ : Parser Unit) s)
    ((if s'.index = start + φ.before.length ∧ s'.current.kind ≠ .eof ∧
      s'.current.kind ≠ .symbol .closeCurly then _ else _ : Parser Unit) s')
  rw [h.kind, h.index]
  simp only [Nat.add_right_cancel_iff]
  split
  · exact .ok h.advance (consumed_advance (hne rfl))
  · exact .ok h (hne rfl)

omit hinner in
theorem shifts_recoverStatement (d : Diagnostic) (depth start : Nat) (position : Position) :
    Shifts φ true (Stmt.relocate φ.move) (recoverStatement d depth start position)
      (recoverStatement (d.relocate φ.move) depth (start + φ.before.length)
        (φ.move position)) := by
  intro s s' h hne
  have hskip : Shifts φ true (Stmt.relocate φ.move)
      (skipInBlock depth start >>= fun _ => spanFrom position >>= fun span =>
        pure (.error span))
      (skipInBlock depth (start + φ.before.length) >>= fun _ =>
        spanFrom (φ.move position) >>= fun span => pure (.error span)) :=
    (shifts_skipInBlock depth start).bind fun _ => (shifts_spanFrom _).bind fun _ =>
      shifts_pure rfl
  have hlacks : lacksSemicolon (d.relocate φ.move) = lacksSemicolon d := rfl
  rw [recoverStatement_run, recoverStatement_run, hlacks, h.kind, h.depth, h.index]
  simp only [Nat.add_lt_add_iff_right]
  split
  · rw [h.spanFrom (hne rfl)]
    exact .ok (h.record d) (hne rfl)
  · exact hskip _ _ (h.record d) hne

omit hinner in
theorem shifts_withComments (stmt : Stmt) :
    Shifts φ true (List.map (Stmt.relocate φ.move)) (withComments stmt)
      (withComments (stmt.relocate φ.move)) := by
  refine shifts_takeComments.bind fun comments => shifts_pure ?_
  simp [Stmt.relocate]

theorem shifts_blockItemOf (depth : Nat) :
    Shifts φ true (List.map (Stmt.relocate φ.move)) (blockItemOf g inner depth)
      (blockItemOf g inner' depth) := by
  intro s s' h hne
  have hstmt : Shifts φ true (Stmt.relocate φ.move) (statementOf g inner)
    (statementOf g inner') := shifts_statementOf hinner
  rcases hstmt.run h hne with
    ⟨stmt, s₁, s₁', hrun, hrun', h₁, hne₁⟩ | ⟨d, s₁, s₁', hrun, hrun', h₁, hne₁⟩
  · rw [blockItemOf_of_ok hrun, blockItemOf_of_ok hrun']
    exact shifts_withComments stmt s₁ s₁' h₁ fun _ => hne₁
  · rw [blockItemOf_of_error hrun, blockItemOf_of_error hrun', h.index, h.position]
    refine Shifts.bind (shifts_recoverStatement d depth s.index s.position) ?_ s₁ s₁' h₁ hne₁
    exact fun stmt => shifts_withComments stmt

omit hinner in
theorem shifts_closeBlock (start : Position) (depth : Nat) (statements : List Stmt) :
    Shifts φ true (Block.relocate φ.move) (closeBlock start depth statements)
      (closeBlock (φ.move start) depth (statements.map (·.relocate φ.move))) := by
  intro s s' h hne
  have hmoved := consumed_advance (hne rfl)
  rw [closeBlock_run, closeBlock_run, h.kind, h.spanFrom (hne rfl), h.advance.spanFrom hmoved,
    h.notFound]
  have hblock : ∀ span : Span,
      (⟨statements.map (·.relocate φ.move), span.relocate φ.move⟩ : Block) =
        Block.relocate φ.move ⟨statements, span⟩ := by
    intro span
    simp [Block.relocate]
  split
  · rw [hblock]
    exact .ok h.advance hmoved
  · rw [hblock]
    exact .ok ((h.record _).setDepth _) (hne rfl)

/-- What a block does behind its opening brace. -/
def blockBody (g : Grammar) (inner : Parser Block) (start : Position) (depth : Nat) :
    Parser Block := do
  let leading ← takeComments
  let items ← manyWhile inBlock (blockItemOf g inner depth)
  closeBlock start depth (leading.map Stmt.comment ++ items.flatten)

theorem shifts_blockBody (start : Position) (depth : Nat) :
    Shifts φ true (Block.relocate φ.move) (blockBody g inner start depth)
      (blockBody g inner' (φ.move start) depth) := by
  refine shifts_takeComments.bind fun leading => ?_
  refine (shifts_manyWhile (shifts_blockItemOf hinner depth)).bind fun items => ?_
  have hstatements :
      (leading.map (Comment.relocate φ.move)).map Stmt.comment ++
          (items.map (List.map (Stmt.relocate φ.move))).flatten =
        (leading.map Stmt.comment ++ items.flatten).map (Stmt.relocate φ.move) := by
    simp [List.map_flatten, Stmt.relocate]
  rw [hstatements]
  exact shifts_closeBlock start depth _

theorem shifts_blockOf :
    Shifts φ moved (Block.relocate φ.move) (blockOf g inner) (blockOf g inner') := by
  refine (shifts_expect _ (by decide)).bind fun brace s s' h hne => ?_
  show OutcomeShifted φ true (Block.relocate φ.move)
    (blockBody g inner brace.span.start s.depth s)
    (blockBody g inner' (φ.move brace.span.start) s'.depth s')
  rw [h.depth]
  exact shifts_blockBody hinner _ _ s s' h hne

end

theorem shifts_block : Shifts φ true (Block.relocate φ.move) (block g) (block g) :=
  shifts_nest fun _ _ hinner => shifts_blockOf hinner

/-! ### Definitions -/

theorem shifts_useStatement :
    Shifts φ moved (UseStatement.relocate φ.move) useStatement useStatement := by
  refine (shifts_expect _ (by decide)).bind fun word => ?_
  refine (shifts_manyWhile (m := Identifier.relocate φ.move) ?_).bind fun path => ?_
  · refine (shifts_identifier _).bind fun name => shifts_kind fun k => ?_
    -- A separator after the name is taken with it; anything else ends the path.
    split
    · exact shifts_advance.bind fun _ => shifts_pure rfl
    · exact shifts_advance.bind fun _ => shifts_pure rfl
    · exact shifts_pure rfl
  · refine (shifts_expect _ (by decide)).bind fun _ => ?_
    exact (shifts_spanFrom _).bind fun span => shifts_pure rfl

theorem shifts_parameter :
    Shifts φ moved (Parameter.relocate φ.move) (parameter g) (parameter g) := by
  refine (shifts_identifier _).bind fun name => (shifts_expect _ (by decide)).bind fun _ => ?_
  refine shifts_mutMarker?.bind fun mutability => shifts_typeExpr.bind fun type => ?_
  refine (shifts_spanFrom _).bind fun span => (shifts_skip? _).bind fun _ => ?_
  exact shifts_pure rfl

theorem shifts_parameterList :
    Shifts φ moved (List.map (Parameter.relocate φ.move)) (parameterList g)
      (parameterList g) := by
  refine (shifts_expect _ (by decide)).bind fun _ => ?_
  refine (shifts_manyWhile shifts_parameter).bind fun parameters => ?_
  exact (shifts_expect _ (by decide)).bind fun _ => shifts_pure rfl

theorem shifts_returnType? :
    Shifts φ true (Option.map (TypeExpr.relocate φ.move)) (returnType? g) (returnType? g) := by
  refine (shifts_skip? _).bind fun found => ?_
  cases found with
  | true => exact shifts_typeExpr.map fun _ => rfl
  | false => exact shifts_pure rfl

theorem shifts_function :
    Shifts φ moved (FunctionDef.relocate φ.move) (function g) (function g) := by
  refine (shifts_expect _ (by decide)).bind fun word => (shifts_identifier _).bind fun name => ?_
  refine shifts_genericClause?.bind fun generic => shifts_parameterList.bind fun parameters => ?_
  refine shifts_returnType?.bind fun returnType => shifts_block.bind fun body => ?_
  exact (shifts_spanFrom _).bind fun span => shifts_pure rfl

theorem shifts_externalFunction :
    Shifts φ moved (ExternalFunction.relocate φ.move) (externalFunction g)
      (externalFunction g) := by
  refine (shifts_expect _ (by decide)).bind fun word => (shifts_expect _ (by decide)).bind fun _ => ?_
  refine (shifts_identifier _).bind fun name => shifts_parameterList.bind fun parameters => ?_
  refine shifts_returnType?.bind fun returnType => (shifts_expect _ (by decide)).bind fun _ => ?_
  exact (shifts_spanFrom _).bind fun span => shifts_pure rfl

theorem shifts_membersWhile {m : α → α} {wanted : Kind → Bool} {member member' : Parser α}
    (hmember : Shifts φ true m member member') :
    Shifts φ true (Prod.map (List.map m) (List.map (Comment.relocate φ.move)))
      (membersWhile wanted member) (membersWhile wanted member') := by
  have hitem : Shifts φ true (Prod.map m (List.map (Comment.relocate φ.move)))
      (do let a ← member; return (a, ← takeComments))
      (do let a ← member'; return (a, ← takeComments)) :=
    hmember.bind fun _ => shifts_takeComments.bind fun _ => shifts_pure rfl
  refine shifts_takeComments.bind fun leading => (shifts_manyWhile hitem).bind fun members => ?_
  refine shifts_pure ?_
  simp [Prod.map, List.flatMap_map, List.map_flatMap, Function.comp_def]

theorem shifts_structDef :
    Shifts φ moved (StructDef.relocate φ.move) (structDef g) (structDef g) := by
  refine (shifts_expect _ (by decide)).bind fun word => (shifts_identifier _).bind fun name => ?_
  refine shifts_genericClause?.bind fun generic => (shifts_expect _ (by decide)).bind fun _ => ?_
  refine (shifts_membersWhile shifts_parameter).bind fun fields => ?_
  refine (shifts_membersWhile shifts_function).bind fun methods => shifts_kind fun k => ?_
  split
  · refine shifts_advance.bind fun _ => (shifts_spanFrom _).bind fun span => shifts_pure ?_
    simp [StructDef.relocate]
  · exact shifts_unexpected _ _

theorem shifts_definition :
    Shifts φ moved (Definition.relocate φ.move) (definition g) (definition g) := by
  refine shifts_kind fun k => ?_
  split
  · exact shifts_unexpected _ _
  · exact shifts_useStatement.bind fun _ => shifts_pure rfl
  · exact shifts_function.bind fun _ => shifts_pure rfl
  · exact shifts_externalFunction.bind fun _ => shifts_pure rfl
  · exact shifts_structDef.bind fun _ => shifts_pure rfl

/-! ### Files -/

/-- Skipping to a definition goes as far on both sides. -/
theorem shifted_skipTokensToDefinition {s s' : State} (h : Shifted φ s s') (start : Nat) :
    ∃ s₁ s₁', skipTokensToDefinition start s = .ok () s₁ ∧
      skipTokensToDefinition (start + φ.before.length) s' = .ok () s₁' ∧
      Shifted φ s₁ s₁' := by
  induction hn : s.rest.length using Nat.strong_induction_on generalizing s s' with
  | _ n ih =>
    rw [skipTokensToDefinition_run, skipTokensToDefinition_run, h.kind, h.depth, h.index,
      h.advance.depth, h.length_rest]
    simp only [Nat.add_lt_add_iff_right]
    by_cases heof : s.current.kind = .eof
    · rw [if_pos heof, if_pos heof]
      exact ⟨s, s', rfl, rfl, h⟩
    rw [if_neg heof, if_neg heof]
    have hlt := length_rest_advance heof
    have hgo : ∃ s₁ s₁', guarded s.rest.length (skipTokensToDefinition start) s.advance =
          .ok () s₁ ∧
        guarded s.rest.length (skipTokensToDefinition (start + φ.before.length))
          s'.advance = .ok () s₁' ∧ Shifted φ s₁ s₁' := by
      obtain ⟨s₁, s₁', hrun, hrun', h₁⟩ := ih _ (hn ▸ hlt) h.advance rfl
      refine ⟨s₁, s₁', ?_, ?_, h₁⟩
      · rw [guarded, if_pos hlt]
        exact hrun
      · rw [guarded, h.advance.length_rest, if_pos hlt]
        exact hrun'
    split
    · exact ⟨_, _, rfl, rfl, h.advance⟩
    · split
      · split
        · exact ⟨_, _, rfl, rfl, h.advance⟩
        · exact hgo
      · split
        · exact ⟨_, _, rfl, rfl, h⟩
        · exact hgo

theorem shifted_skipToDefinition {s s' : State} (h : Shifted φ s s') (start : Nat) :
    ∃ s₁ s₁', skipToDefinition start s = .ok () s₁ ∧
      skipToDefinition (start + φ.before.length) s' = .ok () s₁' ∧
      Shifted φ s₁ s₁' := by
  obtain ⟨s₁, s₁', hrun, hrun', h₁⟩ := shifted_skipTokensToDefinition h start
  have hgo : skipToDefinition start s =
      (if s₁.index = start then do let _ ← advance else pure () : Parser Unit) s₁ :=
    bind_of_ok hrun
  have hgo' : skipToDefinition (start + φ.before.length) s' =
      (if s₁'.index = start + φ.before.length then do let _ ← advance else pure () :
        Parser Unit) s₁' :=
    bind_of_ok hrun'
  rw [hgo, hgo', h₁.index]
  simp only [Nat.add_right_cancel_iff]
  split
  · exact ⟨_, _, rfl, rfl, h₁.advance⟩
  · exact ⟨_, _, rfl, rfl, h₁⟩

/-- A definition that fails is skipped in the same way on both sides, if a token has been
consumed behind it. -/
theorem shifted_recoverDefinition {s s' s₁ s₁' s₂ : State} {d : Diagnostic} {item : Definition}
    (h : Shifted φ s s') (h₁ : Shifted φ s₁ s₁')
    (hrun : recoverDefinition s d s₁ = .ok item s₂) (hne : s₂.consumed ≠ []) :
    ∃ s₂', recoverDefinition s' (d.relocate φ.move) s₁' = .ok (item.relocate φ.move) s₂' ∧
      Shifted φ s₂ s₂' := by
  obtain ⟨t, t', hskip, hskip', ht⟩ := shifted_skipToDefinition (h₁.record d) s.index
  have hgo : recoverDefinition s d s₁ = .ok (.error (t.spanFrom s.position)) t :=
    bind_of_ok hskip
  obtain ⟨rfl, rfl⟩ : Definition.error (t.spanFrom s.position) = item ∧ t = s₂ := by
    simpa using hgo.symm.trans hrun
  refine ⟨t', ?_, ht⟩
  have hgo' : recoverDefinition s' (d.relocate φ.move) s₁' =
      .ok (.error (t'.spanFrom s'.position)) t' := by
    rw [← h.index] at hskip'
    exact bind_of_ok hskip'
  rw [hgo', h.position, ht.spanFrom hne]
  rfl

theorem shifted_withFileComments {s s' : State} (h : Shifted φ s s') (item : Definition) :
    ∃ items s₁ s₁', withFileComments item s = .ok items s₁ ∧
      withFileComments (item.relocate φ.move) s' = .ok (items.map (·.relocate φ.move)) s₁' ∧
      Shifted φ s₁ s₁' := by
  refine ⟨_, _, _, withFileComments_run item s, ?_, h.commented⟩
  rw [withFileComments_run, h.comments]
  simp [Definition.relocate]

/-- An item of a file is read or skipped in the same way on both sides. -/
theorem shifted_fileItem {s s' : State} (h : Shifted φ s s') (heof : s.current.kind ≠ .eof) :
    ∃ items s₁ s₁', fileItem Grammar.standard s = .ok items s₁ ∧
      fileItem Grammar.standard s' = .ok (items.map (·.relocate φ.move)) s₁' ∧
      Shifted φ s₁ s₁' := by
  have hdef : Shifts φ false (Definition.relocate φ.move) (definition Grammar.standard)
    (definition Grammar.standard) := shifts_definition
  rcases hdef.run (h.setDepth 0) (by simp) with
    ⟨item, s₁, s₁', hrun, hrun', h₁, hne₁⟩ | ⟨d, s₁, s₁', hrun, hrun', h₁, -⟩
  · rw [fileItem_of_ok hrun, fileItem_of_ok hrun']
    exact shifted_withFileComments h₁ item
  · rw [fileItem_of_error hrun, fileItem_of_error hrun']
    -- Recovery always consumes a token, so that the span of what it skips can be compared.
    obtain ⟨ts, n, hcross, hd⟩ := works_definition.of_error hrun
    obtain ⟨s₂, us, hrecover, hwalk, hus, -⟩ :=
      recoverDefinition_walks hcross.toWalks.of_depth hd heof
    have hne : s₂.consumed ≠ [] := by
      rw [hwalk.consumed]
      simp [hus]
    obtain ⟨s₂', hrecover', h₂⟩ := shifted_recoverDefinition h h₁ hrecover hne
    rw [bind_of_ok hrecover, bind_of_ok hrecover']
    exact shifted_withFileComments h₂ _

/-- What is left of a file is read in the same way on both sides. -/
theorem shifted_fileItems {s s' : State} (h : Shifted φ s s') :
    ∃ items s₁ s₁', manyWhile (· ≠ .eof) (fileItem Grammar.standard) s = .ok items s₁ ∧
      manyWhile (· ≠ .eof) (fileItem Grammar.standard) s' =
        .ok (items.map (List.map (·.relocate φ.move))) s₁' ∧
      Shifted φ s₁ s₁' := by
  induction hn : s.rest.length using Nat.strong_induction_on generalizing s s' with
  | _ n ih =>
    by_cases heof : s.current.kind = .eof
    · have heof' : s'.current.kind = .eof := h.kind.trans heof
      exact ⟨[], s, s', manyWhile_of_not (by simp [heof]) _, manyWhile_of_not (by simp [heof']) _, h⟩
    · obtain ⟨items, s₁, s₁', hrun, hrun', h₁⟩ := shifted_fileItem h heof
      have hlt := length_rest_fileItem heof hrun
      obtain ⟨more, s₂, s₂', hmore, hmore', h₂⟩ := ih _ (hn ▸ hlt) h₁ rfl
      refine ⟨items :: more, s₂, s₂', ?_, ?_, h₂⟩
      · exact manyWhile_cons (by simp [heof]) hrun hlt hmore
      · refine manyWhile_cons (by simp [h.kind, heof]) hrun' ?_ hmore'
        rwa [h.length_rest, h₁.length_rest]

end FrontEnd.Parser
