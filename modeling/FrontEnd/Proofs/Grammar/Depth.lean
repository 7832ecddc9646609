/-
Braces balance in every production.

* `Production.keeps` — a production that succeeds leaves as many braces open as it found, one
  that fails leaves no fewer, and neither closes a brace that it has not opened;
* `AtTurn.blockItem` — before every item of a block just the braces that it stands in are
  open, unless the input has ended;
* `blockOf_ends` — the brace that a block consumes at its end is the one that matches its
  opening brace;
* `depth_balanced` — all of it together.

A failing statement may leave braces open, and then the block around it skips: what it skips
is counted from where the statement failed (`recoverStatement_settles`).  A block that meets
no closing brace gives up on its opening one, but only before a token that ends the blocks
around it too, so that none of these takes a brace for its own that is not.
-/
import FrontEnd.Proofs.Grammar.Recursion
import FrontEnd.Proofs.Parser.Depth

namespace FrontEnd.Parser

variable {α β : Type}

/-! ### Statements -/

/-- Something behind a mark, if the mark is next, and then nothing more. -/
theorem settles_skipThen {k : Kind} {p : Parser α} {g : Option α → Parser β} {s : State}
    (hk : k.isPlain) (hp : ∀ s, Settles s p)
    (hg : ∀ o s, ∃ b, g o s = .ok b s) :
    Settles s (skip? k >>= fun found =>
      if found then (some <$> p) >>= g else pure none >>= g) := by
  have hpure : ∀ o s, Settles s (g o) := by
    intro o s
    obtain ⟨b, hb⟩ := hg o s
    exact settles_ok hb .refl rfl (.inl ⟨[], .refl s⟩)
  refine (meets_skip? hk).settles_bind fun found s₁ => ?_
  cases found with
  | false => exact hpure none s₁
  | true =>
    have hsome : Settles s₁ (some <$> p) := by
      refine Settles.congr (map_run some p s₁) ((hp s₁).bind (fun a s' => settles_pure _) ?_)
      exact fun a s' _ => ⟨_, rfl⟩
    exact hsome.bind hpure fun o s' _ => hg o s'

section

-- The blocks inside a statement settle.
variable {inner : Parser Block} (hinner : ∀ s, Settles s inner)

include hinner

theorem settles_ifStmtOf (s : State) : Settles s (ifStmtOf Grammar.standard inner) := by
  refine (meets_expect (by decide)).settles_bind fun word s₁ => ?_
  refine meets_expression.settles_bind fun condition s₂ => ?_
  refine (hinner s₂).bind (fun ifBlock s₃ => ?_) fun ifBlock s₃ hends => ?_
  · exact settles_skipThen (by decide) hinner fun elseBlock s₄ => ⟨_, rfl⟩
  · -- A token that ends all blocks is not the word `else`.
    have helse : skip? (.keyword .elseKw) s₃ = .ok false s₃ := by
      have hother : s₃.current.kind ≠ .keyword .elseKw := by
        intro h
        rw [h] at hends
        exact absurd hends (by decide)
      show (if s₃.current.kind = .keyword .elseKw then _ else _ : Parser Bool) s₃ = _
      rw [if_neg hother]
      rfl
    exact ⟨_, bind_of_ok helse⟩

theorem settles_whileStmtOf (s : State) : Settles s (whileStmtOf Grammar.standard inner) := by
  refine (meets_expect (by decide)).settles_bind fun word s₁ => ?_
  refine meets_expression.settles_bind fun condition s₂ => ?_
  exact (hinner s₂).bind (fun body s₃ => settles_spanFrom_pure _) fun body s₃ _ => ⟨_, rfl⟩

theorem settles_forStmtOf (s : State) : Settles s (forStmtOf Grammar.standard inner) := by
  refine (meets_expect (by decide)).settles_bind fun word s₁ => ?_
  refine (meets_skip? (by decide)).settles_bind fun hasLet s₂ => ?_
  refine meets_identifier.settles_bind fun binding s₃ => ?_
  refine (meets_expect (by decide)).settles_bind fun _ s₄ => ?_
  refine meets_iterable.settles_bind fun values s₅ => ?_
  exact (hinner s₅).bind (fun body s₆ => settles_spanFrom_pure _) fun body s₆ _ => ⟨_, rfl⟩

theorem settles_statementOf (s : State) : Settles s (statementOf Grammar.standard inner) := by
  refine settles_kind ?_
  split
  · exact settles_unexpected _ _
  · exact meets_returnStmt.settles
  · exact meets_declarationStmt.settles
  · exact settles_ifStmtOf hinner s
  · exact settles_whileStmtOf hinner s
  · exact settles_forStmtOf hinner s
  · exact meets_breakStmt.settles
  · exact meets_continueStmt.settles
  · exact meets_matchStmt.settles
  · exact meets_namedStmt.settles

/-! ### Blocks -/

omit hinner in
/-- A failed statement is skipped to where none of the braces is open that it has opened, or
to the end of the input. -/
theorem recoverStatement_settles {s₀ s : State} {ts : List Token} {n : Nat}
    (h : Counts s₀ ts n s) (hrun : Run s₀.depth s₀ s) (d : Diagnostic) :
    ∃ stmt us m s', recoverStatement d s₀.depth s₀.index s₀.position s = .ok stmt s' ∧
      Run s₀.depth s₀ s' ∧ Counts s₀ us m s' ∧ (m = 0 ∨ s'.current.kind = .eof) := by
  have hnoted := hrun.tail (.note s d)
  rw [recoverStatement_run]
  split
  · next hsemi =>
    obtain rfl : n = 0 := by
      have := h.depth
      omega
    exact ⟨_, ts, 0, _, rfl, hnoted, h.note d, .inl rfl⟩
  · have hstart : s₀.index ≤ s.index := by
      rw [h.toPasses.index_eq]
      omega
    obtain ⟨us, m, s', hskip, hread, hm, hclosed, hwhere⟩ :=
      skipTokensInBlock_closes (s := { s with diagnostics := s.diagnostics.push d }) h.depth hstart
    refine ⟨_, ts ++ us, m, s', bind_of_ok (skipInBlock_of_moved hskip hwhere), ?_,
      (h.note d).append_reads hread hm, hclosed⟩
    exact hnoted.trans (hread.run hm h.depth)

/-- What holds before every item of a block and behind the last: `b` is the state behind the
opening brace. -/
structure AtTurn (b t : State) : Prop where
  run : Run b.depth b t
  depth : t.depth = b.depth ∨ t.current.kind = .eof
  counts : (∃ ts, Counts b ts 0 t) ∨ t.current.kind.endsBlocks

omit hinner in
theorem AtTurn.start (b : State) : AtTurn b b := ⟨.refl, .inl rfl, .inl ⟨[], .refl b⟩⟩

omit hinner in
/-- Before a closing brace nothing has been given up. -/
theorem AtTurn.counts_of_closeCurly {b t : State} (h : AtTurn b t)
    (hclose : t.current.kind = .symbol .closeCurly) : ∃ ts, Counts b ts 0 t := by
  refine h.counts.resolve_right ?_
  rw [hclose]
  decide

/-- An item of a block leaves just the braces open that the block stands in. -/
theorem AtTurn.blockItem {b t t' : State} {items : List Stmt} (h : AtTurn b t)
    (hin : inBlock t.current.kind)
    (hitem : blockItemOf Grammar.standard inner b.depth t = .ok items t') : AtTurn b t' := by
  obtain ⟨-, hends⟩ := inBlock_iff.mp hin
  have heof : t.current.kind ≠ .eof := by
    intro heof
    simp [heof, Kind.endsBlocks] at hends
  have hdepth : t.depth = b.depth := h.depth.resolve_right heof
  obtain ⟨ts, hcount⟩ := h.counts.resolve_right hends
  have hstmt := settles_statementOf hinner t
  cases hrun : statementOf Grammar.standard inner t with
  | ok stmt t₁ =>
    rw [blockItemOf_of_ok hrun, withComments_run] at hitem
    obtain ⟨-, rfl⟩ := EStateM.Result.ok.inj hitem
    obtain ⟨hthen, hdepth', hcount'⟩ := hstmt.of_ok hrun
    rw [hdepth] at hthen hdepth'
    refine ⟨(h.run.trans hthen).tail (.comments t₁), .inl hdepth', ?_⟩
    refine hcount'.imp_left ?_
    rintro ⟨us, hus⟩
    exact ⟨ts ++ us, (hcount.append hus).commented⟩
  | error d t₁ =>
    obtain ⟨hthen, us, n, hus⟩ := hstmt.of_error hrun
    obtain ⟨stmt, vs, m, t₂, hrecover, hskipped, hvs, hclosed⟩ :=
      recoverStatement_settles hus hthen d
    rw [blockItemOf_of_error hrun, ← hdepth, bind_of_ok hrecover, withComments_run] at hitem
    obtain ⟨-, rfl⟩ := EStateM.Result.ok.inj hitem
    rw [hdepth] at hskipped
    have hrun' := (h.run.trans hskipped).tail (.comments t₂)
    rcases hclosed with rfl | heof'
    · refine ⟨hrun', .inl ?_, .inl ⟨ts ++ vs, (hcount.append hvs).commented⟩⟩
      exact hvs.depth.trans hdepth
    · refine ⟨hrun', .inr heof', .inr ?_⟩
      show t₂.current.kind.endsBlocks
      simp [heof', Kind.endsBlocks]

theorem Turns.atTurn {b t : State}
    (h : Turns inBlock (blockItemOf Grammar.standard inner b.depth) b t) : AtTurn b t :=
  h.preserves (fun _ _ _ hturn hin hitem => hturn.blockItem hinner hin hitem) (.start b)

/-- How a block that starts in one state ends in the other: with the brace that matches its
opening one, or, recorded, before a token that ends all blocks. -/
inductive BlockEnd (s s' : State) : Prop
  | closed {ts : List Token} {c : Token} (h : Passes s (s.current :: (ts ++ [c])) s')
    (hclose : c.kind = .symbol .closeCurly) (hbalanced : Balanced ts)
  | givenUp {ts : List Token} (h : Passes s (s.current :: ts) s')
    (hends : s'.current.kind.endsBlocks)
    (hrecorded : s'.diagnostics.reported.getLast? =
      some (s'.notFound "block" (.symbol .closeCurly)))

-- Besides, the blocks inside a statement cross tokens.
variable (hworks : ∀ s, Works true s inner Block.SpelledBy)

include hworks

theorem blockOf_ends {s : State} (hopen : s.current.kind = .symbol .openCurly) :
    ∃ b s', blockOf Grammar.standard inner s = .ok b s' ∧ Run s.depth s s' ∧
      s'.depth = s.depth ∧ BlockEnd s s' := by
  have hproper : s.current.kind ≠ .eof := by
    rw [hopen]
    simp
  have hdepth : s.advance.commented.depth = s.depth + 1 :=
    depth_advance hproper (by rw [hopen]; rfl)
  obtain ⟨items, s', ts, hitems, hcross, hstop, -⟩ := blockItems_total hworks s.advance.commented
  have hturn := (manyWhile_turns hitems).1.atTurn hinner
  rw [hdepth] at hitems
  -- The opening brace is consumed, and the braces it adds to stay open meanwhile.
  have hfirst : Run s.depth s s.advance.commented :=
    .tail (.single (.consume hproper (by simp [hopen]))) (.comments _)
  have hinside := hfirst.trans (hturn.run.mono (by omega))
  have hpass := (passes_advance hproper).commented.append hcross.toPasses
  rw [blockOf_run hopen, hitems]
  simp only [Outcome.andThen, closeBlock_run]
  by_cases hclose : s'.current.kind = .symbol .closeCurly
  · rw [if_pos hclose]
    have hproper' : s'.current.kind ≠ .eof := by
      rw [hclose]
      simp
    have hdepth' : s'.depth = s.depth + 1 := (hturn.depth.resolve_right hproper').trans hdepth
    obtain ⟨us, hus⟩ := hturn.counts_of_closeCurly hclose
    refine ⟨_, _, rfl, hinside.tail (.consume hproper' fun _ => by omega), ?_, ?_⟩
    · refine depth_advance hproper' ?_
      rw [hdepth', hclose]
      rfl
    · have hall := ((passes_advance hproper).commented.append hus.toPasses).append
        (passes_advance hproper')
      exact .closed hall hclose hus.braces
  · rw [if_neg hclose]
    have hends := hstop.resolve_left hclose
    have hle : s.depth + 1 ≤ s'.depth := hdepth ▸ hturn.run.le_depth (Nat.le_refl _)
    refine ⟨_, _, rfl, (hinside.tail (.note s' _)).tail (.giveUp hends ?_ ?_), rfl, ?_⟩
    · exact Nat.le_refl _
    · show s.depth + 1 - 1 ≤ s'.depth
      omega
    · exact .givenUp hpass.aside hends
        (by simp [Diagnostics.push, State.notFound, State.notFound.missing, State.current,
          State.peek])

theorem settles_blockOf (s : State) : Settles s (blockOf Grammar.standard inner) := by
  by_cases hopen : s.current.kind = .symbol .openCurly
  · obtain ⟨b, s', hrun, hsteps, hdepth, hend⟩ := blockOf_ends hinner hworks hopen
    refine settles_ok hrun hsteps hdepth ?_
    cases hend with
    | closed h hclose hbalanced =>
      exact .inl ⟨_, h, hbalanced.braced hopen hclose, hdepth⟩
    | givenUp h hends => exact .inr hends
  · exact settles_error (bind_of_error (by rw [expect_run, if_neg hopen])) .refl (.refl s)

end

/-- A block settles. -/
theorem settles_block (s : State) : Settles s (block Grammar.standard) :=
  settles_nest works_block (fun _ hworks hinner => settles_blockOf hinner hworks) s

/-! ### Definitions -/

theorem settles_function (s : State) : Settles s (function Grammar.standard) := by
  refine (meets_expect (by decide)).settles_bind fun word s₁ => ?_
  refine meets_identifier.settles_bind fun name s₂ => ?_
  refine meets_genericClause?.settles_bind fun generic s₃ => ?_
  refine meets_parameterList.settles_bind fun parameters s₄ => ?_
  refine meets_returnType?.settles_bind fun returnType s₅ => ?_
  exact (settles_block s₅).bind (fun body s₆ => settles_spanFrom_pure _) fun body s₆ _ => ⟨_, rfl⟩

theorem keeps_membersWhile {wanted : Kind → Bool} {member : Parser α}
    (hmember : ∀ s, Keeps s member) (s : State) : Keeps s (membersWhile wanted member) := by
  refine keeps_takeComments.bind fun leading s₁ => ?_
  have hitem : ∀ s, Keeps s (do let m ← member; return (m, ← takeComments)) := fun s =>
    (hmember s).bind fun m s₂ => keeps_takeComments.bind fun comments s₃ => keeps_pure _
  exact (keeps_manyWhile hitem s₁).bind fun members s₂ => keeps_pure _

theorem keeps_structMembers (s : State) : Keeps s (structMembers Grammar.standard) := by
  refine (keeps_membersWhile (fun s => meets_parameter.settles.keeps) s).bind fun fields s₁ => ?_
  refine (keeps_membersWhile (fun s => (settles_function s).keeps) s₁).bind fun methods s₂ => ?_
  exact keeps_pure _

theorem keeps_structDef (s : State) : Keeps s (structDef Grammar.standard) := by
  rw [structDef_eq]
  refine (meets_expect (by decide)).settles.keeps.bind fun word s₁ => ?_
  refine meets_identifier.settles.keeps.bind fun name s₂ => ?_
  refine meets_genericClause?.settles.keeps.bind fun generic s₃ => ?_
  refine Keeps.braced keeps_structMembers fun members s₄ => ?_
  have hrun := closeStruct_run word.span.start name generic members s₄
  by_cases hclose : s₄.current.kind = .symbol .closeCurly
  · rw [if_pos hclose] at hrun
    exact .inl ⟨hclose, _, hrun⟩
  · rw [if_neg hclose] at hrun
    exact .inr ⟨_, hrun⟩

theorem keeps_definition (s : State) : Keeps s (definition Grammar.standard) := by
  refine keeps_kind ?_
  split
  · exact (settles_unexpected _ _).keeps
  · exact meets_useStatement.settles.keeps.bind fun u s₁ => keeps_pure _
  · exact (settles_function s).keeps.bind fun f s₁ => keeps_pure _
  · exact meets_externalFunction.settles.keeps.bind fun f s₁ => keeps_pure _
  · exact (keeps_structDef s).bind fun d s₁ => keeps_pure _

theorem Production.keeps {p : Parser α} (h : Production p) (s : State) : Keeps s p := by
  cases h with
  | reading h => exact (h.meets s).settles.keeps
  | ifStmt => exact (settles_ifStmtOf settles_block s).keeps
  | whileStmt => exact (settles_whileStmtOf settles_block s).keeps
  | forStmt => exact (settles_forStmtOf settles_block s).keeps
  | statement => exact (settles_statementOf settles_block s).keeps
  | block => exact (settles_block s).keeps
  | function => exact (settles_function s).keeps
  | struct => exact keeps_structDef s
  | definition => exact keeps_definition s

/-! ### Braces balance -/

/-- Braces balance in every production: one that succeeds leaves as many braces open as it
found, one that fails leaves no fewer, and on its way no brace closes that was open before,
so that their number is never cut off at zero.  At every turn of a block just the braces it
stands in are open, unless the input has ended, and the closing brace that it consumes matches
its opening one. -/
theorem depth_balanced :
    (∀ {α : Type} {p : Parser α}, Production p → ∀ s,
      (∀ a s', p s = .ok a s' → s'.depth = s.depth ∧ Run s.depth s s') ∧
      ∀ d s', p s = .error d s' → s.depth ≤ s'.depth ∧ Run s.depth s s') ∧
    (∀ {base : Nat} {s s' : State}, Step base s s' → s.current.kind = .symbol .closeCurly →
      s'.index ≠ s.index → s'.depth + 1 = s.depth) ∧
    ∀ s : State, s.current.kind = .symbol .openCurly →
      block Grammar.standard s =
        Outcome.andThen
          (manyWhile inBlock
            (blockItemOf Grammar.standard (block Grammar.standard) (s.depth + 1))
            s.advance.commented)
          (fun items => closeBlock s.current.span.start (s.depth + 1)
            (s.advance.comments.map Stmt.comment ++ items.flatten)) ∧
      (∀ t, Turns inBlock (blockItemOf Grammar.standard (block Grammar.standard) (s.depth + 1))
        s.advance.commented t → t.depth = s.depth + 1 ∨ t.current.kind = .eof) ∧
      ∃ b s', block Grammar.standard s = .ok b s' ∧ BlockEnd s s' := by
  refine ⟨fun h s => ⟨fun a s' hrun => ?_, fun d s' hrun => ?_⟩,
    fun h hclose hindex => h.depth_closeCurly hclose hindex, fun s hopen => ?_⟩
  · exact ((h.keeps s).of_ok hrun).symm
  · have hsteps := (h.keeps s).of_error hrun
    exact ⟨hsteps.le_depth (Nat.le_refl _), hsteps⟩
  · have hbody : block Grammar.standard = blockOf Grammar.standard (block Grammar.standard) :=
      Recursion.block.eq_body ()
    have hdepth : s.advance.commented.depth = s.depth + 1 :=
      depth_advance (by rw [hopen]; simp) (by rw [hopen]; rfl)
    refine ⟨?_, fun t ht => ?_, ?_⟩
    · rw [← blockOf_run hopen, ← hbody]
    · rw [← hdepth] at ht ⊢
      exact (ht.atTurn settles_block).depth
    · obtain ⟨b, s', hrun, -, -, hend⟩ := blockOf_ends settles_block works_block hopen
      exact ⟨b, s', by rw [hbody]; exact hrun, hend⟩

/-- A block that meets the start of a definition before its closing brace. -/
def openBlock : State :=
  State.ofStream ⟨[⟨.symbol .openCurly, "\x7b", Span.empty Position.start⟩,
    ⟨.keyword .fnKw, "fn", Span.empty Position.start⟩,
    ⟨.symbol .closeCurly, "\x7d", Span.empty Position.start⟩], []⟩

theorem depth_balanced_openBlock :
    openBlock.current.kind = .symbol .openCurly ∧
    (∃ b s', block Grammar.standard openBlock = .ok b s' ∧ BlockEnd openBlock s' ∧
      s'.depth = openBlock.depth) ∧
    openBlock.advance.commented.depth = openBlock.depth + 1 := by
  obtain ⟨hproduction, -, hblock⟩ := depth_balanced
  have hopen : openBlock.current.kind = .symbol .openCurly := by decide
  obtain ⟨-, hturns, b, s', hrun, hend⟩ := hblock openBlock hopen
  refine ⟨hopen, ⟨b, s', hrun, hend, ((hproduction .block openBlock).1 b s' hrun).1⟩, ?_⟩
  exact (hturns _ (.start _)).resolve_right (by decide)

end FrontEnd.Parser
