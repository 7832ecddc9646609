/-
Statements and blocks are read by their productions, and nothing in a block keeps it from
being read to its end.

* `blockItem_total` — in a block a statement is read or skipped; in both cases at least one
  token is consumed, and behind it as many braces are open as before;
* `works_block` — reading a block crosses a spelling of it, unless something is recorded.

Skipping (`skipTokensInBlock_crosses`) starts where a statement has failed, which may be
inside braces the statement has opened, and ends outside of them.
-/
import FrontEnd.Proofs.Grammar.Statements
import FrontEnd.Proofs.Parser.Crossing

namespace FrontEnd

theorem Stmt.SpelledBy.ne_nil {stmt : Stmt} {ts : List Token} (h : stmt.SpelledBy ts) :
    ts ≠ [] := by
  cases h <;> simp

namespace Parser

/-! ### Skipping in a block -/

theorem skipTokensInBlock_run (depth start : Nat) (s : State) :
    skipTokensInBlock depth start s =
      if s.current.kind = .eof ∨ s.depth < depth then .ok () s
      else if s.depth = depth ∧ s.current.kind = .symbol .semicolon then .ok () s.advance
      else if s.depth = depth ∧ (s.current.kind = .symbol .closeCurly ∨
        ((s.current.kind.startsStatement ∨ s.current.kind.startsDefinition) ∧
          start < s.index)) then .ok () s
      else guarded s.rest.length (skipTokensInBlock depth start) s.advance := by
  rw [skipTokensInBlock, nest_run]
  show (if s.current.kind = .eof ∨ s.depth < depth then _ else _ : Parser Unit) s = _
  split
  · rfl
  · split
    · rfl
    · split <;> rfl

/-- A brace that closes inside `n` braces more than the block stands in was opened since the
statement began: the depth does not fall below that of the block. -/
theorem exists_depth_advance {depth n : Nat} {s : State} (heof : s.current.kind ≠ .eof)
    (hdepth : s.depth = depth + n)
    (hclose : s.depth = depth → s.current.kind ≠ .symbol .closeCurly) :
    ∃ m, s.current.kind.nests? n = some m ∧ s.advance.depth = depth + m := by
  have hnests : ∃ m, s.current.kind.nests? n = some m := by
    unfold Kind.nests?
    split
    · exact ⟨n + 1, rfl⟩
    · next hkind =>
      cases n with
      | zero => exact absurd hkind (hclose hdepth)
      | succ n => exact ⟨n, rfl⟩
    · exact ⟨n, rfl⟩
  obtain ⟨m, hm⟩ := hnests
  refine ⟨m, hm, depth_advance heof ?_⟩
  rw [hdepth]
  exact Kind.nests?_add hm depth

/-- Skipping, inside `n` braces more than the block stands in, reads on to where none of them
is open, or to the end of the input. -/
theorem skipTokensInBlock_closes {depth n start : Nat} {s : State}
    (hdepth : s.depth = depth + n) (hstart : start ≤ s.index) :
    ∃ us m s', skipTokensInBlock depth start s = .ok () s' ∧ Reads s us s' ∧
      nesting n us = some m ∧ (m = 0 ∨ s'.current.kind = .eof) ∧
      (start < s'.index ∨ s'.current.kind = .eof ∨ s'.current.kind = .symbol .closeCurly) := by
  induction hlen : s.rest.length using Nat.strong_induction_on generalizing s n with
  | _ k ih =>
    rw [skipTokensInBlock_run]
    by_cases heof : s.current.kind = .eof
    · rw [if_pos (.inl heof)]
      exact ⟨[], n, s, rfl, .refl s, rfl, .inr heof, .inr (.inl heof)⟩
    -- The depth tells how many of the statement's own braces are open, so skipping never falls
    -- below the depth it started at.
    rw [if_neg (not_or.mpr ⟨heof, by omega⟩)]
    have hread := reads_advance heof
    have hindex := index_advance heof
    split
    · next hsemi =>
      obtain rfl : n = 0 := by omega
      refine ⟨[s.current], 0, s.advance, rfl, hread, ?_, .inl rfl, .inl (by omega)⟩
      simp [nesting, hsemi.2, Kind.nests?]
    · split
      · next hstop =>
        obtain rfl : n = 0 := by omega
        refine ⟨[], 0, s, rfl, .refl s, rfl, .inl rfl, ?_⟩
        rcases hstop.2 with hclose | hword
        · exact .inr (.inr hclose)
        · exact .inl hword.2
      · next hgo =>
        obtain ⟨m, hm, hdepth'⟩ := exists_depth_advance heof hdepth
          fun h hclose => hgo ⟨h, .inl hclose⟩
        have hlt := length_rest_advance heof
        obtain ⟨us, j, s', hrun, hread', hnesting, hclosed, hwhere⟩ :=
          ih _ (hlen ▸ hlt) hdepth' (by omega) rfl
        refine ⟨s.current :: us, j, s', ?_, hread.append hread', ?_, hclosed, hwhere⟩
        · rw [guarded, if_pos hlt]
          exact hrun
        · rw [nesting, hm]
          exact hnesting

/-- Skipping, after a failure inside `n` braces, goes on to where none of them is open. -/
theorem skipTokensInBlock_crosses {s₀ s : State} {ts : List Token} {n start : Nat}
    (h : Crosses s₀ ts n s) (hstart : start ≤ s.index) :
    ∃ us s', skipTokensInBlock s₀.depth start s = .ok () s' ∧ Crosses s₀ (ts ++ us) 0 s' ∧
      s'.diagnostics = s.diagnostics ∧
      (start < s'.index ∨ s'.current.kind = .eof ∨ s'.current.kind = .symbol .closeCurly) := by
  by_cases heof : s.current.kind = .eof
  · refine ⟨[], s, ?_, by simpa using h.of_eof heof, rfl, .inr (.inl heof)⟩
    rw [skipTokensInBlock_run, if_pos (.inl heof)]
  · obtain ⟨us, m, s', hrun, hread, hnesting, hclosed, hwhere⟩ :=
      skipTokensInBlock_closes (h.depth.resolve_right heof) hstart
    have hcross := h.append_reads heof hread hnesting
    refine ⟨us, s', hrun, ?_, hread.diagnostics, hwhere⟩
    rcases hclosed with rfl | heof'
    · exact hcross
    · exact hcross.of_eof heof'

/-- Where skipping has come forward or to the end of a block, no token goes besides. -/
theorem skipInBlock_of_moved {depth start : Nat} {s s' : State}
    (hrun : skipTokensInBlock depth start s = .ok () s')
    (hwhere : start < s'.index ∨ s'.current.kind = .eof ∨
      s'.current.kind = .symbol .closeCurly) :
    skipInBlock depth start s = .ok () s' := by
  rw [skipInBlock, bind_of_ok hrun]
  show (if s'.index = start ∧ s'.current.kind ≠ .eof ∧ s'.current.kind ≠ .symbol .closeCurly
    then _ else _ : Parser Unit) s' = _
  rw [if_neg]
  · rfl
  · rintro ⟨hsame, heof, hclose⟩
    rcases hwhere with hlt | h' | h'
    · omega
    · exact heof h'
    · exact hclose h'

theorem skipInBlock_crosses {s₀ s : State} {ts : List Token} {n : Nat}
    (h : Crosses s₀ ts n s) :
    ∃ us s', skipInBlock s₀.depth s₀.index s = .ok () s' ∧ Crosses s₀ (ts ++ us) 0 s' ∧
      s'.diagnostics = s.diagnostics ∧
      (s₀.index < s'.index ∨ s'.current.kind = .eof ∨
        s'.current.kind = .symbol .closeCurly) := by
  have hindex : s₀.index ≤ s.index := by
    rw [h.toPasses.index_eq]
    omega
  obtain ⟨us, s', hrun, hcross, hdiag, hwhere⟩ := skipTokensInBlock_crosses h hindex
  exact ⟨us, s', skipInBlock_of_moved hrun hwhere, hcross, hdiag, hwhere⟩

/-- The diagnostic is about a semicolon that is not there. -/
def lacksSemicolon (d : Diagnostic) : Bool :=
  match d.cause with
  | .missing _ (.symbol .semicolon) _ => true
  | _ => false

theorem recoverStatement_run (d : Diagnostic) (depth start : Nat) (position : Position)
    (s : State) :
    recoverStatement d depth start position s =
      if lacksSemicolon d ∧ start < s.index ∧ s.depth = depth ∧
        beginsStatement s.current.kind then
        .ok (.error (s.spanFrom position)) { s with diagnostics := s.diagnostics.push d }
      else
        (skipInBlock depth start >>= fun _ => spanFrom position >>= fun span =>
          pure (.error span)) { s with diagnostics := s.diagnostics.push d } := by
  show (if lacksSemicolon d ∧ start < s.index ∧ s.depth = depth ∧
    beginsStatement s.current.kind then _ else _ : Parser Stmt) { s with diagnostics := _ } = _
  split <;> rfl

/-- A failed statement is recorded, and the rest of it is skipped.  What is skipped is not
empty, since the statement does not start at a `}` or at the end of the input. -/
theorem recoverStatement_crosses {s₀ s : State} {ts : List Token} {n : Nat} {d : Diagnostic}
    (h : Crosses s₀ ts n s) (hd : Located d ts s) (heof : s₀.current.kind ≠ .eof)
    (hclose : s₀.current.kind ≠ .symbol .closeCurly) :
    ∃ stmt us s', recoverStatement d s₀.depth s₀.index s₀.position s = .ok stmt s' ∧
      Crosses s₀ us 0 s' ∧ us ≠ [] ∧ s'.diagnostics = s.diagnostics.push d := by
  rw [recoverStatement_run]
  have hnoted := h.note hd
  split
  · next hsemi =>
    -- Only the semicolon is missing: the next statement starts here, and nothing is skipped.
    obtain ⟨-, hlt, hdepth, hbegins⟩ := hsemi
    have hproper : s.current.kind ≠ .eof := by
      intro hs
      rw [hs] at hbegins
      exact absurd hbegins (by decide)
    obtain rfl : n = 0 := by
      have := h.depth.resolve_right hproper
      omega
    refine ⟨_, ts, _, rfl, hnoted, ?_, rfl⟩
    rintro rfl
    have := h.toPasses.index_eq
    simp at this
    omega
  · obtain ⟨us, s', hrun, hcross, hdiag, hwhere⟩ := skipInBlock_crosses hnoted
    refine ⟨.error (s'.spanFrom s₀.position), ts ++ us, s', bind_of_ok hrun, hcross, ?_, hdiag⟩
    -- Had nothing been consumed, the block would go on where the statement started.
    intro hnil
    rw [hnil] at hcross
    have hindex := hcross.toPasses.index_eq
    have hsame := hcross.toPasses.current_mem
    rw [List.nil_append, List.mem_singleton] at hsame
    rw [← hsame] at hwhere
    rcases hwhere with hlt | h' | h'
    · simp at hindex
      omega
    · exact heof h'
    · exact hclose h'

/-! ### Statements with blocks -/

section

-- The blocks inside a statement are read by their productions.
variable {inner : Parser Block} (hinner : ∀ s, Works true s inner Block.SpelledBy)

include hinner

theorem works_ifStmtOf (s : State) :
    Works true s (ifStmtOf Grammar.standard inner) Stmt.SpelledBy := by
  refine (works_expect (by decide)).bind fun word ws s₁ h₁ => ?_
  refine meets_expression.works.bind fun condition cs s₂ h₂ => ?_
  refine (hinner s₂).still.bind fun ifBlock bs s₃ h₃ => ?_
  refine works_skipThen (by decide) (fun s => (hinner s).still) fun elseBlock es s₄ h₄ => ?_
  refine works_spanFrom (works_pure ?_)
  rintro helse hif hcondition ⟨rfl, hword⟩
  have hall := h₁.append (h₂.append (h₃.append h₄))
  rw [hall.spanFrom (by simp)]
  simpa [covering_cons] using Stmt.SpelledBy.conditional hword hcondition hif helse

theorem works_whileStmtOf (s : State) :
    Works true s (whileStmtOf Grammar.standard inner) Stmt.SpelledBy := by
  refine (works_expect (by decide)).bind fun word ws s₁ h₁ => ?_
  refine meets_expression.works.bind fun condition cs s₂ h₂ => ?_
  refine (hinner s₂).still.bind fun body bs s₃ h₃ => ?_
  refine works_spanFrom (works_pure ?_)
  rintro hbody hcondition ⟨rfl, hword⟩
  rw [(h₁.append (h₂.append h₃)).spanFrom (by simp)]
  simpa [covering_cons] using Stmt.SpelledBy.whileLoop hword hcondition hbody

theorem works_forStmtOf (s : State) :
    Works true s (forStmtOf Grammar.standard inner) Stmt.SpelledBy := by
  refine (works_expect (by decide)).bind fun word ws s₁ h₁ => ?_
  refine (meets_skip? (by decide)).works.bind fun hasLet ls s₂ h₂ => ?_
  refine meets_identifier.works.bind fun binding ns s₃ h₃ => ?_
  refine (meets_expect (by decide)).works.bind fun inside is s₄ h₄ => ?_
  refine meets_iterable.works.bind fun values vs s₅ h₅ => ?_
  refine (hinner s₅).still.bind fun body bs s₆ h₆ => ?_
  refine works_spanFrom (works_pure ?_)
  rintro hbody hvalues ⟨rfl, hinside⟩ ⟨⟩ hlet ⟨rfl, hword⟩
  have hall := h₁.append (h₂.append (h₃.append (h₄.append (h₅.append h₆))))
  rw [hall.spanFrom (by simp)]
  simpa [covering_cons] using Stmt.SpelledBy.forLoop binding hword hlet hinside hvalues hbody

theorem works_statementOf (s : State) :
    Works true s (statementOf Grammar.standard inner) Stmt.SpelledBy := by
  refine works_kind ?_
  split
  · exact works_unexpected _ _
  · exact meets_returnStmt.works_of_ne_nil fun _ _ h => h.ne_nil
  · exact meets_declarationStmt.works_of_ne_nil fun _ _ h => h.ne_nil
  · exact works_ifStmtOf hinner s
  · exact works_whileStmtOf hinner s
  · exact works_forStmtOf hinner s
  · exact meets_breakStmt.works_of_ne_nil fun _ _ h => h.ne_nil
  · exact meets_continueStmt.works_of_ne_nil fun _ _ h => h.ne_nil
  · exact meets_matchStmt.works_of_ne_nil fun _ _ h => h.ne_nil
  · exact meets_namedStmt.works_of_ne_nil fun _ _ h => h.ne_nil

/-! ### Blocks -/

/-- What a block goes on with after a statement, read or skipped. -/
def withComments (stmt : Stmt) : Parser (List Stmt) := do
  return stmt :: (← takeComments).map Stmt.comment

omit hinner in
theorem blockItemOf_of_ok {g : Grammar} {depth : Nat} {s s' : State} {stmt : Stmt}
    (h : statementOf g inner s = .ok stmt s') :
    blockItemOf g inner depth s = withComments stmt s' := by
  show (attempt (statementOf g inner) >>= _) s = _
  rw [bind_of_ok (attempt_of_ok h)]
  rfl

omit hinner in
theorem blockItemOf_of_error {g : Grammar} {depth : Nat} {s s' : State} {d : Diagnostic}
    (h : statementOf g inner s = .error d s') :
    blockItemOf g inner depth s =
      (recoverStatement d depth s.index s.position >>= withComments) s' := by
  show (attempt (statementOf g inner) >>= _) s = _
  rw [bind_of_ok (attempt_of_error h)]
  rfl

omit hinner in
theorem withComments_run (stmt : Stmt) (s : State) :
    withComments stmt s = .ok (stmt :: s.comments.map Stmt.comment) s.commented :=
  bind_of_ok (takeComments_run s)

/-- In a block something is read or skipped, and the block goes on behind it. -/
theorem blockItem_total {s : State} (heof : s.current.kind ≠ .eof)
    (hclose : s.current.kind ≠ .symbol .closeCurly) :
    ∃ items s' ts, blockItemOf Grammar.standard inner s.depth s = .ok items s' ∧
      Crosses s ts 0 s' ∧ ts ≠ [] ∧ (Quiet s s' → InRange ts) ∧
      (s'.Clean → Each Stmt.ItemBy items ts) := by
  have hstmt := works_statementOf hinner s
  cases hrun : statementOf Grammar.standard inner s with
  | ok stmt s₁ =>
    obtain ⟨ts, hcross, hne, hrange, hspelled⟩ := hstmt.inRange_of_ok hrun
    refine ⟨_, _, ts, (blockItemOf_of_ok hrun).trans (withComments_run stmt s₁),
      hcross.commented, hne rfl, hrange, fun hclean => ?_⟩
    have hcomments : Each Stmt.ItemBy (s₁.comments.map Stmt.comment) [] :=
      .of_nil .comment s₁.comments
    have hall := Each.cons (.statement (hspelled hclean)) hcomments
    rwa [List.append_nil] at hall
  | error d s₁ =>
    obtain ⟨ts, n, hcross, hd⟩ := hstmt.of_error hrun
    obtain ⟨stmt, us, s₂, hrecover, hcross', hne, hdiag⟩ :=
      recoverStatement_crosses hcross hd heof hclose
    have hitem := (blockItemOf_of_error hrun).trans
      ((bind_of_ok hrecover).trans (withComments_run stmt s₂))
    exact ⟨_, _, us, hitem, hcross'.commented, hne,
      fun hquiet => absurd hquiet (hcross.not_quiet hdiag),
      fun hclean => absurd hclean (not_clean_of_push hdiag)⟩

/-- An item of a block can start with a token of this kind. -/
def inBlock (k : Kind) : Bool := k ≠ .symbol .closeCurly && k ≠ .eof && !k.startsDefinition

omit hinner in
theorem inBlock_iff {k : Kind} :
    inBlock k ↔ k ≠ .symbol .closeCurly ∧ ¬ k.endsBlocks := by
  simp [inBlock, Kind.endsBlocks, and_assoc]

/-- The tokens between the braces of a block, up to where its items end. -/
theorem blockItems_total (s : State) :
    ∃ items s' ts, manyWhile inBlock (blockItemOf Grammar.standard inner s.depth) s =
        .ok items s' ∧
      Crosses s ts 0 s' ∧
      (s'.current.kind = .symbol .closeCurly ∨ s'.current.kind.endsBlocks) ∧
      (Quiet s s' → InRange ts) ∧ (s'.Clean → Each Stmt.ItemBy items.flatten ts) := by
  have hproper : ∀ {k : Kind}, inBlock k → k ≠ .eof := by
    rintro k hk rfl
    exact absurd hk (by decide)
  have hitem : ∀ s₁ : State, s₁.depth = s.depth → inBlock s₁.current.kind →
      ∃ items s₂ ts, blockItemOf Grammar.standard inner s.depth s₁ = .ok items s₂ ∧
        (Crosses s₁ ts 0 s₂ ∧ (Quiet s₁ s₂ → InRange ts)) ∧ ts ≠ [] ∧
        (inBlock s₂.current.kind → s₂.depth = s.depth) ∧
        (s₂.Clean → Each Stmt.ItemBy items ts) := by
    intro s₁ hdepth hin
    rw [← hdepth]
    obtain ⟨items, s₂, ts, hrun, hcross, hne, hrange, hitems⟩ :=
      blockItem_total hinner (hproper hin) (inBlock_iff.mp hin).1
    exact ⟨items, s₂, ts, hrun, ⟨hcross, hrange⟩, hne,
      fun hin' => hcross.depth.resolve_right (hproper hin'), hitems⟩
  obtain ⟨items, s', ts, hrun, ⟨hcross, hrange⟩, hstop, hitems⟩ :=
    manyWhile_total (fun s ts s' => Crosses s ts 0 s' ∧ (Quiet s s' → InRange ts))
      (fun s' => s'.depth = s.depth) inBlock (fun h => h.1.toWalks)
      (fun s => ⟨.refl s, fun _ => inRange_nil⟩)
      (fun h h' => ⟨h.1.append h'.1, fun hquiet =>
        (h.2 (h.1.quiet h'.1.toWalks hquiet).1).append (h'.2 (h.1.quiet h'.1.toWalks hquiet).2)⟩)
      hitem s (fun _ => rfl)
  refine ⟨items, s', ts, hrun, hcross, ?_, hrange, fun hclean => (hitems hclean).flatten⟩
  by_contra hneither
  rw [not_or] at hneither
  rw [inBlock_iff.mpr hneither] at hstop
  exact absurd hstop (by simp)

/-- What a block does behind its items: it consumes its closing brace, or records that there
is none and counts the brace that opened it as closed. -/
def closeBlock (start : Position) (depth : Nat) (statements : List Stmt) : Parser Block := do
  match ← attempt (expect Symbol.closeCurly "block") with
  | .ok _ => pure ()
  | .error d =>
    record d
    setDepth (depth - 1)
  return ⟨statements, ← spanFrom start⟩

omit hinner in
theorem closeBlock_run (start : Position) (depth : Nat) (statements : List Stmt) (s : State) :
    closeBlock start depth statements s =
      if s.current.kind = .symbol .closeCurly then
        .ok ⟨statements, s.advance.spanFrom start⟩ s.advance
      else
        .ok ⟨statements, s.spanFrom start⟩
          { s with
            depth := depth - 1
            diagnostics := s.diagnostics.push (s.notFound "block" (.symbol .closeCurly)) } := by
  show (attempt (expect (.symbol .closeCurly) "block") >>= _) s = _
  by_cases hclose : s.current.kind = .symbol .closeCurly
  · have hrun : expect (.symbol .closeCurly) "block" s = .ok s.current s.advance := by
      rw [expect_run, if_pos hclose]
    rw [bind_of_ok (attempt_of_ok hrun), if_pos hclose]
    rfl
  · have hrun : expect (.symbol .closeCurly) "block" s =
        .error (s.notFound "block" (.symbol .closeCurly)) s := by
      rw [expect_run, if_neg hclose]
    rw [bind_of_ok (attempt_of_error hrun), if_neg hclose]
    rfl

omit hinner in
/-- What a block does behind its opening brace. -/
theorem blockOf_run {g : Grammar} {s : State} (hopen : s.current.kind = .symbol .openCurly) :
    blockOf g inner s =
      Outcome.andThen (manyWhile inBlock (blockItemOf g inner (s.depth + 1)) s.advance.commented)
        fun items => closeBlock s.current.span.start (s.depth + 1)
          (s.advance.comments.map Stmt.comment ++ items.flatten) := by
  have hproper : s.current.kind ≠ .eof := by
    rw [hopen]
    simp
  have hbrace : expect (.symbol .openCurly) "block" s = .ok s.current s.advance := by
    rw [expect_run, if_pos hopen]
  have hdepth : s.advance.depth = s.depth + 1 := depth_advance hproper (by rw [hopen]; rfl)
  rw [← hdepth, blockOf, bind_of_ok hbrace]
  show (takeComments >>= _) s.advance = _
  rw [bind_of_ok (takeComments_run s.advance)]
  exact bind_run _ _ _

/-- A block is read up to its closing brace or to a token that ends all blocks. -/
theorem blockOf_total {s : State} (hopen : s.current.kind = .symbol .openCurly) :
    ∃ statements s' ts,
      blockOf Grammar.standard inner s =
        closeBlock s.current.span.start (s.depth + 1) statements s' ∧
      Crosses s.advance.commented ts 0 s' ∧
      (s'.current.kind = .symbol .closeCurly ∨ s'.current.kind.endsBlocks) ∧
      (Quiet s.advance.commented s' → InRange ts) ∧
      (s'.Clean → Each Stmt.ItemBy statements ts) := by
  have hdepth : s.advance.commented.depth = s.depth + 1 :=
    depth_advance (by rw [hopen]; simp) (by rw [hopen]; rfl)
  obtain ⟨items, s', ts, hitems, hcross, hstop, hrange, hspelled⟩ :=
    blockItems_total hinner s.advance.commented
  refine ⟨s.advance.comments.map Stmt.comment ++ items.flatten, s', ts, ?_, hcross, hstop, hrange,
    fun hclean => ?_⟩
  · rw [hdepth] at hitems
    rw [blockOf_run hopen, hitems]
    rfl
  · have hcomments : Each Stmt.ItemBy (s.advance.comments.map Stmt.comment) [] :=
      .of_nil .comment s.advance.comments
    exact hcomments.append (hspelled hclean)

theorem works_blockOf (s : State) :
    Works true s (blockOf Grammar.standard inner) Block.SpelledBy := by
  by_cases hopen : s.current.kind = .symbol .openCurly
  · obtain ⟨statements, s', ts, hrun, hinside, hstop, hrange, hspelled⟩ :=
      blockOf_total hinner hopen
    have hfirst := (Crosses.refl s).step (m := 1) (by rw [hopen]; simp) (by rw [hopen]; rfl)
    have hcross : Crosses s (s.current :: ts) 1 s' := hfirst.commented.append hinside
    have hmark : InRange [s.current] := inRange_of_ne_number (by rw [hopen]; simp)
    rw [closeBlock_run] at hrun
    by_cases hclose : s'.current.kind = .symbol .closeCurly
    · rw [if_pos hclose] at hrun
      have hall := hcross.step (by rw [hclose]; simp) (m := 0) (by rw [hclose]; rfl)
      have hread := reads_advance (show s'.current.kind ≠ .eof by rw [hclose]; simp)
      refine works_ok hrun hall (fun _ => by simp) (fun hquiet => ?_) fun hclean => ?_
      · have hbefore := (hcross.quiet hread.walks hquiet).1
        have hitems := hrange (hfirst.commented.quiet hinside.toWalks hbefore).2
        exact (hmark.append hitems).append (inRange_of_ne_number (by rw [hclose]; simp))
      · rw [hall.spanFrom (by simp)]
        exact .mk hopen (hspelled (hread.walks.clean hclean)) hclose
    · rw [if_neg hclose] at hrun
      -- The block is given up before a token that ends all blocks.
      have hends := hstop.resolve_left hclose
      have hmissing : Located (s'.notFound "block" (.symbol .closeCurly)) (s.current :: ts) s' :=
        located_notFound s' _ _ _
      have hall := (hcross.note hmissing).abandon (Nat.zero_le 1) hends
      exact works_ok hrun hall (fun _ => by simp)
        (fun hquiet => absurd hquiet (hcross.not_quiet rfl))
        fun hclean => absurd hclean (not_clean_push s' _)
  · have hfail : blockOf Grammar.standard inner s =
        .error (s.notFound "block" (.symbol .openCurly)) s :=
      bind_of_error (by rw [expect_run, if_neg hopen])
    exact works_fail hfail (located_notFound s _ _ [])

end

/-- Reading a block crosses a spelling of it, unless something is recorded. -/
theorem works_block (s : State) : Works true s (block Grammar.standard) Block.SpelledBy :=
  works_nest (fun _ hinner => works_blockOf hinner) s

end Parser

end FrontEnd
