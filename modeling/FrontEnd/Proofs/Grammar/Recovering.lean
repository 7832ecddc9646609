/-
A block goes on behind a statement without its semicolon.

The statement fails where its semicolon would be.  Whatever follows it in the block, another
statement or the closing brace, recovery skips no token: the statement is kept as a broken one that
covers the tokens it still has, and the block goes on right behind it.

* `statementOf_reads` — a statement that ends with a semicolon does nothing but read its tokens;
* `recoverStatement_of_follower` — recovery in front of what can follow a statement;
* `Gap.comments_append` — the comments that the missing semicolon had kept from the statement;
* `Ended`, `Stopped` — where the two runs are when the first one has read the statement;
* `blockItemOf_recovers` — the item of the block, on both sides.
-/
import FrontEnd.Proofs.Grammar.Halting
import FrontEnd.Proofs.Parser.Breaking

namespace FrontEnd.Parser

variable {s s' t : State} {x : Stmt} {inner : Parser Block}

/-! ### What can follow a statement -/

theorem beginsStatement_of_follower {k : Kind} (h : k ∈ followers) :
    beginsStatement k ∨ k = .symbol .closeCurly :=
  (by decide : ∀ k ∈ followers, beginsStatement k ∨ k = .symbol .closeCurly) k h

theorem follower_of_statement? {k : Kind} {form : StatementForm}
    (h : Grammar.standard.statement? k = some form) : k ∈ followers := by
  simp only [Grammar.standard] at h
  split at h <;> first | decide | simp at h

/-- A statement starts with a token that can follow another one. -/
theorem follower_of_statementOf {stmt : Stmt}
    (h : statementOf Grammar.standard inner s = .ok stmt t) : s.current.kind ∈ followers := by
  have hgo : ∀ f : Kind → Parser Stmt, (kind >>= f) s = f s.current.kind s := fun _ => rfl
  rw [statementOf, hgo] at h
  cases hstart : Grammar.standard.statement? s.current.kind with
  | none =>
    rw [hstart] at h
    cases h
  | some form => exact follower_of_statement? hstart

/-- In front of what can follow a statement, nothing is skipped for a missing semicolon. -/
theorem recoverStatement_of_follower {d : Diagnostic} {start : Nat} (position : Position)
    (hlacks : lacksSemicolon d) (hstart : start < s.index)
    (hnext : s.current.kind ∈ followers) :
    recoverStatement d s.depth start position s =
      .ok (.error (s.spanFrom position)) { s with diagnostics := s.diagnostics.push d } := by
  rw [recoverStatement_run]
  rcases beginsStatement_of_follower hnext with hbegins | hclose
  · rw [if_pos ⟨hlacks, hstart, rfl, hbegins⟩]
  · -- The closing brace ends the block, and skipping stops before it.
    have hnot : ¬ beginsStatement s.current.kind := by
      rw [hclose]
      decide
    have hskip : skipTokensInBlock s.depth start { s with diagnostics := s.diagnostics.push d } =
        .ok () { s with diagnostics := s.diagnostics.push d } := by
      have hcurrent : State.current { s with diagnostics := s.diagnostics.push d } = s.current := rfl
      rw [skipTokensInBlock_run, hcurrent, hclose, if_neg (by simp), if_neg (by simp),
        if_pos (by simp)]
    rw [if_neg fun h => hnot h.2.2.2, bind_of_ok (skipInBlock_of_moved hskip (.inr (.inr hclose)))]
    rfl

/-! ### Comments -/

/-- Tokens around the semicolon. -/
theorem Gap.offsets (g : Gap x) :
    g.last.span.stop.offset ≤ g.semi.span.start.offset ∧
      g.semi.span.start.offset < g.semi.span.stop.offset ∧
      TokensAt g.semi.span.stop.offset g.behind g.eof.span.start.offset := by
  obtain ⟨_, -, -, -, hstart, hfits, hbehind⟩ := g.arranged.tokens.split
  exact ⟨hstart, hfits.start_lt_stop, hbehind⟩

theorem Gap.stop_le_next (g : Gap x) : g.semi.span.stop.offset ≤ g.next.span.start.offset := by
  obtain ⟨-, -, hbehind⟩ := g.offsets
  obtain ⟨a, as, has⟩ := List.exists_cons_of_ne_nil g.behind_ne_nil
  rw [Gap.next, has, List.headD_cons]
  rw [has] at hbehind
  exact hbehind.1

/-- Without the semicolon, the comments before it come in front of those behind it. -/
theorem Gap.comments_append (g : Gap x) (hs : s.trivia = g.trivia) :
    s.commentsIn g.last.span.stop.offset g.next.span.start.offset =
      g.comments ++ s.commentsIn g.semi.span.stop.offset g.next.span.start.offset := by
  obtain ⟨hlast, hsemi, -⟩ := g.offsets
  have hnext := g.stop_le_next
  have hsorted := g.arranged.trivia_sorted
  rw [State.commentsIn, State.commentsIn, hs, between_eq_filter hsorted,
    between_eq_filter hsorted, filter_startsIn_append hsorted hlast (by omega), List.filterMap_append,
    Gap.comments, between_eq_filter hsorted]
  congr 2
  -- No comment starts inside the semicolon.
  refine List.filter_congr fun y hy => ?_
  have hclear := g.clear y hy
  simp only [Span.startsIn]
  congr 1
  exact decide_eq_decide.mpr ⟨hclear, fun h => by omega⟩

/-! ### The statement -/

/-- A statement that ends with a semicolon has no blocks, so that it is only read. -/
theorem statementOf_reads {stmt : Stmt} (hrun : statementOf Grammar.standard inner s = .ok stmt t)
    (hform : stmt.endsWithSemicolon) : ∃ ts, Reads s ts t ∧ Balanced ts ∧ stmt.SpelledBy ts := by
  have hgo : ∀ f : Kind → Parser Stmt, (kind >>= f) s = f s.current.kind s := fun _ => rfl
  have hread : ∀ {p : Parser Stmt}, Meets [] s p Stmt.SpelledBy → p s = .ok stmt t →
      ∃ ts, Reads s ts t ∧ Balanced ts ∧ stmt.SpelledBy ts := fun h => h.of_ok
  rw [statementOf, hgo] at hrun
  cases hstart : Grammar.standard.statement? s.current.kind with
  | none =>
    rw [hstart] at hrun
    cases hrun
  | some form =>
    rw [hstart] at hrun
    cases form with
    | returning => exact hread meets_returnStmt hrun
    | declaration => exact hread meets_declarationStmt hrun
    | conditional => exact absurd hform (by simp [endsWithSemicolon_ifStmtOf hrun])
    | whileLoop => exact absurd hform (by simp [endsWithSemicolon_whileStmtOf hrun])
    | forLoop => exact absurd hform (by simp [endsWithSemicolon_forStmtOf hrun])
    | breakLoop => exact hread meets_breakStmt hrun
    | continueLoop => exact hread meets_continueStmt hrun
    | matching => exact hread meets_matchStmt hrun
    | named => exact hread meets_namedStmt hrun

/-- Where a statement is read that ends with a semicolon, it is visited. -/
theorem visits_statementOf (hrun : statementOf Grammar.standard inner s = .ok x t)
    (hform : x.endsWithSemicolon) : Visits x false s t := by
  obtain ⟨ts, hread, -, hspelled⟩ := statementOf_reads hrun hform
  obtain ⟨us, semi, rfl, hne, hsemi, htidy, hspan⟩ := hspelled.exists_semicolon hform
  exact ⟨[], us, semi, [], hread.toPasses, htidy, hne, hsemi, hspelled, hspan, .inr ⟨rfl, rfl⟩⟩

theorem Paired.loosen {g : Gap x} (h : Paired (g.comparison true) s s') :
    Paired (g.comparison false) s s' := by
  obtain ⟨us, us', hrest, hrest', halike, hguard, hmoved⟩ := h.rest
  exact ⟨⟨us, us', hrest, hrest', halike, ⟨hguard.shut, hguard.last, hguard.start_le⟩, hmoved⟩,
    h.consumed, h.depth, h.eof, h.eof', h.commentsTaken, h.commentsIn, h.diagnostics⟩

theorem State.Clean.unbroken (h : s.Clean) : s.Unbroken := by
  intro d hd
  rw [State.Clean] at h
  rw [h] at hd
  exact absurd hd (by simp)

/-- The first run has read the statement, from the state `s` on, and stands behind the gap. -/
structure Ended (g : Gap x) (s t : State) : Prop where
  rest : t.rest = g.behind
  reached : t.reached = g.semi.span.stop.offset
  depth : t.depth = s.depth
  current : t.current = g.next
  commentsTaken : t.commentsTaken = s.commentsTaken
  trivia : t.trivia = s.trivia
  eof : t.eof = g.eof
  position : s.position = x.span.start
  start_lt : x.span.start.offset < g.last.span.stop.offset

/-- The second run has failed where the semicolon is missing, in the state `u`. -/
structure Stopped (g : Gap x) (s u : State) : Prop where
  rest : u.rest = g.behind
  consumed : u.consumed = g.last :: g.before.reverse
  index : s.index < u.index
  depth : u.depth = s.depth
  current : u.current = g.next
  eof : u.eof = g.eof
  commentsTaken : u.commentsTaken = s.commentsTaken
  clean : u.Clean

section

variable {g : Gap x} {u : State}

/-- Behind its semicolon, comments have been handed out up to the statement at most. -/
theorem Ended.commentsFrom (h : Ended g s t) (htaken : s.commentsTaken ≤ s.position.offset) :
    t.commentsFrom = g.semi.span.stop.offset := by
  obtain ⟨hlast, hsemi, -⟩ := g.offsets
  have hstart := h.start_lt
  rw [h.position] at htaken
  rw [commentsFrom_eq, h.reached, h.commentsTaken]
  exact Nat.max_eq_left (by omega)

/-- The comments up to the next token are handed out, and the tokens behind them are left. -/
theorem Ended.commentsFrom_commented (h : Ended g s t)
    (htaken : s.commentsTaken ≤ s.position.offset) :
    t.commented.commentsFrom = g.next.span.start.offset ∧
      TokensAt g.next.span.start.offset t.rest g.eof.span.start.offset := by
  constructor
  · rw [State.commentsFrom_commented, h.commentsFrom htaken, State.position, h.current]
    exact Nat.max_eq_right g.stop_le_next
  · obtain ⟨-, -, hahead⟩ := g.offsets
    obtain ⟨a, as, has⟩ := List.exists_cons_of_ne_nil g.behind_ne_nil
    rw [h.rest, Gap.next, has]
    rw [has] at hahead
    exact ⟨Nat.le_refl _, hahead.2⟩

/-- Where the semicolon is missing, comments have been handed out up to the statement at most. -/
theorem Stopped.commentsFrom (h : Stopped g s u) (ht : Ended g s t)
    (htaken : s.commentsTaken ≤ s.position.offset) :
    u.commentsFrom = g.last.span.stop.offset := by
  have hstart := ht.start_lt
  rw [ht.position] at htaken
  have hle : s.commentsTaken ≤ g.last.span.stop.offset := by omega
  rw [State.commentsFrom, h.consumed, h.commentsTaken]
  exact Nat.max_eq_left hle

/-- Recovery ends the statement where it stands. -/
theorem Stopped.recover (h : Stopped g s u) (ht : Ended g s t) {start : Nat}
    (hstart : start = s.index) (production : String) :
    recoverStatement (g.missing production) s.depth start x.span.start u =
      .ok (.error ⟨x.span.start, g.last.span.stop⟩)
        { u with diagnostics := u.diagnostics.push (g.missing production) } := by
  have hspan : u.spanFrom x.span.start = ⟨x.span.start, g.last.span.stop⟩ := by
    have hprevious : u.previousEnd = g.last.span.stop := by rw [State.previousEnd, h.consumed]
    have hlt := ht.start_lt
    rw [State.spanFrom, hprevious, if_neg (by omega)]
  have hfollower : u.current.kind ∈ followers := by
    rw [h.current]
    exact g.next_mem
  rw [← h.depth, ← hspan]
  exact recoverStatement_of_follower x.span.start rfl (hstart ▸ h.index) hfollower

/-- The comments before the semicolon are handed out with those behind it. -/
theorem Stopped.comments (h : Stopped g s u) (ht : Ended g s t) (hs : s.trivia = g.trivia)
    (htaken : s.commentsTaken ≤ s.position.offset)
    (hsame : ∀ first last, u.commentsIn first last = t.commentsIn first last) :
    u.comments = g.comments ++ t.comments := by
  show u.commentsIn u.commentsFrom u.position.offset =
    _ ++ t.commentsIn t.commentsFrom t.position.offset
  rw [hsame, h.commentsFrom ht htaken, ht.commentsFrom htaken, State.position, State.position,
    h.current, ht.current]
  exact g.comments_append (ht.trivia.trans hs)

/-- Both runs go on in front of the next token. -/
theorem Stopped.resumed (h : Stopped g s u) (ht : Ended g s t)
    (htaken : s.commentsTaken ≤ s.position.offset) (hclean : t.Clean)
    (hsame : ∀ first last, u.commentsIn first last = t.commentsIn first last)
    (d : Diagnostic) :
    Resumed d false t.commented
      (State.commented { u with diagnostics := u.diagnostics.push d }) := by
  obtain ⟨hbehind, hleft⟩ := ht.commentsFrom_commented htaken
  refine resumed_of_same hclean ?_ (h.rest.trans ht.rest.symm) (h.depth.trans ht.depth.symm)
    (h.eof.trans ht.eof.symm) ?_ (hbehind ▸ hleft) hsame
  · show u.diagnostics.reported ++ [_] = _
    rw [h.clean, List.nil_append]
  · obtain ⟨hlast, hsemi, -⟩ := g.offsets
    have hnext := g.stop_le_next
    rw [hbehind, State.commentsFrom_commented]
    show max u.commentsFrom u.position.offset = _
    rw [h.commentsFrom ht htaken, State.position, h.current]
    exact Nat.max_eq_right (by omega)

end

section

variable {g : Gap x} (hs : Facing g s s') (hform : x.endsWithSemicolon)

include hs hform

/-- With its semicolon the statement ends behind the gap. -/
theorem statementOf_ended (hrun : statementOf Grammar.standard inner s = .ok x t) :
    Ended g s t := by
  obtain ⟨ts, hread, hbalanced, hspelled⟩ := statementOf_reads hrun hform
  obtain ⟨us, semi, rfl, hne, hsemi, -, hspan⟩ := hspelled.exists_semicolon hform
  obtain ⟨hbefore, hbehind⟩ := @Gap.split _ _ _ g hs.place [] us [] semi hread.toPasses hspan
  rw [List.nil_append] at hbefore hbehind
  have heof : t.eof = g.eof := hread.eof.trans hs.paired.eof
  have hrow := hs.place.tokensAt_position hread.toPasses (by simp)
  obtain ⟨vs, b, rfl⟩ := List.eq_nil_or_concat us |>.resolve_left hne
  rw [List.concat_eq_append] at hbefore hrow hspan hread hbalanced
  obtain rfl : b = g.last := by
    rw [← List.append_assoc] at hbefore
    simpa using (List.append_inj' hbefore rfl).2
  have hstart : x.span.start = (covering (vs ++ [g.last])).start := by
    rw [hspan, covering_append_start (by simp)]
  refine ⟨hbehind, ?_, ?_, ?_, hread.commentsTaken, hread.trivia, heof, ?_, ?_⟩
  · rw [g.stop_eq, hspan, covering_concat hrow, State.reached, hread.consumed]
    simp
  · exact hread.depth _ (hbalanced.nesting_eq s.depth)
  · rw [current_eq_headD, hbehind, heof]
    rfl
  · rw [hstart, State.position]
    cases vs with
    | nil => rw [current_of_rest hread.rest, List.nil_append, covering_cons, spanning_start]
    | cons a vs =>
      rw [current_of_rest hread.rest, List.cons_append, covering_cons, spanning_start]
  · -- The last token of the statement does not end before the first one starts.
    obtain ⟨_, hfront, -⟩ := hrow.split
    have hlt := hfront.covering_lt (by simp)
    rwa [covering_concat hfront, ← hstart] at hlt

/-- Without its semicolon the statement fails in front of the gap. -/
theorem statementOf_stopped (hrun : statementOf Grammar.standard inner s = .ok x t)
    (hclean : t.Clean) :
    ∃ production u, statementOf Grammar.standard inner s' =
        .error (u.notFound production (.symbol .semicolon)) u ∧ Stopped g s u := by
  have hended := statementOf_ended hs hform hrun
  obtain ⟨ts, hread, -, hspelled⟩ := statementOf_reads hrun hform
  obtain ⟨production, u, u', hrun', hu, hrest, rfl⟩ :=
    show Halts (g.comparison false) x t (statementOf Grammar.standard inner s') from
      statementOf_halts (g.not_exact false) hs.paired.loosen hrun hform hclean.unbroken
        ⟨rfl, by rw [hended.rest]; rfl⟩
  have hrest : u.rest = g.semi :: g.behind := hrest
  have hcurrent := current_of_rest hrest
  have hproper : u.current.kind ≠ .eof := by
    rw [hcurrent, g.semi_kind]
    simp
  have hstep := reads_advance hproper
  have hstand := hu.of_not_before (by
    rw [Comparison.Before, hrest]
    exact Nat.lt_irrefl _)
  have hplace : u.advance.InPlace g.tokens := hs.place.passes hread.toPasses
  -- All tokens before the semicolon are consumed.
  have hconsumed : u.consumed = g.last :: g.before.reverse := by
    have hall := hplace.all
    rw [hstep.consumed, hended.rest, hcurrent] at hall
    have hfront : u.consumed.reverse ++ g.semi :: g.behind =
        (g.before ++ [g.last]) ++ g.semi :: g.behind := by
      simpa [Gap.tokens] using hall
    simpa using congrArg List.reverse (List.append_cancel_right hfront)
  refine ⟨production, u', hrun', hstand.2.1, (hu.consumed.same rfl).symm.trans hconsumed, ?_, ?_,
    hstand.2.2.2, hu.eof', ?_, ?_⟩
  · have hindex := hread.toPasses.index_eq
    have hindex' := index_advance hproper
    obtain ⟨us, semi, rfl, hne, -⟩ := hspelled.exists_semicolon hform
    have hpos := List.length_pos_iff.mpr hne
    rw [List.length_append, List.length_singleton] at hindex
    have hsame := hu.index
    omega
  · rw [hu.depth, ← hended.depth]
    exact (depth_advance hproper (by rw [hcurrent, g.semi_kind]; rfl)).symm
  · rw [hu.commentsTaken rfl, ← hread.commentsTaken, hstep.commentsTaken]
  · rw [State.Clean, ← hu.diagnostics.same rfl, ← hstep.diagnostics]
    exact hclean

/-- The item of a block that is the statement, on both sides. -/
theorem blockItemOf_recovers (hinner : ∀ s, Works true s inner Block.SpelledBy)
    (hrun : statementOf Grammar.standard inner s = .ok x t) (hclean : t.Clean) :
    ∃ production t', blockItemOf Grammar.standard inner s.depth s' =
        .ok (g.instead ++ t.comments.map Stmt.comment) t' ∧
      Resumed (g.missing production) false t.commented t' := by
  have ht := statementOf_ended hs hform hrun
  obtain ⟨production, u, hrun', hu⟩ := statementOf_stopped hs hform hrun hclean
  have hposition : s'.position = x.span.start := by
    have hcompared := ((visits_statementOf hrun hform).compared g hs.place).1
    rw [(hs.paired.position (g.sure.started hcompared) rfl).1, ht.position]
  have hmissing : u.notFound production (.symbol .semicolon) = g.missing production := by
    show State.notFound.missing u production .semicolon = _
    rw [State.notFound.missing, hu.current]
    rfl
  have hsame : ∀ first last, u.commentsIn first last = t.commentsIn first last := by
    intro first last
    obtain ⟨ts, n, hcross, -⟩ := (works_statementOf hinner s').of_error hrun'
    have hsame := hs.comments first last
    rwa [State.commentsIn, State.commentsIn, ← hcross.trivia, ← ht.trivia] at hsame
  have hrecover := hu.recover ht hs.paired.index production
  have hcomments := hu.comments ht hs.trivia hs.taken hsame
  refine ⟨production,
    State.commented { u with diagnostics := u.diagnostics.push (g.missing production) }, ?_,
    hu.resumed ht hs.taken hclean hsame _⟩
  rw [blockItemOf_of_error hrun', hmissing, hposition, bind_of_ok hrecover, withComments_run]
  show EStateM.Result.ok (_ :: u.comments.map Stmt.comment) _ = _
  rw [hcomments, List.map_append]
  rfl

end

end FrontEnd.Parser
