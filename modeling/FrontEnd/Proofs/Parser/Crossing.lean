/-
Parsers that also record.

Statements and definitions record diagnostics, hand out comments and give up on blocks that
do not close.  What lies between two states is then more than tokens:

* `Walks` — tokens are consumed, and the diagnostics recorded meanwhile start with them or
  with the next one;
* `Crosses` — besides, no brace closes that was not opened, and the number of open braces
  is kept right, unless the end of the input or the start of a definition has come;
* `Works` — what a parser makes of the tokens it crosses, for as long as nothing is recorded.
  Until then no integer literal out of range is among them, unless the parser fails with it.

A block gives up only before a token that ends all blocks (`Kind.endsBlocks`).  Where none of
these is near, braces are therefore counted exactly.
-/
import FrontEnd.Proofs.Parser.Reading

namespace FrontEnd

/-- Every block ends before a token of this kind: the end of the input, or the start of a
definition. -/
def Kind.endsBlocks (k : Kind) : Bool := k == .eof || k.startsDefinition

namespace Parser

variable {α β : Type}

/-! ### Diagnostics along the way -/

/-- The next token is the first of those that are passed, or the next one behind them. -/
theorem Passes.infix_extend {s s' : State} {us : List Token} (h : Passes s us s')
    (ts : List Token) : ts ++ [s.current] <:+: ts ++ us ++ [s'.current] := by
  rw [List.append_assoc]
  refine ((List.prefix_append_right_inj ts).mpr ?_).isInfix
  cases us with
  | nil =>
    have hsame : s.current = s'.current := by
      rw [State.current, State.current, State.peek, State.peek, h.rest, h.eof]
      rfl
    rw [hsame]
    exact List.prefix_refl _
  | cons u us =>
    rw [current_of_rest h.rest, List.cons_append]
    exact List.cons_prefix_cons.mpr ⟨rfl, List.nil_prefix⟩

theorem Passes.mem_extend {s s' : State} {ts us : List Token} (h : Passes s us s') {t : Token}
    (ht : t ∈ ts ++ [s.current]) : t ∈ ts ++ us ++ [s'.current] :=
  (h.infix_extend ts).subset ht

theorem Located.extend {s s' : State} {ts us : List Token} {d : Diagnostic}
    (hd : Located d ts s) (h : Passes s us s') : Located d (ts ++ us) s' :=
  hd.mono (h.infix_extend ts)

/-- Nothing has been recorded. -/
def State.Clean (s : State) : Prop := s.diagnostics.reported = []

/-- The tokens `ts` lie between the two states.  What was recorded between them is about
these tokens or the next one, and comments were handed out up to one of them, if at all. -/
structure Walks (s : State) (ts : List Token) (s' : State) : Prop extends Passes s ts s' where
  commentsTaken : s'.commentsTaken = s.commentsTaken ∨
    ∃ t ∈ ts ++ [s'.current], s'.commentsTaken = t.span.start.offset
  diagnostics : ∃ ds, s'.diagnostics.reported = s.diagnostics.reported ++ ds ∧
    ∀ d ∈ ds, Located d ts s'

theorem Walks.refl (s : State) : Walks s [] s := ⟨.refl s, .inl rfl, [], by simp, by simp⟩

theorem Walks.append {s s' s'' : State} {ts us : List Token} (h : Walks s ts s')
    (h' : Walks s' us s'') : Walks s (ts ++ us) s'' := by
  obtain ⟨ds, hds, hlocated⟩ := h.diagnostics
  obtain ⟨es, hes, hlocated'⟩ := h'.diagnostics
  refine ⟨h.toPasses.append h'.toPasses, ?_, ds ++ es, by simp [hes, hds], ?_⟩
  · rcases h'.commentsTaken with hsame | ⟨t, ht, hlater⟩
    · rw [hsame]
      refine h.commentsTaken.imp_right ?_
      rintro ⟨t, ht, hearlier⟩
      exact ⟨t, h'.toPasses.mem_extend ht, hearlier⟩
    · refine .inr ⟨t, ?_, hlater⟩
      rw [List.append_assoc]
      exact List.mem_append_right ts ht
  · intro d hd
    rcases List.mem_append.mp hd with hd | hd
    · exact (hlocated d hd).extend h'.toPasses
    · exact (hlocated' d hd).append ts

/-- Nothing has been recorded before a place where nothing has been recorded. -/
theorem Walks.clean {s s' : State} {ts : List Token} (h : Walks s ts s') (hclean : s'.Clean) :
    s.Clean := by
  obtain ⟨ds, hds, -⟩ := h.diagnostics
  unfold State.Clean at hclean ⊢
  rw [hds] at hclean
  exact (List.append_eq_nil_iff.mp hclean).1

theorem Reads.walks {s s' : State} {ts : List Token} (h : Reads s ts s') : Walks s ts s' :=
  ⟨h.toPasses, .inl h.commentsTaken, [], by simp [h.diagnostics], by simp⟩

/-- Nothing has been recorded between the two states. -/
def Quiet (s s' : State) : Prop := s'.diagnostics.reported = s.diagnostics.reported

theorem Reads.quiet {s s' : State} {ts : List Token} (h : Reads s ts s') : Quiet s s' := by
  rw [Quiet, h.diagnostics]

/-- Where nothing has been recorded, nothing has been up to any place in between or from it on. -/
theorem Walks.quiet {s s' s'' : State} {ts us : List Token} (h : Walks s ts s')
    (h' : Walks s' us s'') (hquiet : Quiet s s'') : Quiet s s' ∧ Quiet s' s'' := by
  obtain ⟨ds, hds, -⟩ := h.diagnostics
  obtain ⟨es, hes, -⟩ := h'.diagnostics
  obtain ⟨rfl, rfl⟩ : ds = [] ∧ es = [] := by simpa [Quiet, hes, hds] using hquiet
  simp [Quiet, hds, hes]

/-- Recording a diagnostic about what was walked. -/
theorem Walks.note {s s' : State} {ts : List Token} {d : Diagnostic} (h : Walks s ts s')
    (hd : Located d ts s') : Walks s ts { s' with diagnostics := s'.diagnostics.push d } := by
  obtain ⟨ds, hds, hlocated⟩ := h.diagnostics
  refine ⟨h.toPasses.aside, h.commentsTaken, ds ++ [d], ?_, ?_⟩
  · show s'.diagnostics.reported ++ [d] = _
    rw [hds, List.append_assoc]
  · intro e he
    rcases List.mem_append.mp he with he | he
    · exact hlocated e he
    · rw [List.mem_singleton.mp he]
      exact hd

theorem not_clean_of_push {s s' : State} {d : Diagnostic}
    (hd : s'.diagnostics = s.diagnostics.push d) : ¬ s'.Clean := by
  simp [State.Clean, hd, Diagnostics.push]

theorem not_clean_push (s : State) (d : Diagnostic) :
    ¬ State.Clean { s with diagnostics := s.diagnostics.push d } := not_clean_of_push rfl

/-- A state behind which something has been recorded. -/
theorem Walks.not_quiet {s s' s'' : State} {ts : List Token} {d : Diagnostic} (h : Walks s ts s')
    (hd : s''.diagnostics = s'.diagnostics.push d) : ¬ Quiet s s'' := by
  obtain ⟨ds, hds, -⟩ := h.diagnostics
  simp [Quiet, hd, Diagnostics.push, hds]

/-- Handing out comments. -/
theorem Walks.commented {s s' : State} {ts : List Token} (h : Walks s ts s') :
    Walks s ts s'.commented := by
  refine ⟨h.toPasses.aside, ?_, h.diagnostics⟩
  have hcurrent : s'.commented.current = s'.current := rfl
  rw [hcurrent]
  unfold State.commented
  dsimp only
  split
  · exact .inr ⟨s'.current, by simp, rfl⟩
  · exact h.commentsTaken

/-- Changing how many braces are open. -/
theorem Walks.setDepth {s s' : State} {ts : List Token} (h : Walks s ts s') (depth : Nat) :
    Walks s ts { s' with depth } :=
  ⟨h.toPasses.aside, h.commentsTaken, h.diagnostics⟩

/-- How many braces were open before does not matter to a walk. -/
theorem Walks.of_depth {s s' : State} {ts : List Token} {depth : Nat}
    (h : Walks { s with depth } ts s') : Walks s ts s' :=
  ⟨h.toPasses.of_aside, h.commentsTaken, h.diagnostics⟩

/-- Behind a token comments are handed out from where it ends on, if they were not handed out
farther before. -/
theorem Walks.commentsFrom_advance {s s' : State} {ts : List Token} (h : Walks s ts s')
    (hproper : s'.current.kind ≠ .eof)
    (hbefore : ∀ t ∈ ts ++ [s'.current], t.span.start.offset ≤ s'.current.span.stop.offset)
    (htaken : s.commentsTaken ≤ s'.current.span.stop.offset) :
    s'.advance.commentsFrom = s'.current.span.stop.offset := by
  have hle : s'.commentsTaken ≤ s'.current.span.stop.offset := by
    rcases h.commentsTaken with hsame | ⟨t, ht, hlater⟩
    · rwa [hsame]
    · rw [hlater]
      exact hbefore t ht
  unfold State.commentsFrom
  rw [(passes_advance hproper).consumed, (reads_advance hproper).commentsTaken]
  exact Nat.max_eq_left hle

/-! ### Braces along the way -/

/-- The tokens `ts` lie between the two states, and behind them `n` braces more are open
than before. -/
structure Crosses (s : State) (ts : List Token) (n : Nat) (s' : State) : Prop
    extends Walks s ts s' where
  depth : s'.depth = s.depth + n ∨ s'.current.kind = .eof
  braces : ∃ m, nesting 0 ts = some m ∧ n ≤ m ∧
    (m = n ∨ ∃ t ∈ ts ++ [s'.current], t.kind.endsBlocks)

theorem Crosses.refl (s : State) : Crosses s [] 0 s :=
  ⟨.refl s, .inl rfl, 0, rfl, Nat.le_refl 0, .inl rfl⟩

/-- Nothing is consumed at the end of the input. -/
theorem Passes.current_of_eof {s s' : State} {ts : List Token} (h : Passes s ts s')
    (heof : s.current.kind = .eof) : s'.current.kind = .eof := by
  cases ts with
  | nil =>
    have hmem := h.current_mem
    rw [List.nil_append, List.mem_singleton] at hmem
    rwa [hmem] at heof
  | cons t ts =>
    rw [current_of_rest h.rest] at heof
    exact absurd heof (h.proper t (by simp))

theorem Crosses.append {s s' s'' : State} {ts us : List Token} {n m : Nat}
    (h : Crosses s ts n s') (h' : Crosses s' us m s'') : Crosses s (ts ++ us) (n + m) s'' := by
  refine ⟨h.toWalks.append h'.toWalks, ?_, ?_⟩
  · rcases h.depth with hdepth | heof
    · rcases h'.depth with hdepth' | heof
      · exact .inl (by omega)
      · exact .inr heof
    · exact .inr (h'.toPasses.current_of_eof heof)
  · obtain ⟨k, hk, hle, hexact⟩ := h.braces
    obtain ⟨l, hl, hle', hexact'⟩ := h'.braces
    refine ⟨k + l, ?_, by omega, ?_⟩
    · -- The tokens of the second part are counted on top of what the first leaves open.
      rw [nesting_append, hk]
      exact nesting_add hl k
    · rcases hexact with rfl | ⟨t, ht, hends⟩
      · rcases hexact' with rfl | ⟨t, ht, hends⟩
        · exact .inl rfl
        · exact .inr ⟨t, by rw [List.append_assoc]; exact List.mem_append_right _ ht, hends⟩
      · exact .inr ⟨t, h'.toPasses.mem_extend ht, hends⟩

theorem Reads.crosses {s s' : State} {ts : List Token} {n : Nat} (h : Reads s ts s')
    (hn : nesting 0 ts = some n) : Crosses s ts n s' :=
  ⟨h.walks, .inl (h.depth _ (nesting_add hn s.depth)), n, hn, Nat.le_refl n, .inl rfl⟩

/-- More tokens, which may close some of the braces that are open. -/
theorem Crosses.append_reads {s s' s'' : State} {ts us : List Token} {n m : Nat}
    (h : Crosses s ts n s') (hcurrent : s'.current.kind ≠ .eof) (hread : Reads s' us s'')
    (hm : nesting n us = some m) : Crosses s (ts ++ us) m s'' := by
  have hdepth : s'.depth = s.depth + n := h.depth.resolve_right hcurrent
  refine ⟨h.toWalks.append hread.walks, .inl ?_, ?_⟩
  · refine hread.depth _ ?_
    rw [hdepth]
    exact nesting_add hm s.depth
  · obtain ⟨k, hk, hle, hexact⟩ := h.braces
    -- The braces that were given up are open before the tokens and behind them.
    have hk' : nesting k us = some (k - n + m) := by
      have := nesting_add hm (k - n)
      rwa [Nat.sub_add_cancel hle] at this
    refine ⟨k - n + m, ?_, by omega, ?_⟩
    · rw [nesting_append, hk]
      exact hk'
    · rcases hexact with rfl | ⟨t, ht, hends⟩
      · exact .inl (by omega)
      · exact .inr ⟨t, hread.toPasses.mem_extend ht, hends⟩

/-- One more token. -/
theorem Crosses.step {s s' : State} {ts : List Token} {n m : Nat} (h : Crosses s ts n s')
    (hcurrent : s'.current.kind ≠ .eof) (hm : s'.current.kind.nests? n = some m) :
    Crosses s (ts ++ [s'.current]) m s'.advance := by
  refine h.append_reads hcurrent (reads_advance hcurrent) ?_
  rw [nesting, hm]
  rfl

theorem Crosses.note {s s' : State} {ts : List Token} {n : Nat} {d : Diagnostic}
    (h : Crosses s ts n s') (hd : Located d ts s') :
    Crosses s ts n { s' with diagnostics := s'.diagnostics.push d } :=
  ⟨h.toWalks.note hd, h.depth, h.braces⟩

theorem Crosses.commented {s s' : State} {ts : List Token} {n : Nat} (h : Crosses s ts n s') :
    Crosses s ts n s'.commented :=
  ⟨h.toWalks.commented, h.depth, h.braces⟩

/-- Giving up on braces that are open before a token that ends all blocks. -/
theorem Crosses.abandon {s s' : State} {ts : List Token} {n m : Nat} (h : Crosses s ts n s')
    (hm : m ≤ n) (hends : s'.current.kind.endsBlocks) :
    Crosses s ts m { s' with depth := s.depth + m } := by
  -- The braces stay open in the tokens; only the count that the parser keeps is set back.
  obtain ⟨k, hk, hle, -⟩ := h.braces
  exact ⟨h.toWalks.setDepth (s.depth + m), .inl rfl, k, hk, by omega,
    .inr ⟨s'.current, List.mem_append_right _ (List.mem_singleton.mpr rfl), hends⟩⟩

/-- At the end of the input no brace counts as open. -/
theorem Crosses.of_eof {s s' : State} {ts : List Token} {n : Nat} (h : Crosses s ts n s')
    (heof : s'.current.kind = .eof) : Crosses s ts 0 s' := by
  obtain ⟨k, hk, -, -⟩ := h.braces
  exact ⟨h.toWalks, .inr heof, k, hk, by omega,
    .inr ⟨s'.current, by simp, by simp [heof, Kind.endsBlocks]⟩⟩

/-! ### What a parser makes of the tokens it crosses -/

/-- Run on `s`, the parser crosses tokens: if it succeeds, as many braces are open as
before, and if nothing was recorded, its value satisfies `V` with the tokens; if it fails,
it does so at a token it has crossed or at the next one.  A parser that `moves` crosses at
least one token if it succeeds.  As long as it records nothing, an integer literal out of range
makes it fail at once. -/
def Works (moves : Bool) (s : State) (p : Parser α) (V : α → List Token → Prop) : Prop :=
  match p s with
  | .ok a s' => ∃ ts, Crosses s ts 0 s' ∧ (moves → ts ≠ []) ∧ (Quiet s s' → InRange ts) ∧
      (s'.Clean → V a ts)
  | .error d s' => ∃ ts n, Crosses s ts n s' ∧ (Quiet s s' → Heeds ts d) ∧ Located d ts s'

section

variable {moves : Bool} {s : State} {p : Parser α} {f : α → Parser β}
  {A : α → List Token → Prop} {B : β → List Token → Prop}

theorem Works.inRange_of_ok (h : Works moves s p A) {a : α} {s' : State} (hp : p s = .ok a s') :
    ∃ ts, Crosses s ts 0 s' ∧ (moves → ts ≠ []) ∧ (Quiet s s' → InRange ts) ∧
      (s'.Clean → A a ts) := by
  unfold Works at h
  rwa [hp] at h

theorem Works.of_ok (h : Works moves s p A) {a : α} {s' : State} (hp : p s = .ok a s') :
    ∃ ts, Crosses s ts 0 s' ∧ (moves → ts ≠ []) ∧ (s'.Clean → A a ts) := by
  obtain ⟨ts, hcross, hmoves, -, ha⟩ := h.inRange_of_ok hp
  exact ⟨ts, hcross, hmoves, ha⟩

theorem Works.heeds_of_error (h : Works moves s p A) {d : Diagnostic} {s' : State}
    (hp : p s = .error d s') :
    ∃ ts n, Crosses s ts n s' ∧ (Quiet s s' → Heeds ts d) ∧ Located d ts s' := by
  unfold Works at h
  rwa [hp] at h

theorem Works.of_error (h : Works moves s p A) {d : Diagnostic} {s' : State}
    (hp : p s = .error d s') : ∃ ts n, Crosses s ts n s' ∧ Located d ts s' := by
  obtain ⟨ts, n, hcross, -, hd⟩ := h.heeds_of_error hp
  exact ⟨ts, n, hcross, hd⟩

theorem works_ok {a : α} {s' : State} {ts : List Token} (hp : p s = .ok a s')
    (hcross : Crosses s ts 0 s') (hmoves : moves → ts ≠ []) (hrange : Quiet s s' → InRange ts)
    (ha : s'.Clean → A a ts) : Works moves s p A := by
  unfold Works
  rw [hp]
  exact ⟨ts, hcross, hmoves, hrange, ha⟩

theorem works_error {d : Diagnostic} {s' : State} {ts : List Token} {n : Nat}
    (hp : p s = .error d s') (hcross : Crosses s ts n s') (hheeds : Quiet s s' → Heeds ts d)
    (hd : Located d ts s') : Works moves s p A := by
  unfold Works
  rw [hp]
  exact ⟨ts, n, hcross, hheeds, hd⟩

/-- A parser that fails where it stands. -/
theorem works_fail {d : Diagnostic} (hp : p s = .error d s) (hd : Located d [] s) :
    Works moves s p A := works_error hp (.refl s) (fun _ => inRange_nil.heeds d) hd

theorem Works.congr {q : Parser α} (h : p s = q s) (hq : Works moves s q A) :
    Works moves s p A := by
  unfold Works at hq ⊢
  rwa [h]

/-- A parser that only reads; it moves if what it reads is not empty. -/
theorem Meets.works_if (h : Meets [] s p A) (hne : moves → ∀ a ts, A a ts → ts ≠ []) :
    Works moves s p A := by
  cases hrun : p s with
  | ok a s' =>
    obtain ⟨ts, hread, hbal, hrange, ha⟩ := h.inRange_of_ok hrun
    exact works_ok hrun (hread.crosses hbal) (fun hm => hne hm a ts ha) (fun _ => hrange)
      fun _ => ha
  | error d s' =>
    obtain ⟨ts, hread, ⟨n, hn⟩, hheeds, hd⟩ := h.heeds_of_error hrun
    exact works_error hrun (hread.crosses hn) (fun _ => hheeds) hd

theorem Meets.works_of_ne_nil (h : Meets [] s p A) (hne : ∀ a ts, A a ts → ts ≠ []) :
    Works true s p A := h.works_if fun _ => hne

theorem Meets.works (h : Meets [] s p A) : Works false s p A :=
  h.works_if fun hm => absurd hm (by simp)

/-- One parser after another; the whole moves if the first does. -/
theorem Works.bind (hp : Works moves s p A)
    (hf : ∀ a ts s', Crosses s ts 0 s' →
      Works false s' (f a) fun b us => A a ts → B b (ts ++ us)) :
    Works moves s (p >>= f) B := by
  cases hrun : p s with
  | error d s' =>
    obtain ⟨ts, n, hcross, hheeds, hd⟩ := hp.heeds_of_error hrun
    exact works_error (bind_of_error hrun) hcross hheeds hd
  | ok a s' =>
    obtain ⟨ts, hcross, hmoves, hrange, ha⟩ := hp.inRange_of_ok hrun
    have hrest := hf a ts s' hcross
    cases hrun' : f a s' with
    | ok b s'' =>
      obtain ⟨us, hcross', -, hrange', hb⟩ := hrest.inRange_of_ok hrun'
      refine works_ok ((bind_of_ok hrun).trans hrun') (hcross.append hcross') ?_ (fun hquiet => ?_)
        fun hclean => ?_
      · intro hm hnil
        exact hmoves hm (List.append_eq_nil_iff.mp hnil).1
      · obtain ⟨hfirst, hlast⟩ := hcross.quiet hcross'.toWalks hquiet
        exact (hrange hfirst).append (hrange' hlast)
      · -- Nothing is ever taken back, so a clean end means a clean state in between.
        exact hb hclean (ha (hcross'.clean hclean))
    | error d s'' =>
      obtain ⟨us, n, hcross', hheeds, hd⟩ := hrest.heeds_of_error hrun'
      refine works_error ((bind_of_ok hrun).trans hrun') (hcross.append hcross') (fun hquiet => ?_)
        (hd.append ts)
      obtain ⟨hfirst, hlast⟩ := hcross.quiet hcross'.toWalks hquiet
      exact (hheeds hlast).append (hrange hfirst)

theorem Works.mono {A' : α → List Token → Prop} (hp : Works moves s p A)
    (h : ∀ a ts, A a ts → A' a ts) : Works moves s p A' := by
  cases hrun : p s with
  | ok a s' =>
    obtain ⟨ts, hcross, hmoves, hrange, ha⟩ := hp.inRange_of_ok hrun
    exact works_ok hrun hcross hmoves hrange fun hclean => h a ts (ha hclean)
  | error d s' =>
    obtain ⟨ts, n, hcross, hheeds, hd⟩ := hp.heeds_of_error hrun
    exact works_error hrun hcross hheeds hd

/-- That a parser moves may be forgotten. -/
theorem Works.still (hp : Works true s p A) : Works false s p A := by
  cases hrun : p s with
  | ok a s' =>
    obtain ⟨ts, hcross, -, hrange, ha⟩ := hp.inRange_of_ok hrun
    exact works_ok hrun hcross (fun h => absurd h (by simp)) hrange ha
  | error d s' =>
    obtain ⟨ts, n, hcross, hheeds, hd⟩ := hp.heeds_of_error hrun
    exact works_error hrun hcross hheeds hd

theorem works_pure {a : α} (h : A a []) : Works false s (pure a) A :=
  works_ok rfl (.refl s) (fun h => absurd h (by simp)) (fun _ => inRange_nil) fun _ => h

theorem works_unexpected (production : String) (expected : List Kind) :
    Works moves s (unexpected production expected : Parser α) A :=
  works_fail rfl (located_unexpected s production expected [])

/-- A token that is no brace is consumed. -/
theorem works_expect {expected : Kind} {production : String}
    (hk : expected.isPlain) :
    Works true s (expect expected production) fun t ts => ts = [t] ∧ t.kind = expected :=
  (meets_expect hk).works_of_ne_nil fun t ts h => by simp [h.1]

theorem works_kind {f : Kind → Parser β} (h : Works moves s (f s.current.kind) B) :
    Works moves s (kind >>= f) B := h

theorem works_spanFrom {start : Position} {f : Span → Parser β}
    (h : Works moves s (f (s.spanFrom start)) B) : Works moves s (spanFrom start >>= f) B := h

/-- A recursive call does what it does, or nothing if it is made without progress. -/
theorem works_guarded {n : Nat} (h : s.rest.length < n → Works moves s p A) :
    Works moves s (guarded n p) A := by
  by_cases hlt : s.rest.length < n
  · exact Works.congr (if_pos hlt) (h hlt)
  · exact works_fail (if_neg hlt) (located_unexpected s _ _ [])

theorem Works.map {g : α → β} (hp : Works moves s p A) (h : ∀ a ts, A a ts → B (g a) ts) :
    Works moves s (g <$> p) B := by
  refine Works.congr (map_run g p s) (hp.bind fun a ts s' _ => works_pure fun ha => ?_)
  simpa using h a ts ha

/-- Something behind a mark, if the mark is next, and what comes after it. -/
theorem works_skipThen {k : Kind} {f : Option α → Parser β}
    (hk : k.isPlain) (hp : ∀ s, Works false s p A)
    (hf : ∀ o ts s', Crosses s ts 0 s' →
      Works false s' (f o) fun b us => Perhaps (Behind k A) o ts → B b (ts ++ us)) :
    Works false s (skip? k >>= fun found =>
      if found then (some <$> p) >>= f else pure none >>= f) B := by
  refine (meets_skip? hk).works.bind fun found ts s₁ h₁ => ?_
  cases found with
  | false =>
    refine (hf none ts s₁ h₁).mono fun b us hb hskip => hb ?_
    cases hskip
    exact .none
  | true =>
    have hsome : Works false s₁ (some <$> p) fun o us => ∃ a, o = some a ∧ A a us :=
      (hp s₁).map fun a us ha => ⟨a, rfl, ha⟩
    refine hsome.bind fun o us s₂ h₂ => ?_
    refine (hf o (ts ++ us) s₂ (h₁.append h₂)).mono fun b vs hb hsome hskip => ?_
    obtain ⟨a, rfl, ha⟩ := hsome
    cases hskip with
    | present ht => simpa using hb (.some (.mk ht ha))

end

/-! ### Recursion and repetition -/

theorem works_nest {moves : Bool} {body : Parser α → Parser α} {V : α → List Token → Prop}
    (hbody : ∀ self : Parser α, (∀ s, Works moves s self V) → ∀ s, Works moves s (body self) V)
    (s : State) : Works moves s (nest body) V := by
  induction hn : s.rest.length using Nat.strong_induction_on generalizing s with
  | _ n ih =>
    refine Works.congr (nest_run body s) (hbody _ (fun s' => works_guarded fun hlt => ?_) s)
    exact ih _ (hn ▸ hlt) s' rfl

theorem works_manyWhile {wanted : Kind → Bool} {item : Parser α} {V : α → List Token → Prop}
    (hitem : ∀ s, wanted s.current.kind → Works false s item V) (s : State) :
    Works false s (manyWhile wanted item) (Each V) := by
  induction hn : s.rest.length using Nat.strong_induction_on generalizing s with
  | _ n ih =>
    refine Works.congr (manyWhile_run wanted item s) ?_
    split
    · next hw =>
      refine (hitem s hw).bind fun a ts s' _ => ?_
      have hmore := works_guarded fun hlt => ih _ (hn ▸ hlt) s' rfl
      refine hmore.bind fun as us s'' _ => works_pure fun has ha => ?_
      simpa using Each.cons ha has
    · exact works_pure .nil

/-- Repetition of an item that always succeeds and consumes a token.  `I` holds before every
item, and `Rel` is what lies between the states. -/
theorem manyWhile_total (Rel : State → List Token → State → Prop) (I : State → Prop)
    (wanted : Kind → Bool) {item : Parser α} {V : α → List Token → Prop}
    (hwalks : ∀ {s ts s'}, Rel s ts s' → Walks s ts s') (hrefl : ∀ s, Rel s [] s)
    (happend : ∀ {s ts s' us s''}, Rel s ts s' → Rel s' us s'' → Rel s (ts ++ us) s'')
    (hitem : ∀ s, I s → wanted s.current.kind → ∃ a s' ts, item s = .ok a s' ∧ Rel s ts s' ∧
      ts ≠ [] ∧ (wanted s'.current.kind → I s') ∧ (s'.Clean → V a ts))
    (s : State) (hI : wanted s.current.kind → I s) :
    ∃ as s' ts, manyWhile wanted item s = .ok as s' ∧ Rel s ts s' ∧
      wanted s'.current.kind = false ∧ (s'.Clean → Each V as ts) := by
  induction hn : s.rest.length using Nat.strong_induction_on generalizing s with
  | _ n ih =>
    by_cases hw : wanted s.current.kind
    · obtain ⟨a, s', ts, hrun, hrel, hne, hI', ha⟩ := hitem s (hI hw) hw
      -- An item that consumes a token leaves fewer, so that the guard lets the next one pass.
      have hlt : s'.rest.length < s.rest.length := by
        have hpos := List.length_pos_iff.mpr hne
        rw [(hwalks hrel).rest, List.length_append]
        omega
      obtain ⟨as, s'', us, hrun', hrel', hstop, has⟩ := ih _ (hn ▸ hlt) s' hI' rfl
      refine ⟨a :: as, s'', ts ++ us, manyWhile_cons hw hrun hlt hrun', happend hrel hrel', hstop,
        fun hclean => ?_⟩
      exact .cons (ha ((hwalks hrel').clean hclean)) (has hclean)
    · rw [Bool.not_eq_true] at hw
      exact ⟨[], s, [], manyWhile_of_not hw item, hrefl s, hw, fun _ => .nil⟩

end Parser

end FrontEnd
