/-
What a run leaves in the tree.

A run that reads a text hands out comments and skips what it cannot read.  What is kept of both
goes into the tree, in the order in which it happens:

* `Leaves` — one step of a run, and the remarks that it leaves;
* `Trail` — a run, and all remarks that it leaves;
* `Trail.accounts` — there are no more skipped stretches than failures recorded on the way, and
  where there is none, nothing has failed;
* `Trail.comments_sublist` — the comments are some of those in the text, each of them once;
* `Tracks` — the remarks in what a parser makes are those that its run leaves.

A construct that fails is thrown away with all that is in it.  This is one step, however much
happened inside: comments handed out there are lost, and diagnostics recorded there stay, next
to the one that the construct failed with.  So neither of the two facts can be read off the tree
that is left, and both are carried along the run.
-/
import FrontEnd.Proofs.Grammar.Failing
import FrontEnd.Proofs.Parser.InPlace
import FrontEnd.Proofs.Parser.Shifting
import FrontEnd.Proofs.Tree.Remarks

namespace FrontEnd.Parser

variable {α β : Type} {T : List Token} {s s' s'' : State} {ts : List Token}
  {rs rs' : List Remark} {ds es : List Diagnostic}

/-! ### Runs -/

/-- One step of a run, and the remarks that it leaves. -/
inductive Leaves : State → List Remark → State → Prop
  /-- Tokens are read. -/
  | read {s s' : State} {ts : List Token} (h : Reads s ts s') : Leaves s [] s'
  /-- Comments are handed out. -/
  | comments (s : State) : Leaves s (s.comments.map .comment) s.commented
  /-- A definition starts outside of all braces. -/
  | outside (s : State) : Leaves s [] { s with depth := 0 }
  /-- A block that does not close ends. -/
  | unclosed (s : State) (depth : Nat) :
    Leaves s [] { s with
      depth
      diagnostics := s.diagnostics.push (s.notFound "block" (.symbol .closeCurly)) }
  /-- Something fails.  The failure is recorded, and the rest of it is skipped. -/
  | skip {s s' s'' : State} {ts us : List Token} {d : Diagnostic} (span : Span)
    (hwalk : Walks s ts s') (hd : Located d ts s') (hcause : d.cause.isOpenBlock = false)
    (hskip : Reads { s' with diagnostics := s'.diagnostics.push d } us s'') :
    Leaves s [.error span] s''

/-- A run, and the remarks that it leaves. -/
inductive Trail : State → List Remark → State → Prop
  | refl (s : State) : Trail s [] s
  | step {s s' s'' : State} {rs rs' : List Remark} (h : Leaves s rs s') (h' : Trail s' rs' s'') :
    Trail s (rs ++ rs') s''

theorem Leaves.trail (h : Leaves s rs s') : Trail s rs s' := by
  simpa using Trail.step h (.refl s')

theorem Trail.append (h : Trail s rs s') (h' : Trail s' rs' s'') : Trail s (rs ++ rs') s'' := by
  induction h with
  | refl => exact h'
  | step hfirst _ ih =>
    rw [List.append_assoc]
    exact .step hfirst (ih h')

theorem Leaves.walks (h : Leaves s rs s') : ∃ ts, Walks s ts s' := by
  cases h with
  | read h => exact ⟨_, h.walks⟩
  | comments => exact ⟨[], (Walks.refl s).commented⟩
  | outside => exact ⟨[], (Walks.refl s).setDepth 0⟩
  | unclosed depth =>
    exact ⟨[], ((Walks.refl s).note (located_notFound s _ _ [])).setDepth depth⟩
  | skip _ hwalk hd _ hskip => exact ⟨_, (hwalk.note hd).append hskip.walks⟩

theorem Trail.walks (h : Trail s rs s') : ∃ ts, Walks s ts s' := by
  induction h with
  | refl s => exact ⟨[], .refl s⟩
  | step hfirst _ ih =>
    obtain ⟨ts, hwalk⟩ := hfirst.walks
    obtain ⟨us, hwalk'⟩ := ih
    exact ⟨ts ++ us, hwalk.append hwalk'⟩

theorem Trail.inPlace (h : Trail s rs s') (hs : s.InPlace T) : s'.InPlace T := by
  obtain ⟨ts, hwalk⟩ := h.walks
  exact hs.passes hwalk.toPasses

/-! ### Failures -/

/-- How many of the remarks are skipped stretches. -/
def skipped (rs : List Remark) : Nat := rs.countP (·.isError)

/-- How many of the diagnostics are about something else than a block that does not close. -/
def failures (ds : List Diagnostic) : Nat := ds.countP fun d => !d.cause.isOpenBlock

theorem skipped_append (rs rs' : List Remark) : skipped (rs ++ rs') = skipped rs + skipped rs' :=
  List.countP_append

theorem failures_append (ds es : List Diagnostic) :
    failures (ds ++ es) = failures ds + failures es := List.countP_append

theorem skipped_comments (cs : List Comment) : skipped (cs.map .comment) = 0 := by
  refine List.countP_eq_zero.mpr fun r hr => ?_
  obtain ⟨c, -, rfl⟩ := List.mem_map.mp hr
  simp [Remark.isError]

/-- There are not more skipped stretches than failures, and none of them only without any
failure. -/
structure Accounts (rs : List Remark) (ds : List Diagnostic) : Prop where
  le : skipped rs ≤ failures ds
  none : skipped rs = 0 → failures ds = 0

namespace Accounts

theorem nil (h : skipped rs = 0) : Accounts rs [] := by
  constructor
  · rw [h]
    exact Nat.zero_le _
  · intro _
    rfl

theorem append (h : Accounts rs ds) (h' : Accounts rs' es) : Accounts (rs ++ rs') (ds ++ es) := by
  have hle := h.le
  have hle' := h'.le
  have hnone := h.none
  have hnone' := h'.none
  constructor <;> rw [skipped_append, failures_append] <;> omega

end Accounts

/-- A step accounts for the diagnostics that it records. -/
theorem Leaves.accounts (h : Leaves s rs s') :
    ∃ ds, s'.diagnostics.reported = s.diagnostics.reported ++ ds ∧ Accounts rs ds := by
  cases h with
  | read h => exact ⟨[], by simp [h.diagnostics], .nil rfl⟩
  | comments => exact ⟨[], by simp [State.commented], .nil (skipped_comments _)⟩
  | outside => exact ⟨[], by simp, .nil rfl⟩
  | unclosed => exact ⟨[s.notFound "block" (.symbol .closeCurly)], rfl, Nat.zero_le _, fun _ => rfl⟩
  | @skip _ _ ts us d span hwalk hd hcause hskip =>
    obtain ⟨ds, hds, -⟩ := hwalk.diagnostics
    refine ⟨ds ++ [d], ?_, ?_⟩
    · rw [hskip.diagnostics, ← List.append_assoc, ← hds]
      rfl
    · -- Whatever was recorded inside, the failure itself counts as well.
      have hone : failures [d] = 1 := by simp [failures, hcause]
      have hspan : skipped [.error span] = 1 := rfl
      constructor <;> rw [hspan, failures_append, hone] <;> omega

/-- A run accounts for the diagnostics that it records. -/
theorem Trail.accounts (h : Trail s rs s') :
    ∃ ds, s'.diagnostics.reported = s.diagnostics.reported ++ ds ∧ Accounts rs ds := by
  induction h with
  | refl => exact ⟨[], by simp, .nil rfl⟩
  | step hfirst _ ih =>
    obtain ⟨ds, hds, hfirst⟩ := hfirst.accounts
    obtain ⟨es, hes, hrest⟩ := ih
    refine ⟨ds ++ es, ?_, hfirst.append hrest⟩
    rw [hes, hds, List.append_assoc]

/-! ### Comments -/

/-- Comments have not been handed out beyond the next token. -/
def State.Handed (s : State) : Prop := s.commentsTaken ≤ s.position.offset

namespace State.InPlace

theorem position_le (h : s.InPlace T) (hpass : Passes s ts s') :
    s.position.offset ≤ s'.position.offset := by
  cases ts with
  | nil =>
    have hsame : s'.current = s.current := by
      rw [State.current, State.current, State.peek, State.peek, hpass.rest, hpass.eof]
      rfl
    exact Nat.le_of_eq (by rw [State.position, State.position, hsame])
  | cons t ts =>
    have hle := (h.tokensAt_position hpass (by simp)).le
    have hreached := (h.passes hpass).reached_le_position
    omega

/-- A token that is passed, and the next one, start between the two next tokens. -/
theorem start_between (h : s.InPlace T) (hpass : Passes s ts s') {t : Token}
    (ht : t ∈ ts ++ [s'.current]) :
    s.position.offset ≤ t.span.start.offset ∧ t.span.start.offset ≤ s'.position.offset := by
  have hreached := (h.passes hpass).reached_le_position
  rcases List.mem_append.mp ht with hmem | hnext
  · obtain ⟨hfirst, hfits, hlast⟩ :=
      (h.tokensAt_position hpass (List.ne_nil_of_mem hmem)).of_mem hmem
    have hlt := hfits.start_lt_stop
    omega
  · rw [List.mem_singleton.mp hnext]
    exact ⟨h.position_le hpass, Nat.le_refl _⟩

theorem commentsIn_append (h : s.InPlace T) {lo mid hi : Nat} (hlo : lo ≤ mid) (hhi : mid ≤ hi) :
    s.commentsIn lo hi = s.commentsIn lo mid ++ s.commentsIn mid hi := by
  have hsorted := h.arranged.trivia_sorted
  unfold State.commentsIn
  rw [between_eq_filter hsorted, between_eq_filter hsorted, between_eq_filter hsorted,
    filter_startsIn_append hsorted hlo hhi, List.filterMap_append]

end State.InPlace

/-- Comments are handed out from ever farther on, and never beyond the next token. -/
theorem Walks.handed (h : Walks s ts s') (hs : s.InPlace T) (hhanded : s.Handed) :
    s'.Handed ∧ s.commentsFrom ≤ s'.commentsFrom := by
  have hposition := hs.position_le h.toPasses
  have hreached := (hs.tokensAt h.toPasses).le
  unfold State.Handed at hhanded ⊢
  rw [commentsFrom_eq, commentsFrom_eq]
  rcases h.commentsTaken with hsame | ⟨t, ht, hlater⟩
  · omega
  · have hbetween := hs.start_between h.toPasses ht
    omega

/-- The comments among remarks. -/
def commentsOf (rs : List Remark) : List Comment := rs.filterMap Remark.comment?

theorem commentsOf_append (rs rs' : List Remark) :
    commentsOf (rs ++ rs') = commentsOf rs ++ commentsOf rs' := List.filterMap_append

theorem commentsOf_comments (cs : List Comment) : commentsOf (cs.map .comment) = cs := by
  rw [commentsOf, List.filterMap_map]
  exact List.filterMap_some

/-- What a step hands out stands where the step moves the end of what has been handed out. -/
theorem Leaves.comments_sublist (h : Leaves s rs s') :
    (commentsOf rs).Sublist (s.commentsIn s.commentsFrom s'.commentsFrom) := by
  cases h with
  | comments =>
    rw [commentsOf_comments, State.commentsFrom_commented]
    rcases Nat.le_total s.commentsFrom s.position.offset with hle | hle
    · rw [Nat.max_eq_right hle]
      exact List.Sublist.refl _
    · have hnone : s.comments = [] := by
        rw [State.comments, between_eq_nil hle, List.filterMap_nil]
      rw [hnone]
      exact List.nil_sublist _
  | read | outside | unclosed | skip => exact List.nil_sublist _

/-- What a run hands out are some of the comments of the text, in order and each of them once. -/
theorem Trail.comments_sublist (h : Trail s rs s') (hs : s.InPlace T) (hhanded : s.Handed) :
    s.commentsFrom ≤ s'.commentsFrom ∧
      (commentsOf rs).Sublist (s.commentsIn s.commentsFrom s'.commentsFrom) := by
  induction h with
  | refl s => exact ⟨Nat.le_refl _, List.nil_sublist _⟩
  | @step s u s' rs rs' hfirst _ ih =>
    obtain ⟨ts, hwalk⟩ := hfirst.walks
    obtain ⟨hhanded', hmid⟩ := hwalk.handed hs hhanded
    obtain ⟨hlast, hrest⟩ := ih (hs.passes hwalk.toPasses) hhanded'
    refine ⟨Nat.le_trans hmid hlast, ?_⟩
    have hsame : u.commentsIn u.commentsFrom s'.commentsFrom =
        s.commentsIn u.commentsFrom s'.commentsFrom := by
      rw [State.commentsIn, State.commentsIn, hwalk.trivia]
    rw [commentsOf_append, hs.commentsIn_append hmid hlast]
    rw [hsame] at hrest
    exact hfirst.comments_sublist.append hrest

/-! ### What a parser leaves -/

/-- Run on `s`, a state among the tokens `T`, the parser leaves remarks that its value satisfies
`V` with, if it succeeds. -/
def Tracks (T : List Token) (s : State) (p : Parser α) (V : α → List Remark → Prop) : Prop :=
  s.InPlace T → ∀ a s', p s = .ok a s' → ∃ rs, Trail s rs s' ∧ V a rs

section

variable {p q : Parser α} {f : α → Parser β} {A : α → List Remark → Prop}
  {B : β → List Remark → Prop}

/-- What a parser does first, and another parser behind that. -/
theorem Tracks.after (htrail : Trail s rs s') (hrun : p s = q s')
    (hq : Tracks T s' q fun a rs' => A a (rs ++ rs')) : Tracks T s p A := by
  intro hs a s'' hp
  obtain ⟨rs', htrail', ha⟩ := hq (htrail.inPlace hs) a s'' (hrun.symm.trans hp)
  exact ⟨rs ++ rs', htrail.append htrail', ha⟩

theorem Tracks.congr (h : p s = q s) (hq : Tracks T s q A) : Tracks T s p A := .after (.refl s) h hq

/-- One parser after another. -/
theorem Tracks.bind (hp : Tracks T s p A)
    (hf : ∀ a rs s', A a rs → Tracks T s' (f a) fun b rs' => B b (rs ++ rs')) :
    Tracks T s (p >>= f) B := by
  intro hs b s'' hrun
  obtain ⟨a, s', hfirst, hsecond⟩ := bind_eq_ok hrun
  obtain ⟨rs, htrail, ha⟩ := hp hs a s' hfirst
  obtain ⟨rs', htrail', hb⟩ := hf a rs s' ha (htrail.inPlace hs) b s'' hsecond
  exact ⟨rs ++ rs', htrail.append htrail', hb⟩

theorem tracks_ok {a : α} (hp : p s = .ok a s') (htrail : Trail s rs s') (ha : A a rs) :
    Tracks T s p A := by
  intro _ b s'' hrun
  obtain ⟨rfl, rfl⟩ := EStateM.Result.ok.inj (hp.symm.trans hrun)
  exact ⟨rs, htrail, ha⟩

theorem tracks_error {d : Diagnostic} (hp : p s = .error d s') : Tracks T s p A := by
  intro _ a s'' hrun
  exact nomatch hp.symm.trans hrun

theorem tracks_pure {a : α} (h : A a []) : Tracks T s (pure a) A := tracks_ok rfl (.refl s) h

theorem tracks_guarded {k : Nat} (h : s.rest.length < k → Tracks T s p A) :
    Tracks T s (guarded k p) A := by
  intro hs a s' hrun
  obtain ⟨hlt, hp⟩ := guarded_eq_ok hrun
  exact h hlt hs a s' hp

/-- A parser that only reads leaves nothing. -/
theorem Meets.tracks {V : α → List Token → Prop} (h : Meets [] s p V) :
    Tracks T s p fun _ rs => rs = [] := by
  intro _ a s' hrun
  obtain ⟨ts, hread, -⟩ := h.of_ok hrun
  exact ⟨[], (Leaves.read hread).trail, rfl⟩

theorem tracks_expect {expected : Kind} {production : String} (hk : expected ≠ .eof) :
    Tracks T s (expect expected production) fun _ rs => rs = [] := by
  by_cases h : s.current.kind = expected
  · exact tracks_ok (by rw [expect_run, if_pos h]) (Leaves.read (reads_advance (h ▸ hk))).trail rfl
  · exact tracks_error (by rw [expect_run, if_neg h])

theorem tracks_kind {f : Kind → Parser β} (h : Tracks T s (f s.current.kind) B) :
    Tracks T s (kind >>= f) B := h

theorem tracks_spanFrom {start : Position} {f : Span → Parser β}
    (h : Tracks T s (f (s.spanFrom start)) B) : Tracks T s (spanFrom start >>= f) B := h

/-- Something behind a mark, if the mark is next, and what comes after it. -/
theorem tracks_skipThen {k : Kind} {f : Option α → Parser β} {view : α → List Remark}
    (hk : k.isPlain)
    (hp : ∀ s, Tracks T s p fun a rs => rs = view a)
    (hf : ∀ o s, Tracks T s (f o) fun b rs => B b ((o.map view).getD [] ++ rs)) :
    Tracks T s (skip? k >>= fun found =>
      if found then (some <$> p) >>= f else pure none >>= f) B := by
  refine (meets_skip? hk).tracks.bind fun found rs s₁ hnone => ?_
  subst hnone
  cases found with
  | false => exact hf none s₁
  | true =>
    have hsome : Tracks T s₁ (some <$> p) fun o rs => rs = (o.map view).getD [] := by
      refine Tracks.congr (map_run some p s₁) ((hp s₁).bind fun a rs s₂ ha => tracks_pure ?_)
      rw [ha, List.append_nil]
      rfl
    refine hsome.bind fun o rs s₂ ho => ?_
    subst ho
    exact hf o s₂

/-- Repetition: what the items leave, one after the other. -/
theorem tracks_manyWhile {wanted : Kind → Bool} {item : Parser α} {view : α → List Remark}
    (hitem : ∀ s, wanted s.current.kind → Tracks T s item fun a rs => rs = view a) (s : State) :
    Tracks T s (manyWhile wanted item) fun as rs => rs = as.flatMap view := by
  induction hn : s.rest.length using Nat.strong_induction_on generalizing s with
  | _ n ih =>
    refine Tracks.congr (manyWhile_run wanted item s) ?_
    split
    · next hw =>
      refine (hitem s hw).bind fun a rs s₁ hfirst => ?_
      have hmore := tracks_guarded fun hlt => ih _ (hn ▸ hlt) s₁ rfl
      refine hmore.bind fun as rs' s₂ hrest => tracks_pure ?_
      rw [hfirst, hrest, List.append_nil, List.flatMap_cons]
    · exact tracks_pure rfl

end

end FrontEnd.Parser
