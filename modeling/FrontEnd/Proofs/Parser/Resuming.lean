/-
Going on behind a place where two runs have parted.

Two runs part over a statement and come together again behind it: the same tokens are left, as
many braces are open, and comments have been handed out equally far.  What they have consumed
differs, and the second one has recorded a diagnostic more.  From there on both do the same.

* `Resumed` — two such states; both are the same state behind two different fronts, with nothing
  moved;
* `Resumes` — the second parser does what the first one does, but for what it was given before;
* `Shifts.resumes` — what does not look at the tokens behind it resumes.

As long as no token has been consumed since, the last token before the place is not the same on
both sides.  `moved` says that this has happened.
-/
import FrontEnd.Proofs.Grammar.ShiftedFiles

namespace FrontEnd.Parser

variable {α β γ : Type} {d : Diagnostic} {moved : Bool} {s s' t t' : State}

/-- What is read before a text that stays where it is. -/
def Front.still (before : List Token) (recorded : List Diagnostic) : Front :=
  ⟨⟨0, 0⟩, before, recorded⟩

/-! ### States -/

/-- The same tokens are left in both states, and all that decides how to go on is the same.  The
second one has recorded the diagnostic `d` before anything that was recorded in the first. -/
def Resumed (d : Diagnostic) (moved : Bool) (s s' : State) : Prop :=
  ∃ before before' s₀, Shifted (.still before []) s₀ s ∧ Shifted (.still before' [d]) s₀ s' ∧
    (moved → s₀.consumed ≠ [])

/-- Where two runs have come together again. -/
theorem resumed_of_same {last : Nat} (hclean : s.Clean) (hd : s'.diagnostics.reported = [d])
    (hrest : s'.rest = s.rest) (hdepth : s'.depth = s.depth) (heof : s'.eof = s.eof)
    (hfrom : s'.commentsFrom = s.commentsFrom) (hahead : TokensAt s.commentsFrom s.rest last)
    (hcomments : ∀ first last, s'.commentsIn first last = s.commentsIn first last) :
    Resumed d false s s' := by
  have hsame : ∀ before recorded (ts : List Token),
      ts.map (·.relocate (Front.still before recorded).move) = ts :=
    fun _ _ ts => ts.map_id
  have hcommentsSame : ∀ before recorded (cs : List Comment),
      cs.map (·.relocate (Front.still before recorded).move) = cs :=
    fun _ _ cs => cs.map_id
  -- The common state has consumed nothing, and has handed out comments up to here.
  refine ⟨s.consumed, s'.consumed,
    { rest := s.rest, depth := s.depth, commentsTaken := s.commentsFrom, eof := s.eof
      trivia := s.trivia, eof_kind := s.eof_kind }, ?_, ?_, by simp⟩
  · refine ⟨(hsame _ _ _).symm, rfl, rfl, (Nat.zero_max _).symm, ⟨last, ?_⟩, rfl,
      fun _ _ => (hcommentsSame _ _ _).symm, hclean⟩
    rwa [State.commentsFrom, Nat.zero_max]
  · refine ⟨hrest.trans (hsame _ _ _).symm, rfl, hdepth,
      hfrom.trans (Nat.zero_max _).symm, ⟨last, ?_⟩, heof, fun first last => ?_, hd⟩
    · rwa [State.commentsFrom, Nat.zero_max]
    · exact (hcomments first last).trans (hcommentsSame _ _ _).symm

namespace Resumed

theorem weaken (h : Resumed d true s s') : Resumed d moved s s' := by
  obtain ⟨before, before', s₀, hs, hs', hne⟩ := h
  exact ⟨before, before', s₀, hs, hs', fun _ => hne rfl⟩

theorem rest (h : Resumed d moved s s') : s'.rest = s.rest := by
  obtain ⟨before, before', s₀, hs, hs', -⟩ := h
  rw [hs.rest, hs'.rest]
  rfl

theorem current (h : Resumed d moved s s') : s'.current = s.current := by
  obtain ⟨before, before', s₀, hs, hs', -⟩ := h
  rw [hs.current, hs'.current]
  rfl

theorem diagnostics (h : Resumed d moved s s') :
    s'.diagnostics.reported = d :: s.diagnostics.reported := by
  obtain ⟨before, before', s₀, hs, hs', -⟩ := h
  rw [hs.diagnostics, hs'.diagnostics]
  rfl

theorem spanFrom (h : Resumed d true s s') (p : Position) : s'.spanFrom p = s.spanFrom p := by
  obtain ⟨before, before', s₀, hs, hs', hne⟩ := h
  exact (hs'.spanFrom (hne rfl) p).trans (hs.spanFrom (hne rfl) p).symm

theorem advance (h : Resumed d moved s s') (hproper : s.current.kind ≠ .eof) :
    Resumed d true s.advance s'.advance := by
  obtain ⟨before, before', s₀, hs, hs', -⟩ := h
  refine ⟨before, before', s₀.advance, hs.advance, hs'.advance, fun _ => ?_⟩
  rw [(passes_advance (s := s₀) (by rwa [← hs.kind])).consumed]
  simp

end Resumed

/-! ### Parsers -/

/-- Behind the place the second parser succeeds where the first one does, with a value that is
related to its value. -/
def Resumes (d : Diagnostic) (R : α → β → Prop) (p : Parser α) (p' : Parser β) : Prop :=
  ∀ s s' a t, Resumed d true s s' → p s = .ok a t →
    ∃ b t', p' s' = .ok b t' ∧ R a b ∧ Resumed d true t t'

/-- Behind a place where two runs have parted, a parser does the same on both sides. -/
theorem Shifts.run_resumed {p : Parser α} (m : (Position → Position) → α → α)
    (hp : ∀ φ : Front, Shifts φ moved (m φ.move) p p) (h : Resumed d moved s s') {a : α}
    (hrun : p s = .ok a t) : ∃ t', p s' = .ok a t' ∧ Resumed d true t t' := by
  obtain ⟨before, before', s₀, hs, hs', hne⟩ := h
  rcases (hp _).run hs hne with ⟨a₀, t₀, t₁, hrun₀, hrun₁, ht, hmoved⟩ | ⟨e, t₀, t₁, -, hrun₁, -⟩
  · rcases (hp _).run hs' hne with
      ⟨a₀', t₀', t₁', hrun₀', hrun₁', ht', -⟩ | ⟨e, t₀', t₁', hrun₀', -⟩
    · -- What both sides do is what the common state does.
      obtain ⟨rfl, rfl⟩ := EStateM.Result.ok.inj (hrun₀.symm.trans hrun₀')
      obtain ⟨rfl, rfl⟩ := EStateM.Result.ok.inj (hrun.symm.trans hrun₁)
      exact ⟨t₁', hrun₁', before, before', t₀, ht, ht', fun _ => hmoved⟩
    · exact nomatch hrun₀.symm.trans hrun₀'
  · exact nomatch hrun.symm.trans hrun₁

/-- Parsers that do not look at what was read before resume. -/
theorem Shifts.resumes {p : Parser α} (m : (Position → Position) → α → α)
    (hp : ∀ φ : Front, Shifts φ true (m φ.move) p p) : Resumes d Eq p p := by
  intro s s' a t h hrun
  obtain ⟨t', hrun', ht⟩ := Shifts.run_resumed m hp h hrun
  exact ⟨a, t', hrun', rfl, ht⟩

theorem Resumes.bind {R : α → α → Prop} {S : β → β → Prop} {p p' : Parser α}
    {f f' : α → Parser β} (hp : Resumes d R p p')
    (hf : ∀ a b, R a b → Resumes d S (f a) (f' b)) : Resumes d S (p >>= f) (p' >>= f') := by
  intro s s' c t h hrun
  obtain ⟨a, u, hfirst, hthen⟩ := bind_eq_ok hrun
  obtain ⟨b, u', hfirst', hab, hu⟩ := hp s s' a u h hfirst
  rw [bind_of_ok hfirst']
  exact hf a b hab u u' c t hu hthen

theorem resumes_pure {R : α → α → Prop} {a b : α} (h : R a b) :
    Resumes d R (pure a) (pure b) := by
  intro s s' c t hs hrun
  obtain ⟨rfl, rfl⟩ := EStateM.Result.ok.inj hrun
  exact ⟨b, s', rfl, h, hs⟩

/-- A construct that is put together where it ends. -/
theorem resumes_spanned {R : α → α → Prop} {start : Position} {g g' : Span → α}
    (h : ∀ span, R (g span) (g' span)) :
    Resumes d R (spanFrom start >>= fun span => pure (g span))
      (spanFrom start >>= fun span => pure (g' span)) := by
  intro s s' a t hs hrun
  obtain ⟨rfl, rfl⟩ := EStateM.Result.ok.inj hrun
  refine ⟨g' (s'.spanFrom start), s', rfl, ?_, hs⟩
  rw [hs.spanFrom]
  exact h _

theorem resumes_takeComments : Resumes d Eq takeComments takeComments :=
  Shifts.resumes (fun f => List.map (Comment.relocate f)) fun _ => shifts_takeComments

end FrontEnd.Parser
