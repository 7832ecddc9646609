/-
Reading the same tokens behind other ones.

A text may be read on its own or behind other lines.  `Shifted φ s s'` says that the state
`s'` is the state `s` behind the front `φ`: the same tokens are left, at the places where the
front puts them, and what was consumed and recorded in `s` follows what the front has
consumed and recorded.  `Shifts φ moved m p p'` says that `p'` does behind the front what `p`
does without it: it ends in a shifted state, and with the value that `m` makes of the value
of `p`, or with the same failure at its new place.

* `Shifts.bind`, `shifts_fix`, `shifts_manyWhile` — the ways to build a parser keep this;
* `shifts_expect`, `shifts_advance`, `shifts_spanFrom` — so do the steps it is built from.

Before the first token a text on its own has no previous token, behind a front it has one.
The two differ in what a span up to the previous token is, so `moved` says whether a token
must have been consumed before `p` starts.
-/
import FrontEnd.Proofs.Parser.Reading
import FrontEnd.Proofs.Tree.Placement
import FrontEnd.Proofs.Tree.Relocate

namespace FrontEnd.Parser

variable {α β γ : Type}

/-- What a text is read behind. -/
structure Front where
  shift : Shift
  /-- The tokens consumed before, the nearest first. -/
  before : List Token
  /-- The diagnostics recorded before. -/
  recorded : List Diagnostic

/-- Where the front puts a position of the text behind it. -/
abbrev Front.move (φ : Front) : Position → Position := Position.shift φ.shift

/-- The comments that start in a stretch of the text. -/
def State.commentsIn (s : State) (first last : Nat) : List Comment :=
  (Trivia.between first last s.trivia).filterMap Comment.ofTrivia?

/-- The second state is the first one behind a front.  Comments have been handed out equally
far, and not farther than the next token. -/
structure Shifted (φ : Front) (s s' : State) : Prop where
  rest : s'.rest = s.rest.map (·.relocate φ.move)
  consumed : s'.consumed = s.consumed.map (·.relocate φ.move) ++ φ.before
  depth : s'.depth = s.depth
  commentsFrom : s'.commentsFrom = s.commentsFrom + φ.shift.bytes
  ahead : ∃ last, TokensAt s.commentsFrom s.rest last
  eof : s'.eof = s.eof.relocate φ.move
  commentsIn : ∀ first last, s'.commentsIn (first + φ.shift.bytes) (last + φ.shift.bytes) =
    (s.commentsIn first last).map (·.relocate φ.move)
  diagnostics : s'.diagnostics.reported =
    φ.recorded ++ s.diagnostics.reported.map (·.relocate φ.move)

variable {φ : Front} {s s' : State}

/-- Handing out comments goes up to the next token. -/
theorem State.commentsFrom_commented (s : State) :
    s.commented.commentsFrom = max s.commentsFrom s.position.offset := by
  unfold State.commented
  split
  · next hgap =>
    have hmax : ∀ first taken last : Nat, max first taken < last →
        max first last = max (max first taken) last := by omega
    exact hmax _ _ _ hgap
  · next hnot => exact (Nat.max_eq_left (Nat.not_lt.mp hnot)).symm

namespace Shifted

theorem peek (h : Shifted φ s s') (n : Nat) : s'.peek n = (s.peek n).relocate φ.move := by
  unfold State.peek
  rw [h.rest, h.eof, List.getD_eq_getElem?_getD, List.getD_eq_getElem?_getD, List.getElem?_map]
  cases s.rest[n]? <;> rfl

theorem current (h : Shifted φ s s') : s'.current = s.current.relocate φ.move := h.peek 0

theorem kind (h : Shifted φ s s') : s'.current.kind = s.current.kind := by
  rw [h.current]
  rfl

theorem position (h : Shifted φ s s') : s'.position = φ.move s.position := by
  rw [State.position, h.current]
  rfl

theorem index (h : Shifted φ s s') : s'.index = s.index + φ.before.length := by
  simp [State.index, h.consumed]

theorem length_rest (h : Shifted φ s s') : s'.rest.length = s.rest.length := by
  rw [h.rest, List.length_map]

theorem spanFrom (h : Shifted φ s s') (hne : s.consumed ≠ []) (p : Position) :
    s'.spanFrom (φ.move p) = (s.spanFrom p).relocate φ.move := by
  obtain ⟨t, ts, hconsumed⟩ := List.exists_cons_of_ne_nil hne
  have hprev : s'.previousEnd = φ.move s.previousEnd := by
    unfold State.previousEnd
    rw [h.consumed, hconsumed]
    rfl
  unfold State.spanFrom
  rw [hprev]
  simp only [Position.offset_shift, Nat.add_lt_add_iff_right]
  split <;> rfl

theorem comments (h : Shifted φ s s') : s'.comments = s.comments.map (·.relocate φ.move) := by
  show s'.commentsIn s'.commentsFrom s'.position.offset = _
  rw [h.commentsFrom, h.position]
  exact h.commentsIn _ _

theorem commentsTaken_le (s : State) : s.commentsTaken ≤ s.commentsFrom := Nat.le_max_right _ _

theorem advance (h : Shifted φ s s') : Shifted φ s.advance s'.advance := by
  have htaken := commentsTaken_le s
  have htaken' := commentsTaken_le s'
  have hfrom := h.commentsFrom
  obtain ⟨last, hahead⟩ := h.ahead
  unfold State.advance
  rw [h.rest]
  cases hrest : s.rest with
  | nil => exact h
  | cons t ts =>
    simp only [List.map_cons, Token.kind_relocate, h.depth]
    split
    · exact h
    · rw [hrest] at hahead
      obtain ⟨hstart, hfits, hts⟩ := hahead
      have hlt := hfits.start_lt_stop
      -- Comments had been handed out up to the token at most, so its end counts from here on.
      have hstop : max t.span.stop.offset s.commentsTaken = t.span.stop.offset := by omega
      have hstop' : max (t.span.stop.offset + φ.shift.bytes) s'.commentsTaken =
          t.span.stop.offset + φ.shift.bytes := by omega
      refine ⟨rfl, by simp [h.consumed], rfl, ?_, ⟨last, ?_⟩, h.eof, h.commentsIn, h.diagnostics⟩
      · show max (t.span.stop.offset + φ.shift.bytes) s'.commentsTaken = _
        rw [hstop']
        exact congrArg (· + φ.shift.bytes) hstop.symm
      · show TokensAt (max t.span.stop.offset s.commentsTaken) ts last
        rwa [hstop]

theorem record (h : Shifted φ s s') (d : Diagnostic) :
    Shifted φ { s with diagnostics := s.diagnostics.push d }
      { s' with diagnostics := s'.diagnostics.push (d.relocate φ.move) } :=
  ⟨h.rest, h.consumed, h.depth, h.commentsFrom, h.ahead, h.eof, h.commentsIn, by
    simp [Diagnostics.push, h.diagnostics]⟩

theorem setDepth (h : Shifted φ s s') (depth : Nat) :
    Shifted φ { s with depth } { s' with depth } :=
  ⟨h.rest, h.consumed, rfl, h.commentsFrom, h.ahead, h.eof, h.commentsIn, h.diagnostics⟩

theorem commented (h : Shifted φ s s') : Shifted φ s.commented s'.commented := by
  obtain ⟨last, hahead⟩ := h.ahead
  refine ⟨h.rest, h.consumed, h.depth, ?_, ?_, h.eof, h.commentsIn, h.diagnostics⟩
  · rw [State.commentsFrom_commented, State.commentsFrom_commented, h.commentsFrom, h.position,
      Position.offset_shift]
    omega
  · rw [State.commentsFrom_commented]
    show ∃ last, TokensAt _ s.rest last
    cases hrest : s.rest with
    | nil => exact ⟨_, Nat.le_refl _⟩
    | cons t ts =>
      rw [hrest] at hahead
      obtain ⟨hstart, hfits, hts⟩ := hahead
      refine ⟨last, ?_, hfits, hts⟩
      rw [State.position, current_of_rest hrest]
      omega

/-- Coming back to a place on both sides. -/
theorem restore {t t' : State} (h : Shifted φ s s') (h' : Shifted φ t t') :
    Shifted φ (t.restore s.toTokenCursor) (t'.restore s'.toTokenCursor) :=
  ⟨h.rest, h.consumed, h.depth, h.commentsFrom, h.ahead, h'.eof, h'.commentsIn, h'.diagnostics⟩

end Shifted

theorem consumed_advance (h : s.consumed ≠ []) : s.advance.consumed ≠ [] := by
  unfold State.advance
  split
  · exact h
  · dsimp only
    split
    · exact h
    · exact List.cons_ne_nil _ _

/-! ### Parsers -/

/-- The second outcome is the first one behind a front. -/
inductive OutcomeShifted (φ : Front) (moved : Bool) (m : α → β) : Outcome α → Outcome β → Prop
  | ok {a : α} {s s' : State} (h : Shifted φ s s') (hne : s.consumed ≠ []) :
      OutcomeShifted φ moved m (.ok a s) (.ok (m a) s')
  | error {d : Diagnostic} {s s' : State} (h : Shifted φ s s')
      (hne : moved → s.consumed ≠ []) :
      OutcomeShifted φ moved m (.error d s) (.error (d.relocate φ.move) s')

/-- Behind a front the second parser does what the first one does without it.  One that is
`moved` starts behind a token, and both are behind a token when they succeed. -/
def Shifts (φ : Front) (moved : Bool) (m : α → β) (p : Parser α) (p' : Parser β) : Prop :=
  ∀ s s', Shifted φ s s' → (moved → s.consumed ≠ []) → OutcomeShifted φ moved m (p s) (p' s')

section

variable {moved : Bool} {m : α → β} {p : Parser α} {p' : Parser β}

theorem OutcomeShifted.weaken {r : Outcome α} {r' : Outcome β}
    (h : OutcomeShifted φ true m r r') : OutcomeShifted φ moved m r r' := by
  cases h with
  | ok hs hne => exact .ok hs hne
  | error hs hne => exact .error hs fun _ => hne rfl

/-- What both sides come to. -/
theorem Shifts.run (hp : Shifts φ moved m p p') (h : Shifted φ s s')
    (hne : moved → s.consumed ≠ []) :
    (∃ a s₁ s₁', p s = .ok a s₁ ∧ p' s' = .ok (m a) s₁' ∧ Shifted φ s₁ s₁' ∧
      s₁.consumed ≠ []) ∨
    ∃ d s₁ s₁', p s = .error d s₁ ∧ p' s' = .error (d.relocate φ.move) s₁' ∧
      Shifted φ s₁ s₁' ∧ (moved → s₁.consumed ≠ []) := by
  have hrun := hp s s' h hne
  generalize hr : p s = r at hrun
  generalize hr' : p' s' = r' at hrun
  cases hrun with
  | ok h₁ hne₁ => exact .inl ⟨_, _, _, rfl, rfl, h₁, hne₁⟩
  | error h₁ hne₁ => exact .inr ⟨_, _, _, rfl, rfl, h₁, hne₁⟩

/-- One parser after another. -/
theorem Shifts.bind {α' β' : Type} {n : α' → β'} {f : α → Parser α'} {f' : β → Parser β'}
    (hp : Shifts φ moved m p p') (hf : ∀ a, Shifts φ true n (f a) (f' (m a))) :
    Shifts φ moved n (p >>= f) (p' >>= f') := by
  intro s s' h hne
  rcases hp.run h hne with ⟨a, s₁, s₁', hrun, hrun', h₁, hne₁⟩ | ⟨d, s₁, s₁', hrun, hrun', h₁, hne₁⟩
  · rw [bind_of_ok hrun, bind_of_ok hrun']
    exact (hf a s₁ s₁' h₁ fun _ => hne₁).weaken
  · rw [bind_of_error hrun, bind_of_error hrun']
    exact .error h₁ hne₁

theorem shifts_pure {a : α} {b : β} (h : b = m a) : Shifts φ true m (pure a) (pure b) := by
  intro s s' hs hne
  rw [h]
  exact .ok hs (hne rfl)

theorem Shifts.map {α' β' : Type} {n : α' → β'} {f : α → α'} {f' : β → β'}
    (hp : Shifts φ moved m p p') (h : ∀ a, f' (m a) = n (f a)) :
    Shifts φ moved n (f <$> p) (f' <$> p') := by
  intro s s' hs hne
  have hbind : Shifts φ moved n (p >>= fun a => pure (f a)) (p' >>= fun b => pure (f' b)) :=
    hp.bind fun a => shifts_pure (h a)
  rw [map_run, map_run]
  exact hbind s s' hs hne

theorem shifts_throw {d d' : Diagnostic} (h : d' = d.relocate φ.move) :
    Shifts φ moved m (throw d) (throw d') := by
  intro s s' hs hne
  rw [h]
  exact .error hs hne

theorem shifts_unexpected (production : String) (expected : List Kind) :
    Shifts φ moved m (unexpected production expected) (unexpected production expected) := by
  intro s s' h hne
  have hd : s'.unexpected production expected = (s.unexpected production expected).relocate
      φ.move := by
    simp only [State.unexpected, h.current]
    rfl
  show OutcomeShifted φ moved m (.error _ s) (.error _ s')
  rw [hd]
  exact .error h hne

/-! Looking at the state. -/

theorem shifts_kind {f : Kind → Parser α} {f' : Kind → Parser β}
    (hf : ∀ k, Shifts φ moved m (f k) (f' k)) : Shifts φ moved m (kind >>= f) (kind >>= f') := by
  intro s s' h hne
  show OutcomeShifted φ moved m (f s.current.kind s) (f' s'.current.kind s')
  rw [h.kind]
  exact hf s.current.kind s s' h hne

theorem shifts_peekKind {n : Nat} {f : Kind → Parser α} {f' : Kind → Parser β}
    (hf : ∀ k, Shifts φ moved m (f k) (f' k)) :
    Shifts φ moved m (peekKind n >>= f) (peekKind n >>= f') := by
  intro s s' h hne
  show OutcomeShifted φ moved m (f (s.peek n).kind s) (f' (s'.peek n).kind s')
  rw [h.peek]
  exact hf (s.peek n).kind s s' h hne

theorem shifts_position {f : Position → Parser α} {f' : Position → Parser β}
    (hf : ∀ p, Shifts φ moved m (f p) (f' (φ.move p))) :
    Shifts φ moved m (position >>= f) (position >>= f') := by
  intro s s' h hne
  show OutcomeShifted φ moved m (f s.position s) (f' s'.position s')
  rw [h.position]
  exact hf s.position s s' h hne

/-- Behind a token a span up to it can be asked for. -/
theorem shifts_spanFrom (start : Position) :
    Shifts φ true (Span.relocate φ.move) (spanFrom start) (spanFrom (φ.move start)) := by
  intro s s' h hne
  show OutcomeShifted φ true _ (.ok (s.spanFrom start) s) (.ok (s'.spanFrom (φ.move start)) s')
  rw [h.spanFrom (hne rfl)]
  exact .ok h (hne rfl)

/-! Consuming tokens. -/

theorem shifts_advance : Shifts φ true (Token.relocate φ.move) advance advance := by
  intro s s' h hne
  show OutcomeShifted φ true _ (.ok s.current s.advance) (.ok s'.current s'.advance)
  rw [h.current]
  exact .ok h.advance (consumed_advance (hne rfl))

/-- A token, and what comes after it.  At the end of the input nothing is consumed. -/
theorem shifts_advanceThen {f : Token → Parser α} {f' : Token → Parser β}
    (heof : ∀ token : Token, token.kind = .eof →
      Shifts φ moved m (f token) (f' (token.relocate φ.move)))
    (hf : ∀ token, Shifts φ true m (f token) (f' (token.relocate φ.move))) :
    Shifts φ moved m (advance >>= f) (advance >>= f') := by
  intro s s' h hne
  show OutcomeShifted φ moved m (f s.current s.advance) (f' s'.current s'.advance)
  rw [h.current]
  by_cases hcurrent : s.current.kind = .eof
  · exact heof _ hcurrent _ _ h.advance fun hm => consumed_advance (hne hm)
  · have hmoved : s.advance.consumed ≠ [] := by
      rw [(passes_advance hcurrent).consumed]
      simp
    exact ((hf s.current) _ _ h.advance fun _ => hmoved).weaken

theorem Shifted.notFound (h : Shifted φ s s') (production : String) (expected : Kind) :
    s'.notFound production expected = (s.notFound production expected).relocate φ.move := by
  unfold State.notFound
  split <;> simp only [State.notFound.missing, State.unexpected, h.current] <;> rfl

/-- A token that is expected is there on both sides or on none. -/
theorem shifts_expect {expected : Kind} (production : String) (hk : expected ≠ .eof) :
    Shifts φ moved (Token.relocate φ.move) (expect expected production)
      (expect expected production) := by
  intro s s' h hne
  rw [expect_run, expect_run, h.kind, h.current, h.notFound]
  split
  · next hcurrent =>
    refine .ok h.advance ?_
    rw [(passes_advance (hcurrent ▸ hk)).consumed]
    simp
  · exact .error h hne

theorem shifts_skip? (wanted : Kind) : Shifts φ true id (skip? wanted) (skip? wanted) := by
  refine shifts_kind fun k => ?_
  split
  · exact shifts_advance.bind fun _ => shifts_pure rfl
  · exact shifts_pure rfl

/-! ### Trying, repetition and recursion -/

/-- A parser that is tried, and what comes after it where it started. -/
theorem shifts_speculateThen {α' β' : Type} {n : α' → β'} {f : Option α → Parser α'}
    {f' : Option β → Parser β'} (hp : Shifts φ moved m p p')
    (hf : ∀ o, Shifts φ moved n (f o) (f' (o.map m))) :
    Shifts φ moved n (speculate p >>= f) (speculate p' >>= f') := by
  intro s s' h hne
  rcases hp.run h hne with ⟨a, s₁, s₁', hrun, hrun', h₁, -⟩ | ⟨d, s₁, s₁', hrun, hrun', h₁, -⟩
  · rw [bind_run, bind_run, speculate_run, speculate_run, hrun, hrun']
    exact hf (some a) _ _ (h.restore h₁) hne
  · rw [bind_run, bind_run, speculate_run, speculate_run, hrun, hrun']
    exact hf none _ _ (h.restore h₁) hne

theorem shifts_guarded (n : Nat) (hp : Shifts φ moved m p p') :
    Shifts φ moved m (guarded n p) (guarded n p') := by
  intro s s' h hne
  unfold guarded
  -- The tokens that are left are as many on both sides.
  rw [h.length_rest]
  split
  · exact hp s s' h hne
  · exact shifts_unexpected "source_file" [] s s' h hne

end

theorem shifts_fix {α' : Type} (l : α → α') {m : β → γ}
    {body : (α → Parser β) → α → Parser β} {body' : (α' → Parser γ) → α' → Parser γ}
    (hbody : ∀ (self : α → Parser β) (self' : α' → Parser γ),
      (∀ a, Shifts φ true m (self a) (self' (l a))) →
        ∀ a, Shifts φ true m (body self a) (body' self' (l a))) (a : α) :
    Shifts φ true m (fix body a) (fix body' (l a)) := by
  intro s s' h hne
  induction hn : s.rest.length using Nat.strong_induction_on generalizing a s s' with
  | _ n ih =>
    rw [fix_run, fix_run, h.length_rest]
    -- The guard counts the tokens that are left, which are as many on both sides.
    refine hbody _ _ (fun b t t' ht hne' => ?_) a s s' h hne
    unfold guarded
    rw [ht.length_rest]
    split
    · next hlt => exact ih _ (hn ▸ hlt) b t t' ht hne' rfl
    · exact shifts_unexpected (m := m) "source_file" [] t t' ht hne'

theorem shifts_nest {m : β → γ} {body : Parser β → Parser β} {body' : Parser γ → Parser γ}
    (hbody : ∀ self self', Shifts φ true m self self' → Shifts φ true m (body self) (body' self')) :
    Shifts φ true m (nest body) (nest body') :=
  shifts_fix id (fun self self' hself _ => hbody (self ()) (self' ()) (hself ())) ()

theorem shifts_manyWhile {wanted : Kind → Bool} {m : α → β} {item : Parser α} {item' : Parser β}
    (hitem : Shifts φ true m item item') :
    Shifts φ true (List.map m) (manyWhile wanted item) (manyWhile wanted item') := by
  refine shifts_nest fun more more' hmore => shifts_kind fun k => ?_
  split
  · exact hitem.bind fun a => hmore.bind fun as => shifts_pure rfl
  · exact shifts_pure rfl

/-- Something behind a mark, if the mark is next, and what comes after it. -/
theorem shifts_skipThen {α' β' : Type} {k : Kind} {m : α → β} {n : α' → β'} {p : Parser α}
    {p' : Parser β} {f : Option α → Parser α'} {f' : Option β → Parser β'}
    (hp : Shifts φ true m p p') (hf : ∀ o, Shifts φ true n (f o) (f' (o.map m))) :
    Shifts φ true n
      (skip? k >>= fun found => if found then (some <$> p) >>= f else pure none >>= f)
      (skip? k >>= fun found => if found then (some <$> p') >>= f' else pure none >>= f') := by
  refine (shifts_skip? k).bind fun found => ?_
  cases found with
  | true =>
    have hsome : Shifts φ true (Option.map m) (some <$> p) (some <$> p') := hp.map fun _ => rfl
    exact hsome.bind hf
  | false => exact hf none

/-! ### Comments -/

theorem shifts_takeComments :
    Shifts φ true (List.map (Comment.relocate φ.move)) takeComments takeComments := by
  intro s s' h hne
  rw [takeComments_run, takeComments_run, h.comments]
  exact .ok h.commented (hne rfl)

end FrontEnd.Parser
