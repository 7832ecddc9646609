/-
Reading the same tokens twice.

* `Mirrored` — the second outcome is that of the first run, unless the first run came behind the
  tokens that are compared;
* `Mirrors` — the second parser does what the first one does, as long as the first one does not
  come behind the tokens that are compared.

A parser that is `firm` never comes behind them, whether it succeeds or fails.  Types are read
firmly, as they are also read on trial: a run on trial that looked farther than the other one
could come to another decision.
-/
import FrontEnd.Proofs.Parser.Comparing
import FrontEnd.Proofs.Parser.Unrolling

namespace FrontEnd.Parser

variable {α β γ δ : Type} {c : Comparison} {s s' t t' : State}

/-! ### Outcomes -/

/-- The diagnostic is about a generic argument that is not plain. -/
def malformed (d : Diagnostic) : Bool :=
  match d.cause with
  | .malformedGeneric _ => true
  | _ => false

/-- The second outcome mirrors the first one, if that is compared.  A failure is mirrored only if
the next token is the same wherever runs are compared.  A `firm` outcome never lies behind the
stretch, and is always mirrored. -/
structure Mirrored (c : Comparison) (firm : Bool) (m : α → β) (r r' : Outcome α) : Prop where
  ok : ∀ a t, r = .ok a t → firm ∨ c.Compared t →
    ∃ b t', r' = .ok b t' ∧ Alike c.placed m a b ∧ Paired c t t'
  error : ∀ d t, r = .error d t → firm ∨ c.Sure ∧ c.Compared t →
    ∃ d' t', r' = .error d' t' ∧ Paired c t t' ∧ malformed d' = malformed d ∧
      (c.Sure → c.Compared t → Alike c.placed (Diagnostic.relocate unplaced) d d')

section

variable {firm : Bool} {m : α → β} {a b : α} {d d' : Diagnostic} {r' : Outcome α}

theorem mirrored_ok (halike : Alike c.placed m a b) (h : firm ∨ c.Compared t → Paired c t t') :
    Mirrored c firm m (.ok a t) (.ok b t') where
  ok _ _ hr hwhere := by
    obtain ⟨rfl, rfl⟩ := EStateM.Result.ok.inj hr
    exact ⟨b, t', rfl, halike, h hwhere⟩
  error _ _ hr := nomatch hr

theorem mirrored_error (h : Paired c t t') (hmalformed : malformed d' = malformed d)
    (hd : c.Sure → c.Compared t → Alike c.placed (Diagnostic.relocate unplaced) d d') :
    Mirrored c firm m (.error d t) (.error d' t') where
  ok _ _ hr := nomatch hr
  error _ _ hr _ := by
    obtain ⟨rfl, rfl⟩ := EStateM.Result.error.inj hr
    exact ⟨d', t', rfl, h, hmalformed, hd⟩

/-- What lies behind the stretch is not compared. -/
theorem mirrored_behind (hnot : ¬ c.Within t) : Mirrored c false m (.ok a t) r' where
  ok _ _ hr hwhere := by
    obtain ⟨rfl, rfl⟩ := EStateM.Result.ok.inj hr
    exact absurd (hwhere.resolve_left (by simp)).within hnot
  error _ _ hr := nomatch hr

/-- Failures are not compared where the next tokens differ. -/
theorem mirrored_inexact (hnot : ¬ c.Started t) : Mirrored c false m (.error d t) r' where
  ok _ _ hr := nomatch hr
  error _ _ hr hwhere := by
    obtain ⟨rfl, rfl⟩ := EStateM.Result.error.inj hr
    obtain ⟨hsure, hcompared⟩ := hwhere.resolve_left (by simp)
    exact absurd (hsure.started hcompared) hnot

/-- A run is not compared that starts where the next tokens differ. -/
theorem mirrored_unstarted {r : Outcome α} (hsure : c.Sure) (hnot : ¬ c.Started s)
    (hle : tokensLeft r ≤ s.rest.length) : Mirrored c false m r r' where
  ok _ t hr hwhere := by
    rw [hr] at hle
    have hcompared : c.Compared s := (hwhere.resolve_left (by simp)).of_le hle
    exact absurd (hsure.started hcompared) hnot
  error _ t hr hwhere := by
    rw [hr] at hle
    have hcompared : c.Compared s := (hwhere.resolve_left (by simp)).2.of_le hle
    exact absurd (hsure.started hcompared) hnot

end

/-! ### Parsers -/

/-- The second parser does what the first one does.  It starts where the first one satisfies
`pre`. -/
structure Mirrors (c : Comparison) (pre : State → Prop) (firm : Bool) (m : α → β)
    (p p' : Parser α) : Prop where
  steady : Steady p
  run : ∀ s s', Paired c s s' → pre s → Mirrored c firm m (p s) (p' s')

/-- Nothing is asked of the state where a parser starts. -/
def anywhere (_ : State) : Prop := True

section

variable {pre : State → Prop} {firm : Bool} {m : α → β} {n : γ → δ} {p p' : Parser α}
  {f f' : α → Parser γ}

theorem Mirrors.mono {pre' : State → Prop} (h : Mirrors c pre firm m p p')
    (hpre : ∀ s s', Paired c s s' → pre' s → pre s) : Mirrors c pre' firm m p p' :=
  ⟨h.steady, fun s s' hs hs' => h.run s s' hs (hpre s s' hs hs')⟩

theorem Mirrors.weaken (h : Mirrors c anywhere firm m p p') : Mirrors c pre firm m p p' :=
  h.mono fun _ _ _ _ => trivial

/-- A firm parser is also one that is not. -/
theorem Mirrors.loose (h : Mirrors c pre true m p p') : Mirrors c pre firm m p p' :=
  ⟨h.steady, fun s s' hs hs' =>
    ⟨fun a t hr _ => (h.run s s' hs hs').ok a t hr (.inl rfl),
      fun d t hr _ => (h.run s s' hs hs').error d t hr (.inl rfl)⟩⟩

/-- What follows a parser starts where it succeeds. -/
theorem Mirrors.bind_of (post : State → Prop) (hp : Mirrors c pre firm m p p')
    (hf : ∀ a b, Alike c.placed m a b → Mirrors c post firm n (f a) (f' b))
    (hpost : ∀ s s' a t, Paired c s s' → pre s → p s = .ok a t → c.Within t → post t) :
    Mirrors c pre firm n (p >>= f) (p' >>= f') := by
  have hsteady : ∀ a, Steady (f a) := fun a => (hf a a (.refl m a)).steady
  refine ⟨fun s => ?_, fun s s' hs hpre => ?_⟩
  · have hle := hp.steady s
    rw [bind_run]
    cases hrun : p s with
    | error d t => rwa [hrun] at hle
    | ok a t =>
      rw [hrun] at hle
      exact Nat.le_trans (hsteady a t) hle
  have hfirst := hp.run s s' hs hpre
  cases hrun : p s with
  | error d t =>
    rw [bind_of_error hrun]
    refine ⟨fun _ _ hr => (nomatch hr), fun d₁ t₁ hr hwhere => ?_⟩
    obtain ⟨rfl, rfl⟩ := EStateM.Result.error.inj hr
    obtain ⟨d', t', hrun', ht⟩ := hfirst.error d t hrun hwhere
    exact ⟨d', t', bind_of_error hrun', ht⟩
  | ok a t =>
    rw [bind_of_ok hrun]
    have hle := hsteady a t
    -- If the whole is compared, so is its first part.
    have hgo : firm ∨ c.Compared t → ∃ b t', (p' >>= f') s' = f' b t' ∧
        Mirrored c firm n (f a t) (f' b t') := by
      intro hwhere
      obtain ⟨b, t', hrun', halike, ht⟩ := hfirst.ok a t hrun hwhere
      exact ⟨b, t', bind_of_ok hrun',
        (hf a b halike).run t t' ht (hpost s s' a t hs hpre hrun ht.within)⟩
    refine ⟨fun b u hr hwhere => ?_, fun d u hr hwhere => ?_⟩
    · rw [hr] at hle
      obtain ⟨b', t', hrun', hthen⟩ := hgo (hwhere.imp_right fun h => h.of_le hle)
      rw [hrun']
      exact hthen.ok b u hr hwhere
    · rw [hr] at hle
      obtain ⟨b', t', hrun', hthen⟩ := hgo (hwhere.imp_right fun h => h.2.of_le hle)
      rw [hrun']
      exact hthen.error d u hr hwhere

/-- One parser after another. -/
theorem Mirrors.bind (hp : Mirrors c pre firm m p p')
    (hf : ∀ a b, Alike c.placed m a b → Mirrors c anywhere firm n (f a) (f' b)) :
    Mirrors c pre firm n (p >>= f) (p' >>= f') :=
  hp.bind_of anywhere hf fun _ _ _ _ _ _ _ _ => trivial

theorem mirrors_pure {a b : α} (h : Alike c.placed m a b) :
    Mirrors c pre firm m (pure a) (pure b) :=
  ⟨steady_pure a, fun _ _ hs _ => mirrored_ok h fun _ => hs⟩

theorem Mirrors.map {g g' : α → γ} (hp : Mirrors c pre firm m p p')
    (h : ∀ a b, Alike c.placed m a b → Alike c.placed n (g a) (g' b)) :
    Mirrors c pre firm n (g <$> p) (g' <$> p') := by
  have hbind : Mirrors c pre firm n (p >>= fun a => pure (g a)) (p' >>= fun b => pure (g' b)) :=
    hp.bind fun a b hab => mirrors_pure (h a b hab)
  refine ⟨fun s => ?_, fun s s' hs hpre => ?_⟩
  · rw [map_run]
    exact hbind.steady s
  · rw [map_run, map_run]
    exact hbind.run s s' hs hpre

theorem mirrors_throw {d d' : Diagnostic} (hmalformed : malformed d' = malformed d)
    (hd : Alike c.placed (Diagnostic.relocate unplaced) d d') :
    Mirrors c pre firm m (throw d) (throw d') :=
  ⟨steady_throw d, fun _ _ hs _ => mirrored_error hs hmalformed fun _ _ => hd⟩

theorem Paired.unexpected (h : Paired c s s') (hstarted : c.Started s) (production : String)
    (expected : List Kind) :
    Alike c.placed (Diagnostic.relocate unplaced) (s.unexpected production expected)
      (s'.unexpected production expected) := by
  have hcurrent := h.current hstarted
  refine ⟨fun hp => by rw [State.unexpected, State.unexpected, hcurrent.same hp], ?_⟩
  simp only [State.unexpected, Diagnostic.relocate, hcurrent.display_eq]
  rfl

theorem mirrors_unexpected (production : String) (expected : List Kind) :
    Mirrors c pre firm m (unexpected production expected) (unexpected production expected) :=
  ⟨steady_unexpected _ _, fun _ _ hs _ =>
    mirrored_error hs rfl fun hsure hcompared =>
      hs.unexpected (hsure.started hcompared) production expected⟩

/-- A run that starts at the semicolon where the next tokens differ is not compared if it fails or
consumes that semicolon. -/
theorem Paired.mirrored_of_movesOn {r' : Outcome α} (hs : Paired c s s')
    (hstarted : ¬ c.Started s) (hsteady : Steady p) (hmoves : MovesOn s p) :
    Mirrored c false m (p s) r' := by
  obtain ⟨hbefore, hexact⟩ := not_or.mp hstarted
  have hrest := (hs.of_not_before hbefore).1
  have hle := hsteady s
  cases hrun : p s with
  | error d t =>
    rw [hrun] at hle
    exact mirrored_inexact (not_or.mpr ⟨fun hlt => hbefore (Nat.lt_of_lt_of_le hlt hle), hexact⟩)
  | ok a t =>
    refine mirrored_behind fun hwithin => ?_
    have hlt := hmoves a t hrun
    rw [Comparison.Within, ← hrest] at hwithin
    omega

/-- Where the next tokens differ, a parser that fails at a semicolon or consumes it comes to
nothing that is compared. -/
theorem Mirrors.of_started (hend : ∀ s, s.current.kind = .symbol .semicolon → MovesOn s p)
    (h : Mirrors c c.Started false m p p') : Mirrors c pre false m p p' := by
  refine ⟨h.steady, fun s s' hs _ => ?_⟩
  by_cases hstarted : c.Started s
  · exact h.run s s' hs hstarted
  obtain ⟨hbefore, hexact⟩ := not_or.mp hstarted
  refine hs.mirrored_of_movesOn hstarted h.steady (hend s ?_)
  rw [(hs.of_not_before hbefore).2.2.1]
  exact (Comparison.semicolon_of_not_exact hexact).1

/-! Looking at the state. -/

/-- A decision by the next token, which does not tell what can follow a statement from a
semicolon. -/
theorem mirrors_kind {f f' : Kind → Parser α}
    (hblind : ∀ k ∈ followers, f' k = f' (.symbol .semicolon))
    (hf : ∀ k, Mirrors c (fun s => pre s ∧ s.current.kind = k) firm m (f k) (f' k)) :
    Mirrors c pre firm m (kind >>= f) (kind >>= f') := by
  refine ⟨fun s => (hf s.current.kind).steady s, fun s s' hs hpre => ?_⟩
  have hrun := (hf s.current.kind).run s s' hs ⟨hpre, rfl⟩
  show Mirrored c firm m (f s.current.kind s) (f' s'.current.kind s')
  rcases hs.kinds with hkind | ⟨hkind, hkind'⟩
  · rwa [← hkind]
  · rwa [hblind _ hkind', ← hkind]

/-- A decision whether a token is next that is none that follows a statement. -/
theorem mirrors_kind_eq {wanted : Kind} {q q' : Parser α}
    (hwanted : wanted ∉ .symbol .semicolon :: followers)
    (hp : Mirrors c (fun s => pre s ∧ s.current.kind = wanted) firm m p p')
    (hq : Mirrors c pre firm m q q') :
    Mirrors c pre firm m (kind >>= fun k => if k = wanted then p else q)
      (kind >>= fun k => if k = wanted then p' else q') := by
  have hne : ∀ k ∈ Kind.symbol .semicolon :: followers, k ≠ wanted := by
    rintro k hk rfl
    exact hwanted hk
  refine mirrors_kind (fun k hk => ?_) fun k => ?_
  · rw [if_neg (hne k (List.mem_cons_of_mem _ hk)), if_neg (hne _ List.mem_cons_self)]
  · split
    · next h =>
      subst h
      exact hp
    · exact hq.mono fun _ _ _ h => h.1

/-- A decision by the next token where it is the same. -/
theorem mirrors_kind_started {f f' : Kind → Parser α}
    (hf : ∀ k, Mirrors c (fun s => c.Started s ∧ s.current.kind = k) firm m (f k) (f' k)) :
    Mirrors c c.Started firm m (kind >>= f) (kind >>= f') := by
  refine ⟨fun s => (hf s.current.kind).steady s, fun s s' hs hstarted => ?_⟩
  show Mirrored c firm m (f s.current.kind s) (f' s'.current.kind s')
  rw [← (hs.current hstarted).kind_eq]
  exact (hf s.current.kind).run s s' hs ⟨hstarted, rfl⟩

theorem Paired.peek_kinds (h : Paired c s s') (hbefore : c.Before s) :
    (s.peek 1).kind = (s'.peek 1).kind ∨
      (s.peek 1).kind = .symbol .semicolon ∧ (s'.peek 1).kind ∈ followers := by
  rcases h.next with ⟨x, us, x', us', hrest, hrest', -, hus, -⟩ | ⟨hrest, -⟩
  · have hpeek : ∀ {u : State} {y : Token} {ys : List Token}, u.rest = y :: ys →
        u.peek 1 = ys.headD u.eof := by
      intro u y ys hu
      unfold State.peek
      rw [hu]
      cases ys <;> rfl
    rw [hpeek hrest, hpeek hrest', h.eof, h.eof']
    cases us with
    | nil =>
      obtain rfl := hus.eq_nil
      by_cases hexact : c.Exact
      · exact .inl hexact.kind_eq
      · exact .inr (Comparison.semicolon_of_not_exact hexact)
    | cons y ys =>
      obtain ⟨y', ys', rfl, hy, -⟩ := hus.exists_cons
      exact .inl hy.kind_eq
  · rw [Comparison.Before, hrest] at hbefore
    omega

/-- A decision by the token after a token of the stretch. -/
theorem mirrors_peekKind {f f' : Kind → Parser α}
    (hblind : ∀ k ∈ followers, f' k = f' (.symbol .semicolon))
    (hf : ∀ k, Mirrors c c.Before firm m (f k) (f' k)) :
    Mirrors c c.Before firm m (peekKind 1 >>= f) (peekKind 1 >>= f') := by
  refine ⟨fun s => (hf (s.peek 1).kind).steady s, fun s s' hs hbefore => ?_⟩
  have hrun := (hf (s.peek 1).kind).run s s' hs hbefore
  show Mirrored c firm m (f (s.peek 1).kind s) (f' (s'.peek 1).kind s')
  rcases hs.peek_kinds hbefore with hkind | ⟨hkind, hkind'⟩
  · rwa [← hkind]
  · rwa [hblind _ hkind', ← hkind]

/-- A decision that does not depend on the token it looks at. -/
theorem mirrors_peekKind_const {f f' : Kind → Parser α} (hf : ∀ k, f k = p) (hf' : ∀ k, f' k = p')
    (h : Mirrors c pre firm m p p') :
    Mirrors c pre firm m (peekKind 1 >>= f) (peekKind 1 >>= f') := by
  refine ⟨fun s => ?_, fun s s' hs hs' => ?_⟩
  · show tokensLeft (f (s.peek 1).kind s) ≤ _
    rw [hf]
    exact h.steady s
  · show Mirrored c firm m (f (s.peek 1).kind s) (f' (s'.peek 1).kind s')
    rw [hf, hf']
    exact h.run s s' hs hs'

/-- A decision by the next two tokens, of which the second does not matter where a stretch can
end. -/
theorem mirrors_kind_peekKind {f f' : Kind → Kind → Parser α}
    (hends : ∀ k ∈ ends, ∀ next, f k next = p ∧ f' k next = p')
    (hblind : ∀ k, ∀ next ∈ followers, f' k next = f' k (.symbol .semicolon))
    (hp : ∀ {pre : State → Prop}, Mirrors c pre firm m p p')
    (hf : ∀ k next, Mirrors c c.Before firm m (f k next) (f' k next)) :
    Mirrors c c.Started firm m (kind >>= fun k => peekKind 1 >>= f k)
      (kind >>= fun k => peekKind 1 >>= f' k) := by
  refine mirrors_kind_started fun k => ?_
  by_cases hk : k ∈ ends
  · exact mirrors_peekKind_const (fun next => (hends k hk next).1) (fun next => (hends k hk next).2) hp
  · exact (mirrors_peekKind (hblind k) (hf k)).mono fun s s' hs h => hs.before_of_kind (h.2 ▸ hk)

theorem mirrors_position {f f' : Position → Parser α}
    (hf : ∀ p p', Alike c.placed unplaced p p' → Mirrors c c.Started firm m (f p) (f' p')) :
    Mirrors c c.Started firm m (position >>= f) (position >>= f') :=
  ⟨fun s => (hf s.position s.position (.refl _ _)).steady s, fun s s' hs hstarted =>
    (hf s.position s'.position (hs.current hstarted).start_eq).run s s' hs hstarted⟩

theorem mirrors_spanFrom {start start' : Position} (h : Alike c.placed unplaced start start') :
    Mirrors c pre firm (Span.relocate unplaced) (spanFrom start) (spanFrom start') :=
  ⟨fun _ => Nat.le_refl _, fun _ _ hs _ => mirrored_ok (hs.spanFrom h) fun _ => hs⟩

theorem mirrors_ite {P : Prop} [Decidable P] {q q' : Parser α} (hp : Mirrors c pre firm m p p')
    (hq : Mirrors c pre firm m q q') :
    Mirrors c pre firm m (if P then p else q) (if P then p' else q') := by
  split
  · exact hp
  · exact hq

/-! Consuming tokens. -/

theorem mirrors_advance : Mirrors c pre false (Token.relocate unplaced) advance advance := by
  refine ⟨steady_advance, fun s s' hs _ => ?_⟩
  show Mirrored c false _ (.ok s.current s.advance) (.ok s'.current s'.advance)
  by_cases hwithin : c.Within s.advance
  · exact mirrored_ok (hs.current (hs.started_of_advance hwithin)) fun _ => hs.advance hwithin
  · exact mirrored_behind hwithin

theorem mirrors_advance_before :
    Mirrors c c.Before true (Token.relocate unplaced) advance advance :=
  ⟨steady_advance, fun _ _ hs hbefore =>
    mirrored_ok (hs.current (.inl hbefore)) fun _ => hs.advance hbefore.within_advance⟩

theorem malformed_notFound (s : State) (production : String) (expected : Kind) :
    malformed (s.notFound production expected) = false := by
  unfold State.notFound
  split <;> rfl

theorem Paired.notFound (h : Paired c s s') (hstarted : c.Started s) (production : String)
    (expected : Kind) :
    Alike c.placed (Diagnostic.relocate unplaced) (s.notFound production expected)
      (s'.notFound production expected) := by
  have hcurrent := h.current hstarted
  refine ⟨fun hp => ?_, ?_⟩
  · unfold State.notFound
    simp only [State.notFound.missing, State.unexpected, hcurrent.same hp]
  · unfold State.notFound
    split <;> simp only [State.notFound.missing, State.unexpected, Diagnostic.relocate,
      hcurrent.display_eq] <;> rfl

/-- A token that is expected is there on both sides or on none, where the next one is the same. -/
theorem Paired.expect (h : Paired c s s') (hstarted : c.Started s) (expected : Kind)
    (production : String) (hwithin : firm → c.Within s.advance ∨ s.current.kind ≠ expected) :
    Mirrored c firm (Token.relocate unplaced) (Parser.expect expected production s)
      (Parser.expect expected production s') := by
  rw [expect_run, expect_run, ← (h.current hstarted).kind_eq]
  split
  · next hkind =>
    refine mirrored_ok (h.current hstarted) fun hwhere => h.advance ?_
    exact hwhere.elim (fun hfirm => (hwithin hfirm).resolve_right (fun h => h hkind))
      Comparison.Compared.within
  · refine mirrored_error h ?_ fun _ _ => h.notFound hstarted production expected
    rw [malformed_notFound, malformed_notFound]

theorem mirrors_expect (expected : Kind) (production : String) :
    Mirrors c pre false (Token.relocate unplaced) (expect expected production)
      (expect expected production) := by
  refine ⟨steady_expect _ _, fun s s' hs _ => ?_⟩
  by_cases hstarted : c.Started s
  · exact hs.expect hstarted expected production (by simp)
  rw [expect_run]
  split
  · exact mirrored_behind fun hwithin => hstarted (hs.started_of_advance hwithin)
  · exact mirrored_inexact hstarted

/-- A token of a kind that neither ends a stretch nor follows a statement. -/
theorem mirrors_expect_firm {expected : Kind} (hk : expected ∉ ends ∧ expected ∉ followers)
    (production : String) :
    Mirrors c pre true (Token.relocate unplaced) (expect expected production)
      (expect expected production) := by
  refine ⟨steady_expect _ _, fun s s' hs _ => ?_⟩
  by_cases hbefore : c.Before s
  · exact hs.expect (.inl hbefore) expected production fun _ => .inl hbefore.within_advance
  obtain ⟨-, -, hcurrent, hcurrent'⟩ := hs.of_not_before hbefore
  have hkind : s.current.kind ≠ expected := by
    rw [hcurrent]
    rintro rfl
    exact hk.1 c.kind_mem
  by_cases hexact : c.Exact
  · exact hs.expect (.inr hexact) expected production fun _ => .inr hkind
  · have hkind' : s'.current.kind ≠ expected := by
      rw [hcurrent']
      rintro rfl
      exact hk.2 (Comparison.semicolon_of_not_exact hexact).2
    rw [expect_run, expect_run, if_neg hkind, if_neg hkind']
    refine mirrored_error hs ?_ fun hsure hcompared => ?_
    · rw [malformed_notFound, malformed_notFound]
    · exact absurd (hsure.started hcompared) (not_or.mpr ⟨hbefore, hexact⟩)

/-- A token inside the stretch, or one that does not end it. -/
theorem mirrors_expect_of {expected : Kind}
    (hpre : ∀ s s', Paired c s s' → pre s → c.Before s ∨ c.Exact ∧ c.head.kind ≠ expected)
    (production : String) :
    Mirrors c pre true (Token.relocate unplaced) (expect expected production)
      (expect expected production) := by
  refine ⟨steady_expect _ _, fun s s' hs hs' => ?_⟩
  by_cases hbefore : c.Before s
  · exact hs.expect (.inl hbefore) expected production fun _ => .inl hbefore.within_advance
  · obtain ⟨hexact, hkind⟩ := (hpre s s' hs hs').resolve_left hbefore
    refine hs.expect (.inr hexact) expected production fun _ => .inr ?_
    rwa [(hs.of_not_before hbefore).2.2.1]

theorem mirrors_expect_before (expected : Kind) (production : String) :
    Mirrors c c.Before true (Token.relocate unplaced) (expect expected production)
      (expect expected production) :=
  mirrors_expect_of (fun _ _ _ hbefore => .inl hbefore) production

/-- What is read behind a token that a type is read behind starts before the stretch ends. -/
theorem Paired.started_behind (h : Paired c s s') (hk : s.current.kind ∈ openers)
    (hwithin : c.Within s.advance) : c.Started s.advance := by
  by_contra hnot
  obtain ⟨hbefore, hexact⟩ := not_or.mp hnot
  have hproper : s.current.kind ≠ .eof := by
    intro heof
    rw [heof] at hk
    exact absurd hk (by decide)
  have hlt := length_rest_advance hproper
  rcases h.next with ⟨x, us, x', us', hrest, -, -, -, hguard⟩ | ⟨hrest, -⟩
  · have hcurrent : s.current = x := current_of_rest hrest
    have hadvance : s.advance.rest = us ++ c.rest := rest_advance hrest (hcurrent ▸ hproper)
    -- Nothing of the stretch is left, so that the token is its last.
    have hnil : us = [] := by
      rw [Comparison.Before, hadvance, List.length_append] at hbefore
      exact List.eq_nil_of_length_eq_zero (by omega)
    exact hexact (hguard.last x (by simp [hnil]) (hcurrent ▸ hk))
  · rw [Comparison.Within, ← hrest] at hwithin
    omega

/-- A token that a type is read behind, and what comes after it. -/
theorem mirrors_opener {f f' : Token → Parser α} {expected : Kind} {production : String}
    (hk : expected ∈ openers)
    (hp : Mirrors c pre firm (Token.relocate unplaced) (expect expected production)
      (expect expected production))
    (hf : ∀ a b, Alike c.placed (Token.relocate unplaced) a b →
      Mirrors c c.Started firm m (f a) (f' b)) :
    Mirrors c pre firm m (expect expected production >>= f)
      (expect expected production >>= f') := by
  refine hp.bind_of c.Started hf fun s s' a t hs _ hrun hwithin => ?_
  obtain ⟨hkind, -, rfl⟩ := expect_eq_ok hrun
  exact hs.started_behind (hkind ▸ hk) hwithin

theorem skip?_run (wanted : Kind) (s : State) :
    skip? wanted s = if s.current.kind = wanted then .ok true s.advance else .ok false s := by
  show (if s.current.kind = wanted then _ else _ : Parser Bool) s = _
  split <;> rfl

theorem mirrors_skip? {wanted : Kind} (hk : wanted ∉ followers ∨ c.Sure) :
    Mirrors c pre false id (skip? wanted) (skip? wanted) := by
  refine ⟨steady_skip? wanted, fun s s' hs _ => ?_⟩
  rw [skip?_run, skip?_run]
  by_cases hstarted : c.Started s
  · rw [← (hs.current hstarted).kind_eq]
    split
    · refine mirrored_ok (.refl _ _) fun hwhere => hs.advance ?_
      exact (hwhere.resolve_left (by simp)).within
    · exact mirrored_ok (.refl _ _) fun _ => hs
  · obtain ⟨hbefore, hexact⟩ := not_or.mp hstarted
    split
    · exact mirrored_behind fun hwithin => hstarted (hs.started_of_advance hwithin)
    · rcases hk with hk | hsure
      · -- A token that follows a statement is none that is wanted.
        have hkind' : s'.current.kind ≠ wanted := by
          rw [(hs.of_not_before hbefore).2.2.2]
          rintro rfl
          exact hk (Comparison.semicolon_of_not_exact hexact).2
        rw [if_neg hkind']
        exact mirrored_ok (.refl _ _) fun _ => hs
      · exact mirrored_unstarted hsure hstarted (Nat.le_refl _)

/-! ### Trying, repetition and recursion -/

theorem mirrors_speculate (hp : Mirrors c pre true m p p') :
    Mirrors c pre firm (Option.map m) (speculate p) (speculate p') := by
  refine ⟨fun s => ?_, fun s s' hs hs' => ?_⟩
  · rw [speculate_run]
    cases p s <;> exact Nat.le_refl _
  · have hrun := hp.run s s' hs hs'
    rw [speculate_run, speculate_run]
    cases hr : p s with
    | ok a t =>
      obtain ⟨b, t', hr', halike, ht⟩ := hrun.ok a t hr (.inl rfl)
      rw [hr']
      refine mirrored_ok ⟨fun hp => by rw [halike.same hp], ?_⟩ fun _ => hs.restore ht
      exact congrArg some halike.shown
    | error d t =>
      obtain ⟨d', t', hr', ht, -⟩ := hrun.error d t hr (.inl rfl)
      rw [hr']
      exact mirrored_ok (.refl _ _) fun _ => hs.restore ht

end

/-- Two pairs of states have come equally far on both sides. -/
theorem Paired.length_lt_iff (h : Paired c s s') (h' : Paired c t t') :
    t.rest.length < s.rest.length ↔ t'.rest.length < s'.rest.length := by
  have hs := h.length_rest
  have ht := h'.length_rest
  omega

/-- A recursive call made on both sides with progress, or on both without. -/
theorem Paired.guarded {firm : Bool} {m : α → β} {p p' : Parser α} {n n' : Nat}
    (h : Paired c s s') (hn : s.rest.length < n ↔ s'.rest.length < n')
    (hp : s.rest.length < n → Mirrored c firm m (p s) (p' s')) :
    Mirrored c firm m (Parser.guarded n p s) (Parser.guarded n' p' s') := by
  unfold Parser.guarded
  by_cases hlt : s.rest.length < n
  · rw [if_pos hlt, if_pos (hn.mp hlt)]
    exact hp hlt
  · rw [if_neg hlt, if_neg fun h => hlt (hn.mpr h)]
    exact mirrored_error h rfl fun hsure hcompared => h.unexpected (hsure.started hcompared) _ _

theorem tokensLeft_guarded {p : Parser α} {n : Nat} {s : State}
    (h : s.rest.length < n → tokensLeft (p s) ≤ s.rest.length) :
    tokensLeft (guarded n p s) ≤ s.rest.length := by
  unfold guarded
  split
  · next hlt => exact h hlt
  · exact Nat.le_refl _

/-- Recursion: parsers whose bodies mirror each other, their recursive calls doing so, mirror
each other.  What is known of the first parser can be used for its recursive calls. -/
theorem mirrors_fix_of {pre : State → Prop} {firm : Bool} {l : α → δ} {m : β → γ}
    (known : Parser β → Prop) {body body' : (α → Parser β) → α → Parser β}
    (hknown : ∀ n a, known (guarded n (fix body a)))
    (hbody : ∀ self self' : α → Parser β, (∀ a, known (self a)) →
      (∀ a a', Alike c.placed l a a' → Mirrors c pre firm m (self a) (self' a')) →
        ∀ a a', Alike c.placed l a a' → Mirrors c pre firm m (body self a) (body' self' a'))
    {a a' : α} (ha : Alike c.placed l a a') :
    Mirrors c pre firm m (fix body a) (fix body' a') := by
  -- The guard counts the tokens that are left, which differ by those behind the stretch.
  have hall : ∀ n a a', Alike c.placed l a a' →
      (∀ s, s.rest.length < n → tokensLeft (fix body a s) ≤ s.rest.length) ∧
      ∀ s s', s.rest.length < n → Paired c s s' → pre s →
        Mirrored c firm m (fix body a s) (fix body' a' s') := by
    intro n
    induction n with
    | zero => exact fun _ _ _ => ⟨fun _ h => absurd h (by omega), fun _ _ h => absurd h (by omega)⟩
    | succ n ih =>
      intro a a' ha
      have hself : ∀ b b', Alike c.placed l b b' → Mirrors c pre firm m (guarded n (fix body b))
          (guarded (n + c.rest'.length - c.rest.length) (fix body' b')) := by
        intro b b' hb
        refine ⟨fun s => tokensLeft_guarded fun hlt => (ih b b' hb).1 s hlt, fun s s' hs hpre => ?_⟩
        have hlen := hs.length_rest
        have hwithin : c.rest.length ≤ s.rest.length := hs.within
        exact hs.guarded (by omega) fun hlt => (ih b b' hb).2 s s' hlt hs hpre
      have hgo := hbody _ _ (hknown n) hself a a' ha
      refine ⟨fun s hs => ?_, fun s s' hs hpaired hpre => ?_⟩
      · by_cases hlt : s.rest.length < n
        · exact (ih a a' ha).1 s hlt
        · rw [fix_run, show s.rest.length = n by omega]
          exact Nat.le_trans (hgo.steady s) (by omega)
      · by_cases hlt : s.rest.length < n
        · exact (ih a a' ha).2 s s' hlt hpaired hpre
        · have hlen := hpaired.length_rest
          rw [fix_run, fix_run, show s.rest.length = n by omega,
            show s'.rest.length = n + c.rest'.length - c.rest.length by omega]
          exact hgo.run s s' hpaired hpre
  refine ⟨fun s => (hall _ a a' ha).1 s (Nat.lt_succ_self _), fun s s' hs hpre => ?_⟩
  exact (hall _ a a' ha).2 s s' (Nat.lt_succ_self _) hs hpre

theorem mirrors_fix {pre : State → Prop} {firm : Bool} {l : α → δ} {m : β → γ}
    {body body' : (α → Parser β) → α → Parser β}
    (hbody : ∀ self self' : α → Parser β,
      (∀ a a', Alike c.placed l a a' → Mirrors c pre firm m (self a) (self' a')) →
        ∀ a a', Alike c.placed l a a' → Mirrors c pre firm m (body self a) (body' self' a'))
    {a a' : α} (ha : Alike c.placed l a a') :
    Mirrors c pre firm m (fix body a) (fix body' a') :=
  mirrors_fix_of (fun _ => True) (fun _ _ => trivial)
    (fun self self' _ hself => hbody self self' hself) ha

theorem mirrors_nest {pre : State → Prop} {firm : Bool} {m : β → γ}
    {body body' : Parser β → Parser β}
    (hbody : ∀ self self', Mirrors c pre firm m self self' →
      Mirrors c pre firm m (body self) (body' self')) :
    Mirrors c pre firm m (nest body) (nest body') :=
  mirrors_fix (l := id) (fun self self' hself _ _ _ =>
    hbody (self ()) (self' ()) (hself () () (.refl _ _))) (.refl _ _)

theorem steady_manyWhile {wanted : Kind → Bool} {item : Parser α} (h : Steady item) :
    Steady (manyWhile wanted item) := fun s =>
  (agree_manyWhile (h.agree (s.rest.length + 1)) s (Nat.lt_succ_self _)).2

/-- Repetition consumes a token, unless there is no item or an item fails. -/
theorem movesOn_manyWhile {wanted : Kind → Bool} {item : Parser α}
    (hsteady : Steady (manyWhile wanted item)) (hwanted : wanted s.current.kind) :
    MovesOn s (manyWhile wanted item) := by
  intro as t hrun
  rw [manyWhile_run, if_pos hwanted] at hrun
  obtain ⟨a, u, -, hrun⟩ := bind_eq_ok hrun
  obtain ⟨bs, v, hguard, hpure⟩ := bind_eq_ok hrun
  obtain ⟨-, rfl⟩ := EStateM.Result.ok.inj hpure
  obtain ⟨hlt, hmore⟩ := guarded_eq_ok hguard
  have hle := hsteady u
  rw [hmore] at hle
  exact Nat.lt_of_le_of_lt hle hlt

/-- Repetition.  An item has to be mirrored only where the next token is the same, since an item
elsewhere starts at a semicolon and consumes it, if it succeeds at all. -/
theorem mirrors_manyWhile {pre : State → Prop} {wanted : Kind → Bool} {m : α → β}
    {item item' : Parser α}
    (hwanted : (∀ k ∈ followers, wanted k → wanted (.symbol .semicolon)) ∨ c.Sure)
    (hitem : Mirrors c c.Started false m item item') :
    Mirrors c pre false (List.map m) (manyWhile wanted item) (manyWhile wanted item') := by
  have hsteady : Steady (manyWhile wanted item) := steady_manyWhile hitem.steady
  refine ⟨hsteady, fun s s' hs hpre => ?_⟩
  clear hpre
  induction hn : s.rest.length using Nat.strong_induction_on generalizing s s' with
  | _ n ih =>
    by_cases hstarted : c.Started s
    · rw [manyWhile_run, manyWhile_run, ← (hs.current hstarted).kind_eq]
      split
      · have hmore : Mirrors c anywhere false (List.map m)
            (guarded s.rest.length (manyWhile wanted item))
            (guarded s'.rest.length (manyWhile wanted item')) :=
          ⟨fun t => tokensLeft_guarded fun _ => hsteady t, fun t t' ht _ =>
            ht.guarded (hs.length_lt_iff ht) fun hlt => ih _ (hn ▸ hlt) t t' ht rfl⟩
        refine (hitem.bind fun a b hab => ?_).run s s' hs hstarted
        exact hmore.bind fun as bs has => mirrors_pure (hab.cons has)
      · exact mirrored_ok (.refl _ _) fun _ => hs
    by_cases hitems : wanted s.current.kind
    · exact hs.mirrored_of_movesOn hstarted hsteady (movesOn_manyWhile hsteady hitems)
    rcases hwanted with hwanted | hsure
    case inr => exact mirrored_unstarted hsure hstarted (hsteady s)
    -- What is not wanted at a semicolon is not wanted at what follows a statement either.
    obtain ⟨hbefore, hexact⟩ := not_or.mp hstarted
    obtain ⟨-, -, hcurrent, hcurrent'⟩ := hs.of_not_before hbefore
    obtain ⟨hkind, hkind'⟩ := Comparison.semicolon_of_not_exact hexact
    have hitems' : ¬ wanted s'.current.kind := by
      rw [hcurrent, hkind] at hitems
      rw [hcurrent']
      exact fun h => hitems (hwanted _ hkind' h)
    rw [manyWhile_of_not (by simpa using hitems), manyWhile_of_not (by simpa using hitems')]
    exact mirrored_ok (.refl _ _) fun _ => hs

/-- Something behind a mark, if the mark is next, and what comes after it. -/
theorem mirrors_skipThen {pre : State → Prop} {k : Kind} {m : α → β} {n : γ → δ}
    {p p' : Parser α} {f f' : Option α → Parser γ} (hk : k ∉ followers ∨ c.Sure)
    (hp : Mirrors c anywhere false m p p')
    (hf : ∀ o o', Alike c.placed (Option.map m) o o' → Mirrors c anywhere false n (f o) (f' o')) :
    Mirrors c pre false n
      (skip? k >>= fun found => if found then (some <$> p) >>= f else pure none >>= f)
      (skip? k >>= fun found => if found then (some <$> p') >>= f' else pure none >>= f') := by
  refine (mirrors_skip? hk).bind fun found found' hfound => ?_
  obtain rfl : found = found' := hfound.shown
  cases found with
  | true =>
    refine Mirrors.bind (m := Option.map m) (hp.map fun a b hab => ?_) hf
    exact ⟨fun h => by rw [hab.same h], congrArg some hab.shown⟩
  | false => exact hf none none (.refl _ _)

/-! ### Where the next token is the same -/

/-- What can be seen of two states without consuming a token. -/
structure Seen (placed : Bool) (u u' : State) : Prop where
  kind : u'.current.kind = u.current.kind
  index : u'.index = u.index
  depth : u'.depth = u.depth
  position : Alike placed unplaced u.position u'.position

/-- What is shown of a parser that was tried. -/
def shownAttempt (m : α → β) : Except Diagnostic α → Except Diagnostic β
  | .ok a => .ok (m a)
  | .error d => .error (d.relocate unplaced)

theorem attempted_cases {placed : Bool} {m : α → β} {r r' : Except Diagnostic α}
    (h : Alike placed (shownAttempt m) r r') :
    (∃ a b, r = .ok a ∧ r' = .ok b ∧ Alike placed m a b) ∨
      ∃ d d', r = .error d ∧ r' = .error d' ∧ Alike placed (Diagnostic.relocate unplaced) d d' := by
  obtain ⟨hsame, hshown⟩ := h
  cases r with
  | ok a =>
    cases r' with
    | ok b =>
      exact .inl ⟨a, b, rfl, rfl, fun hp => Except.ok.inj (hsame hp), Except.ok.inj hshown⟩
    | error => exact nomatch hshown
  | error d =>
    cases r' with
    | ok => exact nomatch hshown
    | error d' =>
      exact .inr ⟨d, d', rfl, rfl, fun hp => Except.error.inj (hsame hp), Except.error.inj hshown⟩

section

variable {pre : State → Prop} {m : α → β} {p p' : Parser α} (hsure : c.Sure)

include hsure

/-- It is enough to look at runs that start where the next token is the same. -/
theorem Mirrors.of_sure (h : Mirrors c (fun s => pre s ∧ c.Started s) false m p p') :
    Mirrors c pre false m p p' := by
  refine ⟨h.steady, fun s s' hs hpre => ?_⟩
  by_cases hstarted : c.Started s
  · exact h.run s s' hs ⟨hpre, hstarted⟩
  · exact mirrored_unstarted hsure hstarted (h.steady s)

/-- A decision by what can be seen of the state. -/
theorem mirrors_get {f f' : State → Parser α}
    (hf : ∀ u u', Seen c.placed u u' → Mirrors c pre false m (f u) (f' u')) :
    Mirrors c pre false m (get >>= f) (get >>= f') := by
  refine .of_sure hsure ⟨fun s => (hf s s ⟨rfl, rfl, rfl, .refl _ _⟩).steady s, ?_⟩
  rintro s s' hs ⟨hpre, hstarted⟩
  have hcurrent := hs.current hstarted
  exact (hf s s' ⟨hcurrent.kind_eq.symm, hs.index, hs.depth, hcurrent.start_eq⟩).run s s' hs hpre

theorem mirrors_kind_sure {f f' : Kind → Parser α}
    (hf : ∀ k, Mirrors c pre false m (f k) (f' k)) :
    Mirrors c pre false m (kind >>= f) (kind >>= f') := by
  refine .of_sure hsure ⟨fun s => (hf s.current.kind).steady s, ?_⟩
  rintro s s' hs ⟨hpre, hstarted⟩
  show Mirrored c false m (f s.current.kind s) (f' s'.current.kind s')
  rw [← (hs.current hstarted).kind_eq]
  exact (hf s.current.kind).run s s' hs hpre

theorem mirrors_current : Mirrors c pre false (Token.relocate unplaced) current current :=
  .of_sure hsure ⟨fun _ => Nat.le_refl _, fun _ _ hs hpre =>
    mirrored_ok (hs.current hpre.2) fun _ => hs⟩

/-- A failure that becomes a value. -/
theorem mirrors_attempt (hp : Mirrors c pre false m p p') :
    Mirrors c pre false (shownAttempt m) (attempt p) (attempt p') := by
  refine ⟨fun s => ?_, fun s s' hs hpre => ?_⟩
  · have hle := hp.steady s
    unfold attempt
    cases hrun : p s <;> rwa [hrun] at hle
  · have hfirst := hp.run s s' hs hpre
    unfold attempt
    cases hrun : p s with
    | ok a t =>
      refine ⟨fun r u hr hwhere => ?_, fun _ _ hr => nomatch hr⟩
      obtain ⟨rfl, rfl⟩ := EStateM.Result.ok.inj hr
      obtain ⟨b, t', hrun', halike, ht⟩ := hfirst.ok a _ hrun hwhere
      rw [hrun']
      exact ⟨_, t', rfl, halike.map Except.ok (congrArg Except.ok), ht⟩
    | error d t =>
      refine ⟨fun r u hr hwhere => ?_, fun _ _ hr => nomatch hr⟩
      obtain ⟨rfl, rfl⟩ := EStateM.Result.ok.inj hr
      obtain ⟨d', t', hrun', ht, -, hd⟩ :=
        hfirst.error d _ hrun (hwhere.imp_right fun h => ⟨hsure, h⟩)
      rw [hrun']
      have hcompared := hwhere.resolve_left (by simp)
      exact ⟨_, t', rfl, (hd hsure hcompared).map Except.error (congrArg Except.error), ht⟩

/-- Comments are the same where places are compared, and do not matter otherwise. -/
theorem mirrors_takeComments :
    Mirrors c pre false (fun _ : List Comment => ()) takeComments takeComments := by
  refine .of_sure hsure ⟨steady_takeComments, fun s s' hs hpre => ?_⟩
  rw [takeComments_run, takeComments_run]
  exact mirrored_ok ⟨fun hp => (hs.comments hpre.2 hp).symm, rfl⟩ fun _ => hs.commented hpre.2

omit hsure in
theorem mirrors_record {d d' : Diagnostic}
    (h : Alike c.placed (Diagnostic.relocate unplaced) d d') :
    Mirrors c pre false id (record d) (record d') :=
  ⟨fun _ => Nat.le_refl _, fun _ _ hs _ => mirrored_ok (.refl _ _) fun _ => hs.record h⟩

omit hsure in
theorem mirrors_setDepth (depth : Nat) :
    Mirrors c pre false id (setDepth depth) (setDepth depth) :=
  ⟨fun _ => Nat.le_refl _, fun _ _ hs _ => mirrored_ok (.refl _ _) fun _ => hs.setDepth depth⟩

end

end FrontEnd.Parser
