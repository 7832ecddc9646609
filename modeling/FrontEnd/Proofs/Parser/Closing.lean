/-
Behind the token that ends a stretch.

A definition is read up to a closing brace or a semicolon, and so is a statement.  If the tokens
that are compared end before this last token, the parts before it are mirrored, and what is done
with it decides how the two runs end:

* `Closes` — the first parser has consumed the last token and succeeds; then a given relation
  holds between its result and what the second parser comes to;
* `Mirrors.closes` — parts before the last token carry such a relation over;
* `Past` — both runs have consumed the last token, which is the same, and `Completes` — the second
  parser succeeds there as well;
* `Closes.andThen` — what follows the last token, and consumes none.

A block without its closing brace is recorded and kept.  It ends wherever the input ends or a
definition starts, so that nothing is said here where that has happened (`State.Unbroken`).
-/
import FrontEnd.Proofs.Parser.Mirroring

namespace FrontEnd.Parser

variable {α β γ δ : Type} {c : Comparison} {s s' t t' : State}

/-- No block has been left without its closing brace. -/
def State.Unbroken (s : State) : Prop :=
  ∀ d ∈ s.diagnostics.reported, ∀ found,
    d.cause ≠ .missing "block" (.symbol .closeCurly) found

/-- The state stands right behind the token that ends the stretch. -/
structure Comparison.EndsAt (c : Comparison) (t : State) : Prop where
  loose : c.strict = false
  length_rest : t.rest.length + 1 = c.rest.length

theorem Comparison.EndsAt.ne_nil (h : c.EndsAt t) : c.rest ≠ [] :=
  List.ne_nil_of_length_eq_add_one h.length_rest.symm

/-- The relation holds between what the first parser gives and the outcome of the second, if the
first succeeds right behind the token that ends the stretch. -/
structure Closes (c : Comparison) (R : α → State → Outcome α → Prop) (p p' : Parser α) :
    Prop where
  moves : ∀ s a t, p s = .ok a t → t.Unbroken → t.rest.length < s.rest.length
  run : ∀ s s' a t, Paired c s s' → p s = .ok a t → t.Unbroken → c.EndsAt t → R a t (p' s')

/-- What comes before the last token is mirrored. -/
theorem Mirrors.closes {m : α → β} {p p' : Parser α} {f f' : α → Parser γ}
    {R : γ → State → Outcome γ → Prop} (hp : Mirrors c anywhere false m p p')
    (hf : ∀ a b, Alike c.placed m a b → Closes c R (f a) (f' b)) :
    Closes c R (p >>= f) (p' >>= f') := by
  have hlast : ∀ s b t, (p >>= f) s = .ok b t → t.Unbroken → ∃ a u, p s = .ok a u ∧
      f a u = .ok b t ∧ u.rest.length ≤ s.rest.length ∧ t.rest.length < u.rest.length := by
    intro s b t hrun hwhole
    obtain ⟨a, u, hfirst, hthen⟩ := bind_eq_ok hrun
    have hle := hp.steady s
    rw [hfirst] at hle
    exact ⟨a, u, hfirst, hthen, hle, (hf a a (.refl m a)).moves u b t hthen hwhole⟩
  refine ⟨fun s b t hrun hwhole => ?_, fun s s' b t hs hrun hwhole hend => ?_⟩
  · obtain ⟨a, u, -, -, hle, hlt⟩ := hlast s b t hrun hwhole
    omega
  · obtain ⟨a, u, hfirst, hthen, -, hlt⟩ := hlast s b t hrun hwhole
    have hcompared : c.Compared u := by
      have hlength := hend.length_rest
      rw [Comparison.Compared, hend.loose, Bool.toNat_false]
      omega
    obtain ⟨a', u', hfirst', halike, hu⟩ :=
      (hp.run s s' hs trivial).ok a u hfirst (.inr hcompared)
    rw [bind_of_ok hfirst']
    exact (hf a a' halike).run u u' b t hu hthen hwhole hend

/-! ### Where the last token is the same -/

/-- Both states stand right behind the token that ends the stretch. -/
def Past (c : Comparison) (t t' : State) : Prop :=
  ∃ u u', Paired c u u' ∧ u.rest = c.rest ∧ t = u.advance ∧ t' = u'.advance

/-- The second parser succeeds too, with the same value, right behind the token that ends the
stretch. -/
def Completes (c : Comparison) (m : α → β) (a : α) (t : State) (r : Outcome α) : Prop :=
  ∃ b t', r = .ok b t' ∧ Alike c.placed m a b ∧ Past c t t'

/-- Behind the last token of a stretch, no token was left in it before. -/
theorem Paired.rest_eq (h : Paired c s s') (hend : c.EndsAt s.advance) : s.rest = c.rest := by
  refine (h.of_not_before fun hbefore => ?_).1
  have hle := length_rest_le_advance s
  have hlength := hend.length_rest
  unfold Comparison.Before at hbefore
  omega

/-- The last token is consumed on both sides. -/
theorem Paired.completes {m : α → β} {a b : α} (h : Paired c s s')
    (hend : c.EndsAt s.advance) (halike : Alike c.placed m a b) :
    Completes c m a s.advance (.ok b s'.advance) :=
  ⟨b, s'.advance, rfl, halike, s, s', h, h.rest_eq hend, rfl, rfl⟩

section

variable (hexact : c.Exact)

include hexact

/-- The token that ends the stretch is there on both sides. -/
theorem Past.exists_advance (h : Past c t t') (hproper : c.rest ≠ []) :
    ∃ u u', Paired c u u' ∧ t = u.advance ∧ t' = u'.advance ∧
      Alike c.placed (Token.relocate unplaced) u.current u'.current ∧
      u.current.kind ≠ .eof ∧ u'.current.kind ≠ .eof := by
  obtain ⟨u, u', hu, hrest, rfl, rfl⟩ := h
  have hcurrent := hu.current (.inr hexact)
  have hkind : u.current.kind ≠ .eof := by
    rw [current_eq_headD, hrest, hu.eof]
    exact c.proper hproper
  exact ⟨u, u', hu, rfl, rfl, hcurrent, hkind, hcurrent.kind_eq ▸ hkind⟩

/-- Spans up to the last token are the same. -/
theorem Past.spanFrom (h : Past c t t') (hproper : c.rest ≠ []) {p p' : Position}
    (hstart : Alike c.placed unplaced p p') :
    Alike c.placed (Span.relocate unplaced) (t.spanFrom p) (t'.spanFrom p') := by
  obtain ⟨u, u', -, rfl, rfl, hcurrent, hkind, hkind'⟩ := h.exists_advance hexact hproper
  have hprevious : ∀ {v : State}, v.current.kind ≠ .eof →
      v.advance.previousEnd = v.current.span.stop := by
    intro v hv
    rw [State.previousEnd, (passes_advance hv).consumed]
    rfl
  refine .span fun hp => ?_
  rw [State.spanFrom, State.spanFrom, hprevious hkind, hprevious hkind', hcurrent.same hp,
    hstart.same hp]

/-- Where places are compared, the two states have the same behind them. -/
theorem Past.same (h : Past c t t') (hproper : c.rest ≠ []) (hp : c.placed) :
    t'.consumed = t.consumed ∧ t'.commentsTaken = t.commentsTaken ∧
      t'.diagnostics.reported = t.diagnostics.reported := by
  obtain ⟨u, u', hu, rfl, rfl, hcurrent, hkind, hkind'⟩ := h.exists_advance hexact hproper
  have hread := reads_advance hkind
  have hread' := reads_advance hkind'
  refine ⟨?_, ?_, ?_⟩
  · rw [hread.consumed, hread'.consumed, hcurrent.same hp, hu.consumed.same hp]
  · rw [hread.commentsTaken, hread'.commentsTaken, hu.commentsTaken hp]
  · rw [hread.diagnostics, hread'.diagnostics, hu.diagnostics.same hp]

omit hexact in
/-- What follows the last token and consumes none. -/
theorem Closes.andThen {m : α → β} {n : γ → δ} {p p' : Parser α} {f f' : α → Parser γ}
    (k k' : α → State → γ) (hp : Closes c (Completes c m) p p')
    (hf : ∀ a t, f a t = .ok (k a t) t) (hf' : ∀ a t, f' a t = .ok (k' a t) t)
    (halike : ∀ a b, Alike c.placed m a b → ∀ t t', Past c t t' → c.rest ≠ [] →
      Alike c.placed n (k a t) (k' b t')) :
    Closes c (Completes c n) (p >>= f) (p' >>= f') := by
  have hfirst : ∀ s x t, (p >>= f) s = .ok x t → ∃ a, p s = .ok a t ∧ x = k a t := by
    intro s x t hwhole
    obtain ⟨a, u, hrun, hthen⟩ := bind_eq_ok hwhole
    obtain ⟨rfl, rfl⟩ := EStateM.Result.ok.inj ((hf a u).symm.trans hthen)
    exact ⟨a, hrun, rfl⟩
  refine ⟨fun s x t hrun hwhole => ?_, fun s s' x t hs hrun hwhole hend => ?_⟩
  · obtain ⟨a, ha, -⟩ := hfirst s x t hrun
    exact hp.moves s a t ha hwhole
  · obtain ⟨a, ha, rfl⟩ := hfirst s x t hrun
    obtain ⟨b, t', hrun', hab, hpast⟩ := hp.run s s' a t hs ha hwhole hend
    exact ⟨_, t', (bind_of_ok hrun').trans (hf' b t'), halike a b hab t t' hpast hend.ne_nil,
      hpast⟩

omit hexact in
theorem Closes.map {m : α → β} {n : γ → δ} {p p' : Parser α} {g g' : α → γ}
    (hp : Closes c (Completes c m) p p')
    (hg : ∀ a b, Alike c.placed m a b → Alike c.placed n (g a) (g' b)) :
    Closes c (Completes c n) (p >>= fun a => pure (g a)) (p' >>= fun a => pure (g' a)) :=
  hp.andThen (fun a _ => g a) (fun a _ => g' a) (fun _ _ => rfl) (fun _ _ => rfl)
    fun a b hab _ _ _ _ => hg a b hab

/-- A construct that covers its tokens, the last of which has just been consumed. -/
theorem Closes.spanned {m : α → β} {n : γ → δ} {p p' : Parser α} {g g' : α → Span → γ}
    {start start' : Position} (hp : Closes c (Completes c m) p p')
    (hstart : Alike c.placed unplaced start start')
    (hg : ∀ a b, Alike c.placed m a b → ∀ x y, Alike c.placed (Span.relocate unplaced) x y →
      Alike c.placed n (g a x) (g' b y)) :
    Closes c (Completes c n) (p >>= fun a => spanFrom start >>= fun x => pure (g a x))
      (p' >>= fun a => spanFrom start' >>= fun x => pure (g' a x)) :=
  hp.andThen (fun a t => g a (t.spanFrom start)) (fun a t => g' a (t.spanFrom start'))
    (fun _ _ => rfl) (fun _ _ => rfl) fun a b hab _ _ hpast hproper =>
      hg a b hab _ _ (hpast.spanFrom hexact hproper hstart)

/-- What can be seen of the state may decide how to go on. -/
theorem closes_get {R : α → State → Outcome α → Prop} {f f' : State → Parser α}
    (hf : ∀ u u', Seen c.placed u u' → Closes c R (f u) (f' u')) :
    Closes c R (get >>= f) (get >>= f') := by
  refine ⟨fun s a t hrun hwhole => ?_, fun s s' a t hs hrun hwhole hend => ?_⟩
  · exact (hf s s ⟨rfl, rfl, rfl, .refl _ _⟩).moves s a t hrun hwhole
  · have hcurrent := hs.current (.inr hexact)
    exact (hf s s' ⟨hcurrent.kind_eq.symm, hs.index, hs.depth, hcurrent.start_eq⟩).run s s' a t hs
      hrun hwhole hend

theorem closes_expect {expected : Kind} (hk : expected ≠ .eof) (production : String) :
    Closes c (Completes c (Token.relocate unplaced)) (expect expected production)
      (expect expected production) := by
  refine ⟨fun s a t hrun _ => movesOn_expect hk production s a t hrun,
    fun s s' a t hs hrun _ hend => ?_⟩
  have hcurrent := hs.current (.inr hexact)
  rw [expect_run] at hrun ⊢
  split at hrun
  · next hkind =>
    obtain ⟨rfl, rfl⟩ := EStateM.Result.ok.inj hrun
    rw [if_pos (hcurrent.kind_eq ▸ hkind)]
    exact hs.completes hend hcurrent
  · exact nomatch hrun

end

end FrontEnd.Parser
