/-
Recursion without its guard.

`fix` lets a parser call itself only where fewer tokens are left, and makes every other call
fail.  A parser of the language never makes such a call, so that the guard changes nothing.
To say so, `unroll` ties the same body without a guard, but only to a depth, with any parser
at all at the bottom:

* `Agree n p q` — where fewer than `n` tokens are left, `p` does what `q` does;
* `Productive body` — the body calls itself only behind a token;
* `Productive.fix_eq` — then the guard can be left out;
* `Productive.unroll_eq` — then the recursion is never deeper than the number of tokens that
  are left, and the parser at the bottom is not reached.

Most of the module is congruence: what is built in the same way from parsers that agree
agrees.
-/
import FrontEnd.Proofs.Parser.Crossing

namespace FrontEnd.Parser

variable {α β : Type}

/-- How many tokens a run leaves. -/
def tokensLeft : Outcome α → Nat
  | .ok _ s => s.rest.length
  | .error _ s => s.rest.length

/-- The body given itself, `n` times over, and `bottom` inside. -/
def unroll (body : (α → Parser β) → α → Parser β) (bottom : α → Parser β) :
    Nat → α → Parser β
  | 0 => bottom
  | n + 1 => body (unroll body bottom n)

/-! ### Parsers that give no tokens back -/

/-- The parser gives no tokens back. -/
def Steady (p : Parser α) : Prop := ∀ s, tokensLeft (p s) ≤ s.rest.length

/-- On `s` the parser fails or consumes a token. -/
def MovesOn (s : State) (p : Parser α) : Prop :=
  ∀ a s', p s = .ok a s' → s'.rest.length < s.rest.length

theorem Passes.length_rest_le {s s' : State} {ts : List Token} (h : Passes s ts s') :
    s'.rest.length ≤ s.rest.length := by
  rw [h.rest, List.length_append]
  omega

theorem Passes.length_rest_lt {s s' : State} {ts : List Token} (h : Passes s ts s')
    (hne : ts ≠ []) : s'.rest.length < s.rest.length := by
  have hpos := List.length_pos_iff.mpr hne
  rw [h.rest, List.length_append]
  omega

/-- A parser that crosses tokens gives none back. -/
theorem Works.length_rest_le {moves : Bool} {s : State} {p : Parser α}
    {A : α → List Token → Prop} (h : Works moves s p A) :
    tokensLeft (p s) ≤ s.rest.length := by
  cases hrun : p s with
  | ok a s' =>
    obtain ⟨ts, hcross, -⟩ := h.of_ok hrun
    exact hcross.toPasses.length_rest_le
  | error d s' =>
    obtain ⟨ts, n, hcross, -⟩ := h.of_error hrun
    exact hcross.toPasses.length_rest_le

theorem Works.movesOn {s : State} {p : Parser α} {A : α → List Token → Prop}
    (h : Works true s p A) : MovesOn s p := by
  intro a s' hrun
  obtain ⟨ts, hcross, hne, -⟩ := h.of_ok hrun
  exact hcross.toPasses.length_rest_lt (hne rfl)

theorem steady_of_works {moves : Bool} {p : Parser α} {A : α → List Token → Prop}
    (h : ∀ s, Works moves s p A) : Steady p := fun s => (h s).length_rest_le

theorem steady_of_meets {p : Parser α} {A : α → List Token → Prop}
    (h : ∀ s, Meets [] s p A) : Steady p := steady_of_works fun s => (h s).works

theorem length_rest_advance_le (s : State) : s.advance.rest.length ≤ s.rest.length := by
  by_cases h : s.current.kind = .eof
  · have hsame : s.advance = s := by
      unfold State.advance
      split
      · rfl
      · next t rest hrest =>
        rw [current_of_rest hrest] at h
        simp [h]
    exact Nat.le_of_eq (by rw [hsame])
  · exact (passes_advance h).length_rest_le

theorem steady_pure (a : α) : Steady (pure a) := fun _ => Nat.le_refl _

theorem steady_throw (d : Diagnostic) : Steady (throw d : Parser α) := fun _ => Nat.le_refl _

theorem steady_unexpected (production : String) (expected : List Kind) :
    Steady (unexpected production expected : Parser α) := fun _ => Nat.le_refl _

theorem steady_advance : Steady advance := length_rest_advance_le

theorem steady_expect (expected : Kind) (production : String) :
    Steady (expect expected production) := by
  intro s
  rw [expect_run]
  split
  · exact length_rest_advance_le s
  · exact Nat.le_refl _

theorem movesOn_expect {expected : Kind} (hk : expected ≠ .eof) (production : String)
    (s : State) : MovesOn s (expect expected production) := by
  intro t s' hrun
  obtain ⟨hcurrent, -, rfl⟩ := expect_eq_ok hrun
  exact length_rest_advance (hcurrent ▸ hk)

theorem steady_skip? (wanted : Kind) : Steady (skip? wanted) := by
  intro s
  show tokensLeft ((if s.current.kind = wanted then _ else _ : Parser Bool) s) ≤ _
  split
  · exact length_rest_advance_le s
  · exact Nat.le_refl _

theorem steady_takeComments : Steady takeComments := by
  intro s
  rw [takeComments_run]
  exact Nat.le_refl _

/-! ### Parsers that agree -/

/-- On `s` the two parsers do the same, and give no tokens back. -/
def Same (s : State) (p q : Parser α) : Prop :=
  p s = q s ∧ tokensLeft (q s) ≤ s.rest.length

/-- Wherever fewer than `n` tokens are left, the two parsers do the same. -/
def Agree (n : Nat) (p q : Parser α) : Prop := ∀ s, s.rest.length < n → Same s p q

theorem Steady.same {p : Parser α} (h : Steady p) (s : State) : Same s p p := ⟨rfl, h s⟩

theorem Steady.agree {p : Parser α} (h : Steady p) (n : Nat) : Agree n p p :=
  fun s _ => h.same s

theorem Agree.mono {m n : Nat} {p q : Parser α} (h : Agree n p q) (hle : m ≤ n) :
    Agree m p q := fun s hs => h s (by omega)

theorem Same.congr {s : State} {p p' q q' : Parser α} (hp : p s = p' s) (hq : q s = q' s)
    (h : Same s p' q') : Same s p q := by
  unfold Same at h ⊢
  rwa [hp, hq]

theorem Same.bind {s : State} {p q : Parser α} {f g : α → Parser β} (hp : Same s p q)
    (hf : ∀ a s', q s = .ok a s' → Same s' (f a) (g a)) : Same s (p >>= f) (q >>= g) := by
  obtain ⟨heq, hle⟩ := hp
  unfold Same
  rw [bind_run, bind_run, heq]
  cases hrun : q s with
  | error d s' =>
    rw [hrun] at hle
    exact ⟨rfl, hle⟩
  | ok a s' =>
    rw [hrun] at hle
    obtain ⟨hthen, hle'⟩ := hf a s' hrun
    exact ⟨hthen, Nat.le_trans hle' hle⟩

section

variable {n : Nat} {p q : Parser α} {f g : α → Parser β}

/-- One parser after another. -/
theorem Agree.bind (hp : Agree n p q) (hf : ∀ a, Agree n (f a) (g a)) :
    Agree n (p >>= f) (q >>= g) := by
  intro s hs
  refine (hp s hs).bind fun a s' hrun => hf a s' ?_
  have hle := (hp s hs).2
  rw [hrun] at hle
  exact Nat.lt_of_le_of_lt hle hs

/-- Behind a token fewer are left, so that what follows has to agree on less. -/
theorem Agree.bind_moved (hp : Agree (n + 1) p q) (hmoves : ∀ s, MovesOn s q)
    (hf : ∀ a, Agree n (f a) (g a)) : Agree (n + 1) (p >>= f) (q >>= g) := by
  intro s hs
  refine (hp s hs).bind fun a s' hrun => hf a s' ?_
  have hlt := hmoves s a s' hrun
  omega

theorem Agree.map (hp : Agree n p q) (h : α → β) : Agree n (h <$> p) (h <$> q) := by
  intro s hs
  have hbind : Agree n (p >>= fun a => pure (h a)) (q >>= fun a => pure (h a)) :=
    hp.bind fun a => (steady_pure _).agree n
  unfold Same
  rw [map_run, map_run]
  exact hbind s hs

theorem agree_expect {f g : Token → Parser β} {expected : Kind} {production : String}
    (hk : expected ≠ .eof) (hf : ∀ t, Agree n (f t) (g t)) :
    Agree (n + 1) (expect expected production >>= f) (expect expected production >>= g) :=
  ((steady_expect _ _).agree _).bind_moved (movesOn_expect hk production) hf

end

section

variable {n m : Nat} {f g : α → Parser β}

theorem agree_kind {f g : Kind → Parser β} (hf : ∀ k, Agree n (f k) (g k)) :
    Agree n (kind >>= f) (kind >>= g) := fun s hs => hf s.current.kind s hs

theorem agree_peekKind {f g : Kind → Parser β} (hf : ∀ k, Agree n (f k) (g k)) :
    Agree n (peekKind m >>= f) (peekKind m >>= g) := fun s hs => hf (s.peek m).kind s hs

theorem agree_position {f g : Position → Parser β} (hf : ∀ p, Agree n (f p) (g p)) :
    Agree n (position >>= f) (position >>= g) := fun s hs => hf s.position s hs

theorem agree_spanFrom {start : Position} {f g : Span → Parser β}
    (hf : ∀ p, Agree n (f p) (g p)) :
    Agree n (spanFrom start >>= f) (spanFrom start >>= g) := fun s hs => hf (s.spanFrom start) s hs

theorem agree_spanFrom_pure {start : Position} (f : Span → β) :
    Agree n (spanFrom start >>= fun p => pure (f p)) (spanFrom start >>= fun p => pure (f p)) :=
  agree_spanFrom fun _ => (steady_pure _).agree n

theorem agree_attempt {p q : Parser α} (hp : Agree n p q) :
    Agree n (attempt p) (attempt q) := by
  intro s hs
  obtain ⟨heq, hle⟩ := hp s hs
  unfold Same attempt
  rw [heq]
  cases hrun : q s with
  | ok a s' => rw [hrun] at hle; exact ⟨rfl, hle⟩
  | error d s' => rw [hrun] at hle; exact ⟨rfl, hle⟩

/-- Recursion: parsers whose bodies agree, their recursive calls doing so, agree. -/
theorem agree_fix {body body' : (α → Parser β) → α → Parser β}
    (hbody : ∀ more more', (∀ a, Agree n (more a) (more' a)) →
      ∀ a, Agree n (body more a) (body' more' a)) (a : α) :
    Agree n (fix body a) (fix body' a) := by
  intro s hs
  induction hlen : s.rest.length using Nat.strong_induction_on generalizing a s with
  | _ k ih =>
    unfold Same
    rw [fix_run, fix_run]
    refine hbody _ _ (fun b s' hs' => ?_) a s hs
    -- A call that the guard refuses fails in the same way on both sides.
    unfold Same guarded
    split
    · next hlt => exact ih _ (hlen ▸ hlt) b s' hs' rfl
    · exact ⟨rfl, Nat.le_refl _⟩

theorem agree_manyWhile {wanted : Kind → Bool} {item item' : Parser α}
    (hitem : Agree n item item') :
    Agree n (manyWhile wanted item) (manyWhile wanted item') := by
  refine agree_fix (fun more more' hmore _ => agree_kind fun k => ?_) ()
  split
  · exact hitem.bind fun a => (hmore ()).bind fun as => (steady_pure _).agree n
  · exact (steady_pure _).agree n

/-- Something behind a mark, if the mark is next, and what comes after it. -/
theorem agree_skipThen {k : Kind} {p q : Parser α} {f g : Option α → Parser β}
    (hp : Agree n p q) (hf : ∀ o, Agree n (f o) (g o)) :
    Agree n (skip? k >>= fun found => if found then (some <$> p) >>= f else pure none >>= f)
      (skip? k >>= fun found => if found then (some <$> q) >>= g else pure none >>= g) := by
  refine ((steady_skip? k).agree n).bind fun found => ?_
  cases found with
  | true => exact (hp.map some).bind hf
  | false => exact hf none

end

/-! ### Bodies that call themselves behind a token -/

/-- The body calls itself only behind a token: where at most `n` tokens are left, it does not
matter what it is given, as long as that is right where fewer are left. -/
def Productive (body : (α → Parser β) → α → Parser β) : Prop :=
  ∀ n self, (∀ a, Agree n (self a) (fix body a)) →
    ∀ a, Agree (n + 1) (body self a) (body (fix body) a)

/-- The guard of a productive recursion can be left out. -/
theorem Productive.fix_eq {body : (α → Parser β) → α → Parser β} (h : Productive body) (a : α) :
    fix body a = body (fix body) a := by
  have hsame : ∀ n, ∀ a, Agree n (fix body a) (body (fix body) a) := by
    intro n
    induction n with
    | zero => exact fun a s hs => absurd hs (Nat.not_lt_zero _)
    | succ n ih =>
      intro a s hs
      -- The guarded calls are right where fewer tokens are left than at `s`.
      have hcalls : ∀ b, Agree s.rest.length (guarded s.rest.length (fix body b)) (fix body b) := by
        intro b s' hs'
        have hself := ih b s' (by omega)
        refine ⟨if_pos hs', ?_⟩
        rw [hself.1]
        exact hself.2
      have hrun := h _ _ hcalls a s (Nat.lt_succ_self _)
      exact ⟨(fix_run body a s).trans hrun.1, hrun.2⟩
  funext s
  exact (hsame (s.rest.length + 1) a s (Nat.lt_succ_self _)).1

/-- A productive recursion, unrolled deeper than there are tokens left, is the recursion,
whatever stands at the bottom. -/
theorem Productive.unroll_eq {body : (α → Parser β) → α → Parser β} (h : Productive body)
    (bottom : α → Parser β) {n : Nat} {s : State} (hn : s.rest.length < n) (a : α) :
    unroll body bottom n a s = fix body a s := by
  have hagree : ∀ n a, Agree n (unroll body bottom n a) (fix body a) := by
    intro n
    induction n with
    | zero => exact fun a s hs => absurd hs (Nat.not_lt_zero _)
    | succ n ih =>
      intro a
      rw [h.fix_eq a]
      exact h n _ ih a
  exact (hagree n a s hn).1

end FrontEnd.Parser
