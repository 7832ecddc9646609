/-
Braces in a list of tokens.

`nesting n ts` counts the braces that are open behind `ts`, if `n` are open before it, and
is undefined if a brace closes that none of the two opened.

* `Balanced` — every brace that opens in the list closes in it, and conversely;
* `Opens` — no brace closes in the list that was not opened in it;
* `balanced_of_count` — balance in terms of numbers of braces.
-/
import FrontEnd.Token.Stream
import Mathlib.Data.List.Induction

namespace FrontEnd

namespace Kind

/-- An opening or a closing brace. -/
def isBrace : Kind → Bool
  | symbol .openCurly | symbol .closeCurly => true
  | _ => false

/-- No brace, no integer literal and not the end of the input: wherever a token of this kind is
wanted, it is consumed and nothing else is asked about it. -/
def isPlain (k : Kind) : Bool := !k.isBrace && k != .number && k != .eof

theorem isPlain_iff {k : Kind} : k.isPlain ↔ k.isBrace = false ∧ k ≠ .number ∧ k ≠ .eof := by
  simp [isPlain, and_assoc]

/-- The number of open braces behind a token of the given kind, `n` being open before it. -/
def nests? (n : Nat) : Kind → Option Nat
  | symbol .openCurly => some (n + 1)
  | symbol .closeCurly => match n with
    | 0 => none
    | n + 1 => some n
  | _ => some n

theorem nests?_of_not_isBrace {k : Kind} (h : k.isBrace = false) (n : Nat) :
    k.nests? n = some n := by
  unfold isBrace at h
  unfold nests?
  split at h <;> simp_all

theorem nests?_add {k : Kind} {n m : Nat} (h : k.nests? n = some m) (i : Nat) :
    k.nests? (i + n) = some (i + m) := by
  unfold nests? at h ⊢
  split at h
  · obtain rfl := Option.some.inj h
    rfl
  · cases n with
    | zero => exact absurd h (by simp)
    | succ n =>
      obtain rfl := Option.some.inj h
      rfl
  · obtain rfl := Option.some.inj h
    rfl

end Kind

/-- The number of open braces behind `ts`, `n` being open before it. -/
def nesting : Nat → List Token → Option Nat
  | n, [] => some n
  | n, t :: ts => (t.kind.nests? n).bind fun m => nesting m ts

/-- No list of tokens closes a brace that was not opened. -/
theorem nesting_close {c : Token} (hc : c.kind = .symbol .closeCurly) (ts : List Token) :
    nesting 0 (c :: ts) = none := by
  rw [nesting, hc]
  rfl

theorem nesting_append (n : Nat) (ts us : List Token) :
    nesting n (ts ++ us) = (nesting n ts).bind fun m => nesting m us := by
  induction ts generalizing n with
  | nil => rfl
  | cons t ts ih => simp [nesting, ih, Option.bind_assoc]

/-- Braces that are open before do not matter to those in the list. -/
theorem nesting_add {n m : Nat} {ts : List Token} (h : nesting n ts = some m) (i : Nat) :
    nesting (i + n) ts = some (i + m) := by
  induction ts generalizing n with
  | nil =>
    obtain rfl := Option.some.inj h
    rfl
  | cons t ts ih =>
    obtain ⟨k, hk, hm⟩ := Option.bind_eq_some_iff.mp h
    rw [nesting, Kind.nests?_add hk]
    exact ih hm

/-- Every brace that opens in the list closes in it, and every one that closes in it was
opened in it. -/
def Balanced (ts : List Token) : Prop := nesting 0 ts = some 0

/-- Every brace that closes in the list was opened in it. -/
def Opens (ts : List Token) : Prop := ∃ n, nesting 0 ts = some n

instance (ts : List Token) : Decidable (Balanced ts) :=
  inferInstanceAs (Decidable (nesting 0 ts = some 0))

theorem Balanced.nesting_eq {ts : List Token} (h : Balanced ts) (n : Nat) :
    nesting n ts = some n := nesting_add h n

@[simp] theorem balanced_nil : Balanced [] := rfl

theorem balanced_singleton {t : Token} (h : t.kind.isBrace = false) : Balanced [t] := by
  rw [Balanced, nesting, Kind.nests?_of_not_isBrace h]
  rfl

theorem Balanced.append {ts us : List Token} (h : Balanced ts) (h' : Balanced us) :
    Balanced (ts ++ us) := by
  rw [Balanced, nesting_append, h]
  exact h'

theorem Balanced.opens {ts : List Token} (h : Balanced ts) : Opens ts := ⟨0, h⟩

@[simp] theorem opens_nil : Opens [] := balanced_nil.opens

theorem Opens.append {ts us : List Token} (h : Opens ts) (h' : Opens us) : Opens (ts ++ us) := by
  obtain ⟨n, hn⟩ := h
  obtain ⟨m, hm⟩ := h'
  exact ⟨n + m, by rw [nesting_append, hn]; exact nesting_add hm n⟩

/-- An opening brace, something after it that opens no fewer braces than it closes. -/
theorem Opens.open_cons {o : Token} {ts : List Token} (ho : o.kind = .symbol .openCurly)
    (h : Opens ts) : Opens (o :: ts) := by
  obtain ⟨n, hn⟩ := h
  refine ⟨1 + n, ?_⟩
  rw [nesting, ho]
  exact nesting_add hn 1

/-- Something balanced between braces is balanced. -/
theorem Balanced.braced {o c : Token} {ts : List Token} (ho : o.kind = .symbol .openCurly)
    (hc : c.kind = .symbol .closeCurly) (h : Balanced ts) : Balanced (o :: (ts ++ [c])) := by
  rw [Balanced, nesting, ho]
  show nesting 1 (ts ++ [c]) = some 0
  rw [nesting_append, h.nesting_eq 1]
  show nesting 1 [c] = some 0
  rw [nesting, hc]
  rfl

/-! ### Balance as numbers of braces -/

/-- How many tokens of a list are of the given kind. -/
def countKind (k : Kind) (ts : List Token) : Nat := ts.countP (·.kind = k)

theorem nesting_eq_count {n m : Nat} {ts : List Token} (h : nesting n ts = some m) :
    m + countKind (.symbol .closeCurly) ts = n + countKind (.symbol .openCurly) ts := by
  induction ts generalizing n with
  | nil =>
    obtain rfl := Option.some.inj h
    rfl
  | cons t ts ih =>
    obtain ⟨k, hk, hm⟩ := Option.bind_eq_some_iff.mp h
    have hrest := ih hm
    unfold Kind.nests? at hk
    simp only [countKind, List.countP_cons] at hrest ⊢
    split at hk
    · next hkind =>
      obtain rfl := Option.some.inj hk
      simp [hkind]
      omega
    · next hkind =>
      cases n with
      | zero => exact absurd hk (by simp)
      | succ n =>
        obtain rfl := Option.some.inj hk
        simp [hkind]
        omega
    · next hopen hclose =>
      obtain rfl := Option.some.inj hk
      have hopen' : t.kind ≠ .symbol .openCurly := hopen
      have hclose' : t.kind ≠ .symbol .closeCurly := hclose
      simp [hopen', hclose']
      omega

/-- A list is nested if no beginning of it closes more braces than are open before it and
opened in it. -/
theorem exists_nesting {n : Nat} {ts : List Token}
    (h : ∀ us, us <+: ts →
      countKind (.symbol .closeCurly) us ≤ n + countKind (.symbol .openCurly) us) :
    ∃ m, nesting n ts = some m := by
  induction ts using List.reverseRecOn with
  | nil => exact ⟨n, rfl⟩
  | append_singleton ts t ih =>
    obtain ⟨m, hm⟩ := ih fun us hus => h us (hus.trans (List.prefix_append _ _))
    have hall := h _ (List.prefix_refl _)
    have hcount := nesting_eq_count hm
    simp only [countKind, List.countP_append, List.countP_cons, List.countP_nil] at hall hcount
    rw [nesting_append, hm]
    simp only [Option.bind_some, nesting, Option.bind_fun_some]
    unfold Kind.nests?
    split
    · exact ⟨m + 1, rfl⟩
    · next hkind =>
      -- A brace that closes with none open would make the whole list close too many.
      cases m with
      | zero =>
        simp [hkind] at hall
        omega
      | succ m => exact ⟨m, rfl⟩
    · exact ⟨m, rfl⟩

/-- Balance in terms of numbers: no beginning closes more braces than it opens, and the
whole closes as many as it opens. -/
theorem balanced_of_count {ts : List Token}
    (hbefore : ∀ us, us <+: ts →
      countKind (.symbol .closeCurly) us ≤ countKind (.symbol .openCurly) us)
    (htotal : countKind (.symbol .openCurly) ts = countKind (.symbol .closeCurly) ts) :
    Balanced ts := by
  obtain ⟨m, hm⟩ := exists_nesting fun us hus => by
    rw [Nat.zero_add]
    exact hbefore us hus
  have hcount := nesting_eq_count hm
  rw [Balanced, hm]
  congr 1
  omega

end FrontEnd
