/-
Productions and integer literals out of range.

The only production that consumes an integer literal is the one that reads it, and that fails if
64 bits do not hold the value.  A failure ends every production around it, up to the next one that
records failures and goes on, and that is a block or a file.  So an integer literal out of range
is the last token that a production consumes, and the production fails with just this, unless
something has been recorded before.

* `number_of_readNumber?` — what becomes of an integer literal, by its value;
* `Production.overflow` — what becomes of a production that consumes one out of range;
* `ReadingProduction.quiet` — a production without blocks records nothing, so that it always fails
  like this.
-/
import FrontEnd.Proofs.Grammar.Progress

namespace FrontEnd.Parser

variable {α : Type} {s s' : State} {ts us : List Token} {t : Token} {p : Parser α}

/-- The state in which a run ends. -/
def Outcome.state : Outcome α → State
  | .ok _ s => s
  | .error _ s => s

theorem Passes.tokens_eq (h : Passes s ts s') (h' : Passes s us s') : ts = us :=
  List.append_cancel_right (h.rest.symm.trans h'.rest)

/-- An integer literal is consumed.  Reading it gives its value if 64 bits hold that, and fails
otherwise. -/
theorem number_of_readNumber? (hkind : s.current.kind = .number) {value : Nat}
    (hvalue : Text.readNumber? 10 s.current.text.toList = some value) (production : String) :
    number production s =
      if value < Number.limit then .ok ⟨value, s.current.span⟩ s.advance
      else .error s.current.outOfRange s.advance := by
  rcases number_run hkind production with ⟨value', hvalue', hlimit, hrun⟩ | ⟨hover, hrun⟩
  · obtain rfl := Option.some.inj (hvalue'.symm.trans hvalue)
    rw [hrun, if_pos hlimit]
  · rw [hrun, if_neg (Nat.not_lt.mpr (hover.2 value hvalue))]

theorem Works.overflow {moves : Bool} {A : α → List Token → Prop} (h : Works moves s p A)
    (hpass : Passes s ts (Outcome.state (p s))) (hquiet : Quiet s (Outcome.state (p s)))
    (ht : t ∈ ts) (hover : t.Overflows) :
    p s = .error t.outOfRange (Outcome.state (p s)) ∧ ts.getLast? = some t := by
  cases hrun : p s with
  | ok a s₁ =>
    rw [hrun] at hpass hquiet
    obtain ⟨us, hcross, -, hrange, -⟩ := h.inRange_of_ok hrun
    rw [hpass.tokens_eq hcross.toPasses] at ht
    exact absurd hover (hrange hquiet t ht)
  | error d s₁ =>
    rw [hrun] at hpass hquiet
    obtain ⟨us, n, hcross, hheeds, -⟩ := h.heeds_of_error hrun
    obtain rfl := hpass.tokens_eq hcross.toPasses
    obtain ⟨rfl, hlast⟩ := (hheeds hquiet).of_mem ht hover
    exact ⟨rfl, hlast⟩

/-- A production that consumes an integer literal out of range, and has recorded nothing, fails
with it, and consumes nothing behind it. -/
theorem Production.overflow (h : Production p) (hpass : Passes s ts (Outcome.state (p s)))
    (hquiet : Quiet s (Outcome.state (p s))) (ht : t ∈ ts) (hover : t.Overflows) :
    p s = .error t.outOfRange (Outcome.state (p s)) ∧ ts.getLast? = some t := by
  obtain ⟨A, hworks⟩ := h.works s
  exact hworks.overflow hpass hquiet ht hover

/-- A production without blocks records nothing. -/
theorem ReadingProduction.quiet (h : ReadingProduction p) (s : State) :
    Quiet s (Outcome.state (p s)) := by
  have hmeets := h.meets s
  cases hrun : p s with
  | ok a s' =>
    obtain ⟨ts, hread, -⟩ := hmeets.of_ok hrun
    exact hread.quiet
  | error d s' =>
    obtain ⟨ts, hread, -⟩ := hmeets.of_error hrun
    exact hread.quiet

end FrontEnd.Parser
