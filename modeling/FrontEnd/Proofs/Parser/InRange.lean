/-
Integer literals out of range.

An integer literal is written with any number of digits, and its value must be one that 64 bits
hold.  This is checked where the literal is read, behind the token: so the token has been consumed
when the check fails, and nothing behind it has.

* `Token.Overflows` — a token is an integer literal whose value 64 bits do not hold;
* `InRange` — none of some tokens is;
* `Heeds` — none is but the last, and if the last one is, then a diagnostic says just that.
-/
import FrontEnd.Diagnostic.Basic
import FrontEnd.Text.Digits
import FrontEnd.TypeExpr.Basic

namespace FrontEnd

/-- The token is an integer literal whose value 64 bits do not hold. -/
def Token.Overflows (t : Token) : Prop :=
  t.kind = .number ∧
    ∀ value, Text.readNumber? 10 t.text.toList = some value → Number.limit ≤ value

/-- The diagnostic for an integer literal that is out of range. -/
def Token.outOfRange (t : Token) : Diagnostic := ⟨.numberTooLarge t.text, t.span⟩

/-- None of the tokens is an integer literal out of range. -/
def InRange (ts : List Token) : Prop := ∀ t ∈ ts, ¬ t.Overflows

/-- No integer literal among the tokens is out of range, or the last token alone is one, and the
diagnostic is about it. -/
def Heeds (ts : List Token) (d : Diagnostic) : Prop :=
  InRange ts ∨ ∃ us t, ts = us ++ [t] ∧ InRange us ∧ t.Overflows ∧ d = t.outOfRange

variable {t : Token} {ts us : List Token} {d : Diagnostic}

theorem Token.not_overflows {value : Nat}
    (hvalue : Text.readNumber? 10 t.text.toList = some value) (hlimit : value < Number.limit) :
    ¬ t.Overflows :=
  fun h => Nat.not_le_of_lt hlimit (h.2 value hvalue)

theorem inRange_nil : InRange [] := by
  intro t ht
  exact absurd ht List.not_mem_nil

theorem inRange_singleton (h : ¬ t.Overflows) : InRange [t] := by
  intro u hu
  rwa [List.mem_singleton.mp hu]

theorem inRange_of_ne_number (h : t.kind ≠ .number) : InRange [t] :=
  inRange_singleton fun hover => h hover.1

theorem InRange.append (h : InRange ts) (h' : InRange us) : InRange (ts ++ us) := by
  intro t ht
  rcases List.mem_append.mp ht with ht | ht
  · exact h t ht
  · exact h' t ht

theorem InRange.heeds (h : InRange ts) (d : Diagnostic) : Heeds ts d := .inl h

theorem Heeds.append (h' : Heeds us d) (h : InRange ts) : Heeds (ts ++ us) d := by
  rcases h' with h' | ⟨vs, t, rfl, hvs, hover, hd⟩
  · exact .inl (h.append h')
  · exact .inr ⟨ts ++ vs, t, by rw [List.append_assoc], h.append hvs, hover, hd⟩

theorem heeds_outOfRange (h : t.Overflows) : Heeds [t] t.outOfRange :=
  .inr ⟨[], t, rfl, inRange_nil, h, rfl⟩

/-- A diagnostic that heeds an integer literal out of range is about it, and the literal is the
last token. -/
theorem Heeds.of_mem (h : Heeds ts d) (ht : t ∈ ts) (hover : t.Overflows) :
    d = t.outOfRange ∧ ts.getLast? = some t := by
  rcases h with h | ⟨us, u, rfl, hus, -, hd⟩
  · exact absurd hover (h t ht)
  · rcases List.mem_append.mp ht with ht | ht
    · exact absurd hover (hus t ht)
    · obtain rfl := List.mem_singleton.mp ht
      exact ⟨hd, by simp⟩

end FrontEnd
