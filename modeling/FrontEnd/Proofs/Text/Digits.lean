/-
Numbers are read back from their digits.

Reading digits is the inverse of writing a number in them, in any base up to sixteen.  In base
ten zeros may stand before them, and nothing else is read as the number.

* `Text.WritesDecimal` — the decimal digits of a number, with zeros before them;
* `Text.readDigits?_toDigits` — a number is read back from its digits;
* `Text.WritesDecimal.readNumber?`, `Text.writesDecimal_of_readNumber?` — decimal digits are read
  as a number just if they write it.
-/
import FrontEnd.Text.Digits
import Mathlib.Data.List.Induction

namespace FrontEnd.Text

/-- Zeros, any number of them, and then the decimal digits of `n`. -/
def WritesDecimal (cs : List Char) (n : Nat) : Prop :=
  ∃ zeros, cs = List.replicate zeros '0' ++ Nat.toDigits 10 n

theorem readDigits?_append (base : Nat) (cs ds : List Char) (value : Nat) :
    readDigits? base value (cs ++ ds) =
      (readDigits? base value cs).bind fun value' => readDigits? base value' ds := by
  induction cs generalizing value with
  | nil => rfl
  | cons c cs ih =>
    rw [List.cons_append, readDigits?, readDigits?]
    cases digitValue? c with
    | none => rfl
    | some d =>
      show (if d < base then _ else _) = Option.bind (if d < base then _ else _) _
      split
      · exact ih _
      · rfl

/-- Only digits are read. -/
theorem isHexadecimal_of_readDigits? {base value n : Nat} {cs : List Char}
    (h : readDigits? base value cs = some n) : ∀ c ∈ cs, isHexadecimal c := by
  induction cs generalizing value with
  | nil => simp
  | cons c cs ih =>
    rw [readDigits?] at h
    split at h
    · next d hd =>
      split at h
      · intro c' hc'
        rcases List.mem_cons.mp hc' with rfl | hc'
        · simp [isHexadecimal, hd]
        · exact ih h c' hc'
      · exact absurd h (by simp)
    · exact absurd h (by simp)

theorem digitValue?_digitChar {d : Nat} (h : d < 16) : digitValue? d.digitChar = some d := by
  have hall : ∀ d < 16, digitValue? (Nat.digitChar d) = some d := by decide
  exact hall d h

/-- A decimal digit is the digit for its value. -/
theorem exists_of_isDecimal {c : Char} (h : isDecimal c) : ∃ d < 10, c = d.digitChar := by
  obtain ⟨hlow, hhigh⟩ : '0' ≤ c ∧ c ≤ '9' := by simpa [isDecimal] using h
  have hcodes : 48 ≤ c.toNat ∧ c.toNat ≤ 57 := ⟨hlow, hhigh⟩
  have hchar : ∀ d < 10, Char.ofNat (48 + d) = d.digitChar := by decide
  refine ⟨c.toNat - 48, by omega, ?_⟩
  rw [← hchar _ (by omega), Nat.add_sub_cancel' hcodes.1, Char.ofNat_toNat]

/-- A number is read back from its digits. -/
theorem readDigits?_toDigits {base : Nat} (hlow : 1 < base) (hhigh : base ≤ 16) (n : Nat) :
    readDigits? base 0 (Nat.toDigits base n) = some n := by
  induction n using Nat.strongRecOn with
  | ind n ih =>
    by_cases hn : n < base
    · rw [Nat.toDigits_of_lt_base hn, readDigits?, digitValue?_digitChar (by omega)]
      simp [hn, readDigits?]
    · have hlast : n % base < base := Nat.mod_lt _ (by omega)
      have hinit : n / base < n := Nat.div_lt_self (by omega) hlow
      rw [Nat.toDigits_of_base_le hlow (Nat.not_lt.mp hn), readDigits?_append, ih _ hinit,
        Option.bind_some, readDigits?, digitValue?_digitChar (by omega)]
      simp only [hlast, if_true, readDigits?]
      rw [Nat.div_add_mod']

/-- A number is read back from its decimal digits, whatever zeros stand before them. -/
theorem WritesDecimal.readNumber? {cs : List Char} {n : Nat} (h : WritesDecimal cs n) :
    readNumber? 10 cs = some n := by
  obtain ⟨zeros, rfl⟩ := h
  have hread : readDigits? 10 0 (List.replicate zeros '0' ++ Nat.toDigits 10 n) = some n := by
    induction zeros with
    | zero => exact readDigits?_toDigits (by decide) (by decide) n
    | succ zeros ih => exact ih
  -- The first of the characters is a digit, and so no plus sign.
  have hfirst : ∀ c ∈ List.replicate zeros '0' ++ Nat.toDigits 10 n, c ≠ '+' := by
    rintro c hc rfl
    exact absurd (isHexadecimal_of_readDigits? hread '+' hc) (by decide)
  have hne : List.replicate zeros '0' ++ Nat.toDigits 10 n ≠ [] := by
    simp [Nat.toDigits_ne_nil]
  generalize List.replicate zeros '0' ++ Nat.toDigits 10 n = cs at *
  unfold Text.readNumber?
  split
  · exact absurd rfl (hfirst '+' (by simp))
  · simpa [hne] using hread

/-- Decimal digits that are read as a number are the digits of it, with zeros before them. -/
theorem writesDecimal_of_readDigits? {cs : List Char} (hcs : ∀ c ∈ cs, isDecimal c) (hne : cs ≠ [])
    {n : Nat} (h : readDigits? 10 0 cs = some n) : WritesDecimal cs n := by
  induction cs using List.reverseRecOn generalizing n with
  | nil => exact absurd rfl hne
  | append_singleton cs c ih =>
    obtain ⟨d, hd, rfl⟩ := exists_of_isDecimal (hcs c (by simp))
    rw [readDigits?_append] at h
    obtain ⟨m, hm, hlast⟩ := Option.bind_eq_some_iff.mp h
    obtain rfl : n = m * 10 + d := by
      rw [readDigits?, digitValue?_digitChar (by omega)] at hlast
      simpa [hd, readDigits?] using hlast.symm
    by_cases hnil : cs = []
    · obtain rfl : m = 0 := by simpa [hnil, readDigits?] using hm.symm
      exact ⟨0, by simp [hnil, Nat.toDigits_of_lt_base hd]⟩
    · obtain ⟨zeros, rfl⟩ := ih (fun c hc => hcs c (by simp [hc])) hnil hm
      rcases Nat.eq_zero_or_pos m with rfl | hpos
      · -- So far there were only zeros.
        refine ⟨zeros + 1, ?_⟩
        rw [Nat.toDigits_zero, Nat.zero_mul, Nat.zero_add, Nat.toDigits_of_lt_base hd,
          List.replicate_succ']
      · refine ⟨zeros, ?_⟩
        rw [List.append_assoc, ← Nat.toDigits_of_lt_base hd,
          Nat.toDigits_append_toDigits (by omega) hpos hd, Nat.mul_comm]

theorem writesDecimal_of_readNumber? {cs : List Char} (hcs : ∀ c ∈ cs, isDecimal c)
    {n : Nat} (h : readNumber? 10 cs = some n) : WritesDecimal cs n := by
  unfold readNumber? at h
  split at h
  · exact absurd (hcs '+' (by simp)) (by decide)
  · by_cases hne : cs = []
    · simp [hne] at h
    · exact writesDecimal_of_readDigits? hcs hne (by simpa [hne] using h)

/-- Decimal digits write a number. -/
theorem exists_writesDecimal {cs : List Char} (hcs : ∀ c ∈ cs, isDecimal c) (hne : cs ≠ []) :
    ∃ n, WritesDecimal cs n := by
  have hread : ∀ value, ∃ n, readDigits? 10 value cs = some n := by
    clear hne
    induction cs with
    | nil => exact fun value => ⟨value, rfl⟩
    | cons c cs ih =>
      intro value
      obtain ⟨d, hd, rfl⟩ := exists_of_isDecimal (hcs c (by simp))
      obtain ⟨n, hn⟩ := ih (fun c' hc' => hcs c' (by simp [hc'])) (value * 10 + d)
      refine ⟨n, ?_⟩
      rw [readDigits?, digitValue?_digitChar (by omega)]
      simp only [hd, if_true]
      exact hn
  obtain ⟨n, hn⟩ := hread 0
  exact ⟨n, writesDecimal_of_readDigits? hcs hne hn⟩

/-- A number is shown in digits. -/
theorem isDigit_of_mem_toString {n : Nat} {c : Char} (h : c ∈ (toString n).toList) :
    c.isDigit := by
  have hdigits : (toString n).toList = Nat.toDigits 10 n := by
    show (Nat.repr n).toList = _
    rw [Nat.repr, String.toList_ofList]
  rw [hdigits] at h
  exact Nat.isDigit_of_mem_toDigits (by omega) (by omega) h

end FrontEnd.Text
