/-
What escapes stand for.

An escape is found by its form and decoded by what it starts with, each on its own.  The two agree:
whatever is found as an escape has one of the forms of the escape grammar, and decoding gives what
the form says.  A code point may be written with any number of hexadecimal digits, most of them
zeros; there is no character for it if it is a surrogate or lies beyond the last code point, and
with that also if it does not fit into 32 bits.

* `Escape.Form` — the forms of an escape, with what they say;
* `Escape.exists_body_iff` — what is found as an escape are the forms;
* `Escape.scalar?_eq_some_iff`, `Escape.scalar?_eq_none_iff` — the code points of characters;
* `Text.readWord?_bind_scalar?` — nothing is lost where the digits are read into 32 bits;
* `Escape.decode_exact` — decoding gives what the form says.
-/
import FrontEnd.Proofs.Literal.RoundTrip
import FrontEnd.Proofs.Text.Digits

namespace FrontEnd

/-! ### Numerals -/

namespace Literal

/-- The digits are the characters that have a value. -/
theorem isDigit_of_digitValue? {c : Char} {value : Nat} (h : Text.digitValue? c = some value) :
    IsDigit c value := by
  have hcode : ∀ {base : Nat}, base ≤ c.toNat → c = Char.ofNat (base + (c.toNat - base)) := by
    intro base hbase
    rw [Nat.add_sub_cancel' hbase, Char.ofNat_toNat]
  have hten : ∀ d < 10, IsDigit (Char.ofNat (48 + d)) d := by
    unfold IsDigit
    decide
  have hlower : ∀ d < 6, IsDigit (Char.ofNat (97 + d)) (d + 10) := by
    unfold IsDigit
    decide
  have hupper : ∀ d < 6, IsDigit (Char.ofNat (65 + d)) (d + 10) := by
    unfold IsDigit
    decide
  unfold Text.digitValue? at h
  split at h
  · next hdigit =>
    obtain ⟨hlow, hhigh⟩ : 48 ≤ c.toNat ∧ c.toNat ≤ 57 := hdigit
    obtain rfl := Option.some.inj h
    have hdigit := hten (c.toNat - 48) (by omega)
    rwa [← hcode hlow] at hdigit
  · split at h
    · next hletter =>
      obtain ⟨hlow, hhigh⟩ : 97 ≤ c.toNat ∧ c.toNat ≤ 102 := hletter
      obtain rfl := Option.some.inj h
      have hdigit := hlower (c.toNat - 97) (by omega)
      rwa [← hcode hlow] at hdigit
    · split at h
      · next hletter =>
        obtain ⟨hlow, hhigh⟩ : 65 ≤ c.toNat ∧ c.toNat ≤ 70 := hletter
        obtain rfl := Option.some.inj h
        have hdigit := hupper (c.toNat - 65) (by omega)
        rwa [← hcode hlow] at hdigit
      · cases h

/-- Digits below the base have values. -/
theorem exists_values {base : Nat} {digits : List Char}
    (h : ∀ d ∈ digits, ∃ value < base, Text.digitValue? d = some value) :
    ∃ values, List.Forall₂ IsDigit digits values ∧ ∀ value ∈ values, value < base := by
  induction digits with
  | nil => exact ⟨[], .nil, by simp⟩
  | cons d digits ih =>
    obtain ⟨value, hlt, hvalue⟩ := h d (by simp)
    obtain ⟨values, hvalues, hbase⟩ := ih fun d' hd' => h d' (by simp [hd'])
    exact ⟨value :: values, .cons (isDigit_of_digitValue? hvalue) hvalues,
      by simpa using ⟨hlt, hbase⟩⟩

theorem exists_numeral {base : Nat} {digits : List Char}
    (h : ∀ d ∈ digits, ∃ value < base, Text.digitValue? d = some value) :
    ∃ n, Numeral base digits n := by
  obtain ⟨values, hvalues, hbase⟩ := exists_values h
  exact ⟨_, values, hvalues, hbase, rfl⟩

theorem exists_numeral_hexadecimal {digits : List Char}
    (h : ∀ d ∈ digits, Text.isHexadecimal d) : ∃ n, Numeral 16 digits n := by
  refine exists_numeral fun d hd => ?_
  obtain ⟨value, hvalue⟩ := Option.isSome_iff_exists.mp (h d hd)
  refine ⟨value, ?_, hvalue⟩
  have hdigit := isDigit_of_digitValue? hvalue
  rcases hdigit with hlow | hup
  · exact (List.getElem?_eq_some_iff.mp hlow).1
  · exact (List.getElem?_eq_some_iff.mp hup).1

/-- The number that is read from hexadecimal digits is the one they write. -/
theorem numeral_hexadecimal {digits : List Char} {n : Nat} (hmany : 1 ≤ digits.length)
    (hhex : digits.all Text.isHexadecimal) (hread : Text.readNumber? 16 digits = some n) :
    Numeral 16 digits n := by
  obtain ⟨m, hvalue⟩ := exists_numeral_hexadecimal (List.all_eq_true.mp hhex)
  have hm := hvalue.readNumber? (List.length_pos_iff.mp hmany)
  rw [hread] at hm
  obtain rfl := Option.some.inj hm
  exact hvalue

theorem exists_numeral_decimal {digits : List Char} (h : ∀ d ∈ digits, Text.isDecimal d) :
    ∃ n, Numeral 10 digits n := by
  refine exists_numeral fun d hd => ?_
  obtain ⟨value, hlt, rfl⟩ := Text.exists_of_isDecimal (h d hd)
  exact ⟨value, hlt, Text.digitValue?_digitChar (by omega)⟩

end Literal

/-! ### Code points -/

namespace Escape

theorem scalar?_eq_some_iff {n : Nat} {c : Char} : scalar? n = some c ↔ c.toNat = n := by
  constructor
  · intro h
    by_cases hvalid : n.isValidChar
    · rw [scalar?, dif_pos hvalid] at h
      obtain rfl := Option.some.inj h
      rfl
    · rw [scalar?, dif_neg hvalid] at h
      cases h
  · rintro rfl
    exact Literal.scalar?_toNat c

/-- There is no character for a surrogate, and none beyond the last code point. -/
theorem scalar?_eq_none_iff {n : Nat} :
    scalar? n = none ↔ 0xD800 ≤ n ∧ n ≤ 0xDFFF ∨ 0x10FFFF < n := by
  by_cases hvalid : n.isValidChar
  · have hcases : n < 0xD800 ∨ 0xDFFF < n ∧ n < 0x110000 := hvalid
    rw [scalar?, dif_pos hvalid]
    constructor
    · intro h
      cases h
    · intro h
      omega
  · have hcases : ¬ (n < 0xD800 ∨ 0xDFFF < n ∧ n < 0x110000) := hvalid
    rw [scalar?, dif_neg hvalid]
    constructor
    · intro _
      omega
    · intro _
      rfl

end Escape

namespace Text

/-- Goes on reading digits below `base` into 32 bits, after those before them gave `value`.  There
is no number if one of the steps does not fit. -/
def readWordDigits? (base value : Nat) : List Char → Option Nat
  | [] => some value
  | c :: cs =>
    match digitValue? c with
    | some d =>
      if d < base ∧ value * base + d < 2 ^ 32 then readWordDigits? base (value * base + d) cs
      else none
    | none => none

/-- The number that digits below `base` write, a plus sign before them or not, if 32 bits hold
it. -/
def readWord? (base : Nat) (cs : List Char) : Option Nat :=
  let digits := match cs with
    | '+' :: rest => rest
    | cs => cs
  if digits.isEmpty then none else readWordDigits? base 0 digits

/-- More digits do not make a number smaller. -/
theorem le_of_readDigits? {base value n : Nat} {cs : List Char}
    (h : readDigits? base value cs = some n) : value ≤ n := by
  induction cs generalizing value with
  | nil => exact (Option.some.inj h).le
  | cons c cs ih =>
    rw [readDigits?] at h
    split at h
    · next d hd =>
      split at h
      · next hlt =>
        have hlater := ih h
        have hstep : value * 1 ≤ value * base := Nat.mul_le_mul_left value (by omega)
        omega
      · cases h
    · cases h

theorem readWordDigits?_bind_scalar? (base value : Nat) (cs : List Char) :
    (readWordDigits? base value cs).bind Escape.scalar? =
      (readDigits? base value cs).bind Escape.scalar? := by
  induction cs generalizing value with
  | nil => rfl
  | cons c cs ih =>
    rw [readWordDigits?, readDigits?]
    cases digitValue? c with
    | none => rfl
    | some d =>
      by_cases hlt : d < base
      · by_cases hfits : value * base + d < 2 ^ 32
        · simp only [hlt, hfits, and_self, if_true]
          exact ih _
        · -- Whatever digits follow, there is no character for so large a number.
          simp only [hlt, hfits, and_false, if_true, if_false, Option.bind_none]
          symm
          rw [Option.bind_eq_none_iff]
          intro n hn
          have hle := le_of_readDigits? hn
          exact Escape.scalar?_eq_none_iff.mpr (.inr (by omega))
      · simp only [hlt, false_and, if_false]

/-- A code point that does not fit into 32 bits has no character, so that nothing is lost if its
digits are read into as many. -/
theorem readWord?_bind_scalar? (base : Nat) (cs : List Char) :
    (readWord? base cs).bind Escape.scalar? = (readNumber? base cs).bind Escape.scalar? := by
  have hdigits : ∀ digits : List Char,
      (if digits.isEmpty then none else readWordDigits? base 0 digits).bind Escape.scalar? =
        (if digits.isEmpty then none else readDigits? base 0 digits).bind Escape.scalar? := by
    intro digits
    split
    · rfl
    · exact readWordDigits?_bind_scalar? base 0 digits
  exact hdigits _

end Text

/-! ### The forms of an escape -/

namespace Escape

open Literal (Numeral)

/-- What the form of an escape says. -/
inductive Meaning where
  /-- The character with this code point, if there is one. -/
  | code (n : Nat)
  | char (c : Char)

/-- The characters that are written by a letter or by a zero. -/
def named : List (Char × Char) := [('n', '\n'), ('t', '\t'), ('r', '\r'), ('0', '\x00')]

/-- The forms of what follows the backslash of an escape, with what they say. -/
inductive Form : List Char → Meaning → Prop
  | decimal {digits : List Char} {n : Nat} (hmany : 2 ≤ digits.length) (hfew : digits.length ≤ 3)
    (hvalue : Numeral 10 digits n) : Form digits (.code n)
  | hexadecimal {digits : List Char} {n : Nat} (hmany : 2 ≤ digits.length)
    (hvalue : Numeral 16 digits n) : Form ('x' :: digits) (.code n)
  | braced {digits : List Char} {n : Nat} (hmany : 1 ≤ digits.length) (hfew : digits.length ≤ 6)
    (hvalue : Numeral 16 digits n) :
    Form ('u' :: '\x7b' :: (digits ++ ['\x7d'])) (.code n)
  | named {a c : Char} (h : (a, c) ∈ named) : Form [a] (.char c)
  /-- Any other single character stands for itself. -/
  | itself {c : Char} (hx : c ≠ 'x') (hu : c ≠ 'u') (hU : c ≠ 'U') (hline : c ≠ '\n')
    (hnamed : c ∉ named.map (·.1)) : Form [c] (.char c)

/-- A single character is an escape unless an escape of several characters starts with it, or the
line ends. -/
theorem body_singleton {c : Char} (hx : c ≠ 'x') (hu : c ≠ 'u') (hU : c ≠ 'U') (hline : c ≠ '\n') :
    body [c] = some [c] := by
  have hfew : ¬ 2 ≤ (([c].take 3).takeWhile Text.isDecimal).length := by
    have hle : (([c].take 3).takeWhile Text.isDecimal).length ≤ 1 :=
      (List.takeWhile_prefix Text.isDecimal).length_le
    omega
  unfold body
  rw [if_neg hfew]
  split
  · next heq => exact absurd (List.cons.inj heq).1 hx
  · next heq => exact absurd (List.cons.inj heq).1 hu
  · next heq =>
    obtain ⟨rfl, -⟩ := List.cons.inj heq
    rw [if_neg (by simp [hx, hu, hU, hline])]
  · next heq => cases heq

/-- A form is found as an escape. -/
theorem Form.body {b : List Char} {m : Meaning} (h : Form b m) : Escape.body b = some b := by
  cases h with
  | decimal hmany hfew hvalue =>
    have hbody := Literal.body_decimal [] hmany hfew hvalue.all_decimal (.inr (by simp))
    rwa [List.append_nil] at hbody
  | @hexadecimal digits n hmany hvalue =>
    have hrun : digits.takeWhile Text.isHexadecimal = digits :=
      List.takeWhile_eq_self_iff.mpr hvalue.all_hexadecimal
    have hgo : Escape.body ('x' :: digits) =
        if 2 ≤ (digits.takeWhile Text.isHexadecimal).length then
          some ('x' :: digits.takeWhile Text.isHexadecimal) else none := rfl
    rw [hgo, hrun, if_pos hmany]
  | braced hmany hfew hvalue =>
    have hbody := Literal.body_braced [] hmany hfew hvalue.all_hexadecimal
    rwa [List.append_nil] at hbody
  | named h =>
    simp only [Escape.named, List.mem_cons, Prod.mk.injEq, List.not_mem_nil, or_false] at h
    rcases h with ⟨rfl, rfl⟩ | ⟨rfl, rfl⟩ | ⟨rfl, rfl⟩ | ⟨rfl, rfl⟩
    all_goals rfl
  | itself hx hu hU hline => exact body_singleton hx hu hU hline

theorem exists_form_singleton {c : Char} (hx : c ≠ 'x') (hu : c ≠ 'u') (hU : c ≠ 'U')
    (hline : c ≠ '\n') : ∃ m, Form [c] m := by
  by_cases hnamed : c ∈ named.map (·.1)
  · obtain ⟨⟨a, d⟩, hmem, rfl⟩ := List.mem_map.mp hnamed
    exact ⟨_, .named hmem⟩
  · exact ⟨_, .itself hx hu hU hline hnamed⟩

/-- What is found as an escape has a form. -/
theorem exists_form {cs b : List Char} (h : body cs = some b) : ∃ m, Form b m := by
  unfold body at h
  dsimp only at h
  split at h
  · next hmany =>
    obtain rfl := Option.some.inj h
    obtain ⟨n, hvalue⟩ := Literal.exists_numeral_decimal fun _ hd => List.mem_takeWhile_imp hd
    refine ⟨_, .decimal hmany ?_ hvalue⟩
    calc ((cs.take 3).takeWhile Text.isDecimal).length
      _ ≤ (cs.take 3).length := (List.takeWhile_prefix Text.isDecimal).length_le
      _ ≤ 3 := by simp
  · split at h
    · next rest _ =>
      split at h
      · next hmany =>
        obtain rfl := Option.some.inj h
        obtain ⟨n, hvalue⟩ :=
          Literal.exists_numeral_hexadecimal fun _ hd => List.mem_takeWhile_imp hd
        exact ⟨_, .hexadecimal hmany hvalue⟩
      · cases h
    · next rest _ =>
      split at h
      · next hfits =>
        obtain ⟨hmany, hfew, -⟩ := hfits
        obtain rfl := Option.some.inj h
        obtain ⟨n, hvalue⟩ :=
          Literal.exists_numeral_hexadecimal fun _ hd => List.mem_takeWhile_imp hd
        exact ⟨_, .braced hmany hfew hvalue⟩
      · cases h
    · next c rest _ _ _ =>
      split at h
      · cases h
      · next hother =>
        obtain rfl := Option.some.inj h
        simp only [not_or] at hother
        obtain ⟨hx, hu, hU, hline⟩ := hother
        exact exists_form_singleton hx hu hU hline
    · cases h

/-- The escapes that are found are those of the grammar. -/
theorem exists_body_iff {b : List Char} : (∃ cs, body cs = some b) ↔ ∃ m, Form b m := by
  constructor
  · rintro ⟨cs, h⟩
    exact exists_form h
  · rintro ⟨m, h⟩
    exact ⟨b, h.body⟩

/-! ### Decoding -/

/-- A form of a code point is decoded to its character, if there is one. -/
theorem Form.decode?_code {b : List Char} {n : Nat} (h : Form b (.code n)) :
    decode? ('\\' :: b) = scalar? n := by
  cases h with
  | decimal hmany _ hvalue => exact Literal.decodeBody?_decimal hmany hvalue
  | @hexadecimal digits n hmany hvalue =>
    show (Text.readNumber? 16 digits).bind scalar? = scalar? n
    rw [hvalue.readNumber? (List.length_pos_iff.mp (by omega)), Option.bind_some]
  | braced hmany _ hvalue => exact Literal.decodeBody?_braced hmany hvalue

/-- The other forms are decoded to the character they say. -/
theorem Form.decode?_char {b : List Char} {c : Char} (h : Form b (.char c)) :
    decode? ('\\' :: b) = some c := by
  cases h with
  | named h =>
    simp only [Escape.named, List.mem_cons, Prod.mk.injEq, List.not_mem_nil, or_false] at h
    rcases h with ⟨rfl, rfl⟩ | ⟨rfl, rfl⟩ | ⟨rfl, rfl⟩ | ⟨rfl, rfl⟩
    all_goals rfl
  | itself hx hu hU hline hnamed =>
    simp only [Escape.named, List.map_cons, List.map_nil, List.mem_cons, List.not_mem_nil,
      or_false, not_or] at hnamed
    obtain ⟨hn, ht, hr, hzero⟩ := hnamed
    have hbody : decodeBody? [c] = some (ofLetter c) := by
      have hbraced : braced? [c] = none := by
        unfold braced?
        split
        · next heq => exact absurd (List.cons.inj heq).1 hu
        · rfl
      unfold decodeBody?
      rw [hbraced]
      split
      · next heq => exact absurd (List.cons.inj heq).1 hx
      · rfl
    show decodeBody? [c] = some c
    rw [hbody]
    simp only [ofLetter]

/-- Decoding gives what the form of an escape says.  The escapes that are found are the forms of the
escape grammar.  A code point in digits stands for the character that has it, and for none exactly
if it is a surrogate or lies beyond the last code point, a number that does not fit into 32 bits
among them: reading the digits into 32 bits loses no character.  All other forms stand for the
character they say. -/
theorem decode_exact :
    (∀ b, (∃ cs, body cs = some b) ↔ ∃ m, Form b m) ∧
    (∀ b n, Form b (.code n) →
      (∀ c, decode? ('\\' :: b) = some c ↔ c.toNat = n) ∧
      (decode? ('\\' :: b) = none ↔ 0xD800 ≤ n ∧ n ≤ 0xDFFF ∨ 0x10FFFF < n)) ∧
    (∀ b c, Form b (.char c) → decode? ('\\' :: b) = some c) ∧
    (∀ base digits, (Text.readWord? base digits).bind scalar? =
      (Text.readNumber? base digits).bind scalar?) := by
  refine ⟨fun _ => exists_body_iff, ?_, fun _ _ h => h.decode?_char, Text.readWord?_bind_scalar?⟩
  intro b n h
  rw [h.decode?_code]
  exact ⟨fun _ => scalar?_eq_some_iff, scalar?_eq_none_iff⟩

/-- `1f600` behind twenty zeros, `ffffffffff`, which needs more than 32 bits, and a single
zero. -/
theorem decode_exact_padded :
    decode? ('\\' :: 'x' :: (List.replicate 20 '0' ++ "1f600".toList)) =
      some (Char.ofNat 0x1F600) ∧
    decode? ('\\' :: 'x' :: List.replicate 10 'f') = none ∧
    decode? ['\\', '0'] = some '\x00' := by
  obtain ⟨-, hcode, hchar, -⟩ := decode_exact
  have hpadded : Form ('x' :: (List.replicate 20 '0' ++ "1f600".toList)) (.code 0x1F600) :=
    .hexadecimal (by decide) (Literal.numeral_hexadecimal (by decide) (by decide) (by decide))
  have hlarge : Form ('x' :: List.replicate 10 'f') (.code 0xFFFFFFFFFF) :=
    .hexadecimal (by decide) (Literal.numeral_hexadecimal (by decide) (by decide) (by decide))
  exact ⟨((hcode _ _ hpadded).1 _).mpr (by decide), (hcode _ _ hlarge).2.mpr (by decide),
    hchar _ _ (.named (by decide))⟩

end Escape

end FrontEnd
