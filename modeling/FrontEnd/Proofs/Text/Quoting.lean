/-
A text is told from its quoted form.

Every character is written as itself, as a backslash and a letter, or by its code point, and no
form of a character is the start of another one.  So no two texts have the same quoted form.

* `Text.Writes` — the ways to write a character between double quotes;
* `Text.quotedChar_cancel` — the first character that a quoted form writes;
* `Text.quoted_cancel`, `Text.quoted_injective` — the text that a quoted form writes.
-/
import FrontEnd.Proofs.Text.Digits
import FrontEnd.Text.Quoted

namespace FrontEnd.Text

theorem readDigits?_hexadecimal (n : Nat) : readDigits? 16 0 (hexadecimal n) = some n :=
  readDigits?_toDigits (by decide) (by decide) n

theorem hexadecimal_injective : Function.Injective hexadecimal := by
  intro m n h
  have hm := readDigits?_hexadecimal m
  rw [h, readDigits?_hexadecimal] at hm
  exact (Option.some.inj hm).symm

/-- The digits of a number end where something else than a digit stands. -/
theorem takeWhile_hexadecimal (n : Nat) {c : Char} (hc : ¬ isHexadecimal c) (cs : List Char) :
    (hexadecimal n ++ c :: cs).takeWhile isHexadecimal = hexadecimal n := by
  rw [List.takeWhile_append_of_pos (isHexadecimal_of_readDigits? (readDigits?_hexadecimal n)),
    List.takeWhile_cons_of_neg hc, List.append_nil]

/-- The characters that are written with a letter, and these letters. -/
def letters : List (Char × Char) :=
  [('\x00', '0'), ('\t', 't'), ('\r', 'r'), ('\n', 'n'), ('\\', '\\'), ('"', '"')]

/-- The ways to write a character between double quotes. -/
inductive Writes (c : Char) : List Char → Prop
  | letter {a : Char} (h : (c, a) ∈ letters) : Writes c ['\\', a]
  | shown (h : c ≠ '\\') : Writes c [c]
  | code : Writes c ('\\' :: 'u' :: '\x7b' :: (hexadecimal c.toNat ++ ['\x7d']))

theorem writes_quotedChar (c : Char) : Writes c (quotedChar c) := by
  unfold quotedChar
  split
  iterate 6 · exact .letter (by decide)
  split
  · exact .shown (by assumption)
  · exact .code

/-- No form of a character is the start of another one. -/
theorem Writes.cancel {c d : Char} {w v cs ds : List Char} (h : Writes c w) (h' : Writes d v)
    (heq : w ++ cs = v ++ ds) : c = d ∧ cs = ds := by
  have hletters : ∀ p ∈ letters, p.2 ≠ 'u' ∧ ∀ q ∈ letters, p.2 = q.2 → p.1 = q.1 := by decide
  cases h with
  | letter h =>
    cases h' with
    | letter h' =>
      obtain ⟨rfl, rfl⟩ : _ ∧ cs = ds := by simpa using heq
      exact ⟨(hletters _ h).2 _ h' rfl, rfl⟩
    | shown h' => exact absurd (List.cons.inj heq).1.symm h'
    | code => exact absurd (List.cons.inj (List.cons.inj heq).2).1 (hletters _ h).1
  | shown h =>
    cases h' with
    | letter | code => exact absurd (List.cons.inj heq).1 h
    | shown => exact List.cons.inj heq
  | code =>
    cases h' with
    | letter h' => exact absurd (List.cons.inj (List.cons.inj heq).2).1.symm (hletters _ h').1
    | shown h' => exact absurd (List.cons.inj heq).1.symm h'
    | code =>
      have hcodes : hexadecimal c.toNat ++ '\x7d' :: cs = hexadecimal d.toNat ++ '\x7d' :: ds := by
        simpa using heq
      have hcode := congrArg (List.takeWhile isHexadecimal) hcodes
      rw [takeWhile_hexadecimal _ (by decide), takeWhile_hexadecimal _ (by decide)] at hcode
      rw [hcode] at hcodes
      exact ⟨Char.toNat_inj.mp (hexadecimal_injective hcode),
        (List.cons.inj (List.append_cancel_left hcodes)).2⟩

/-- A quoted form starts with the form of one character. -/
theorem quotedChar_cancel {c d : Char} {cs ds : List Char}
    (h : quotedChar c ++ cs = quotedChar d ++ ds) : c = d ∧ cs = ds :=
  (writes_quotedChar c).cancel (writes_quotedChar d) h

/-- No form of a character starts with the quote, which ends the quoted form of a text. -/
theorem quotedChar_head (c : Char) : ∃ a w, quotedChar c = a :: w ∧ a ≠ '"' := by
  unfold quotedChar
  split
  iterate 6 · exact ⟨_, _, rfl, by decide⟩
  next hquote =>
    split
    · exact ⟨c, [], rfl, hquote⟩
    · exact ⟨_, _, rfl, by decide⟩

theorem flatMap_quotedChar_cancel {cs ds as bs : List Char}
    (h : cs.flatMap quotedChar ++ '"' :: as = ds.flatMap quotedChar ++ '"' :: bs) :
    cs = ds ∧ as = bs := by
  induction cs generalizing ds with
  | nil =>
    cases ds with
    | nil => exact ⟨rfl, (List.cons.inj h).2⟩
    | cons d ds =>
      obtain ⟨a, w, hd, ha⟩ := quotedChar_head d
      rw [List.flatMap_cons, hd] at h
      exact absurd (List.cons.inj h).1.symm ha
  | cons c cs ih =>
    cases ds with
    | nil =>
      obtain ⟨a, w, hc, ha⟩ := quotedChar_head c
      rw [List.flatMap_cons, hc] at h
      exact absurd (List.cons.inj h).1 ha
    | cons d ds =>
      rw [List.flatMap_cons, List.flatMap_cons, List.append_assoc, List.append_assoc] at h
      obtain ⟨rfl, hrest⟩ := quotedChar_cancel h
      obtain ⟨rfl, hbehind⟩ := ih hrest
      exact ⟨rfl, hbehind⟩

/-- A text starts with one quoted form at most. -/
theorem quoted_cancel {s r : String} {as bs : List Char}
    (h : (quoted s).toList ++ as = (quoted r).toList ++ bs) : s = r ∧ as = bs := by
  simp only [quoted, String.toList_ofList, List.cons_append, List.append_assoc] at h
  obtain ⟨hchars, hbehind⟩ := flatMap_quotedChar_cancel (List.cons.inj h).2
  exact ⟨String.toList_inj.mp hchars, hbehind⟩

/-- No two texts have the same quoted form. -/
theorem quoted_injective : Function.Injective quoted := by
  intro s r h
  have hlists : (quoted s).toList ++ [] = (quoted r).toList ++ [] := by rw [h]
  exact (quoted_cancel hlists).1

end FrontEnd.Text
