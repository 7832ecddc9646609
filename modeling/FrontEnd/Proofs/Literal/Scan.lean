/-
What reading a quoted literal consumes.

Reading cuts a text into elements, the closing quote and the text after it, and loses
no character:

* `contents_partition` — elements, closing quote and rest put end to end are the text;
* `scan_partition` — so the source text of a literal is how the text starts;
* `scan_append_line` — a line feed ends every literal, so nothing after it is seen;
* `scan_drop_raw` — the source text of a literal, read on its own, is that text again;
* `scan_raw_append` — a literal with its closing quote ends there, whatever comes behind it.

An escape goes on neither with a line feed nor with a quote, so that it does not matter
what stands after the literal that it belongs to (`body_cons_append_stop`).
-/
import Mathlib.Tactic.NthRewrite
import FrontEnd.Literal.Scan

namespace FrontEnd

open Text

/-! ### Runs of leading characters -/

/-- A run of leading characters ends before a character outside of it, whatever is put
after that character. -/
theorem takeWhile_append_stop {p : Char → Bool} {stop : Char} (hstop : p stop = false)
    (cs ds : List Char) : (cs ++ stop :: ds).takeWhile p = cs.takeWhile p := by
  induction cs with
  | nil => simp [hstop]
  | cons c cs ih =>
    by_cases hc : p c
    · simp [hc, ih]
    · simp [hc]

/-- A run of leading characters and what is left after as many are a text. -/
theorem takeWhile_append_drop_length (p : Char → Bool) (cs : List Char) :
    cs.takeWhile p ++ cs.drop (cs.takeWhile p).length = cs := by
  induction cs with
  | nil => rfl
  | cons c cs ih =>
    by_cases hc : p c
    · simpa [hc] using ih
    · simp [hc]

/-- The character after a run of leading characters is seen no further than one place
behind the text. -/
theorem head?_drop_takeWhile_append (p : Char → Bool) (stop : Char) (cs ds : List Char) :
    ((cs ++ stop :: ds).drop (cs.takeWhile p).length).head? =
      (cs.drop (cs.takeWhile p).length).head?.or (some stop) := by
  induction cs with
  | nil => simp
  | cons c cs ih =>
    by_cases hc : p c
    · simpa [hc] using ih
    · simp [hc]

namespace Escape

/-- The digits of a decimal escape end before a character that is no digit. -/
theorem takeWhile_take_append_stop {stop : Char} (hstop : isDecimal stop = false)
    (cs ds : List Char) :
    ((cs ++ stop :: ds).take 3).takeWhile isDecimal = (cs.take 3).takeWhile isDecimal := by
  rcases cs with _ | ⟨a, _ | ⟨b, _ | ⟨c, cs⟩⟩⟩
  · simp [hstop]
  · by_cases ha : isDecimal a <;> simp [ha, hstop]
  · by_cases ha : isDecimal a <;> by_cases hb : isDecimal b <;> simp [ha, hb, hstop]
  · simp

/-- Behind the first character of an escape, a character that no escape goes on with ends it
as the end of the text does. -/
theorem body_cons_append_stop {stop : Char} (hdec : isDecimal stop = false)
    (hhex : isHexadecimal stop = false) (hopen : stop ≠ '\x7b') (hclose : stop ≠ '\x7d')
    (c : Char) (cs ds : List Char) : body (c :: (cs ++ stop :: ds)) = body (c :: cs) := by
  have hdigits := takeWhile_take_append_stop hdec (c :: cs) ds
  rw [List.cons_append] at hdigits
  unfold body
  rw [hdigits]
  -- The digits of a code point apart, the first two characters decide the form.
  by_cases hx : c = 'x'
  · subst hx
    simp only [takeWhile_append_stop hhex]
  · by_cases hu : c = 'u'
    · subst hu
      rcases cs with _ | ⟨d, cs⟩
      · simp [hopen]
      · by_cases hd : d = '\x7b'
        · subst hd
          simp only [List.cons_append, takeWhile_append_stop hhex, head?_drop_takeWhile_append]
          cases (cs.drop (cs.takeWhile isHexadecimal).length).head? <;> simp [hclose]
        · simp [hd]
    · simp [hx, hu]

/-- A line feed ends the escape before it, as the end of the text does. -/
theorem body_append_line (cs ds : List Char) : body (cs ++ '\n' :: ds) = body cs := by
  cases cs with
  | nil =>
    unfold body
    rw [takeWhile_take_append_stop (by decide)]
    simp
  | cons c cs => exact body_cons_append_stop (by decide) (by decide) (by decide) (by decide) ..

/-- An escape is how the text after its backslash starts. -/
theorem body_prefix {cs b : List Char} (h : body cs = some b) : b <+: cs := by
  unfold body at h
  simp only at h
  split at h
  · obtain rfl := Option.some.inj h
    exact (List.takeWhile_prefix _).trans (List.take_prefix 3 cs)
  · split at h
    · split at h
      · obtain rfl := Option.some.inj h
        exact List.cons_prefix_cons.mpr ⟨rfl, List.takeWhile_prefix _⟩
      · exact absurd h (by simp)
    · next rest _ =>
      split at h
      · next hc =>
        obtain rfl := Option.some.inj h
        obtain ⟨tail, htail⟩ := List.head?_eq_some_iff.mp hc.2.2
        have hsplit := takeWhile_append_drop_length isHexadecimal rest
        rw [htail] at hsplit
        refine List.cons_prefix_cons.mpr ⟨rfl, List.cons_prefix_cons.mpr ⟨rfl, tail, ?_⟩⟩
        rw [List.append_assoc, List.singleton_append, hsplit]
      · exact absurd h (by simp)
    · split at h
      · exact absurd h (by simp)
      · obtain rfl := Option.some.inj h
        simp
    · exact absurd h (by simp)

end Escape

namespace Literal

/-! ### Reading loses nothing -/

/-- The element after a backslash starts with that backslash and goes on with how the
text after it starts. -/
theorem raw_backslashed (quote : Char) (cs : List Char) :
    ∃ b, (backslashed quote cs).raw = '\\' :: b ∧ b <+: cs := by
  unfold backslashed
  split
  · next body hbody =>
    have hprefix := Escape.body_prefix hbody
    split
    · exact ⟨body, rfl, hprefix⟩
    · exact ⟨body, rfl, hprefix⟩
  · split
    · exact ⟨[], rfl, List.nil_prefix⟩
    · next c cs _ =>
      split
      · exact ⟨[], rfl, List.nil_prefix⟩
      · exact ⟨[c], rfl, by simp⟩

@[simp] theorem elements_cons (e : Element) (c : Contents) :
    (c.cons e).elements = e :: c.elements := rfl

@[simp] theorem terminated_cons (e : Element) (c : Contents) :
    (c.cons e).terminated = c.terminated := rfl

@[simp] theorem rest_cons (e : Element) (c : Contents) : (c.cons e).rest = c.rest := rfl

/-- What starts with a backslash is no plain character. -/
theorem backslashed_ne_plain (quote : Char) (cs : List Char) (c : Char) :
    backslashed quote cs ≠ .plain c := by
  unfold backslashed
  split
  · split <;> simp
  · split
    · simp
    · split <;> simp

/-- An element of a literal is a character that reading neither stops nor turns at, or what a
backslash stands for with the text behind it. -/
theorem mem_contents {quote : Char} {text : List Char} {e : Element}
    (h : e ∈ (contents quote text).elements) :
    (∃ c, e = .plain c ∧ c ≠ quote ∧ c ≠ '\\' ∧ c ≠ '\n') ∨ ∃ cs, e = backslashed quote cs := by
  fun_induction contents quote text with
  | case1 => simp at h
  | case2 cs => simp at h
  | case3 cs _ => simp at h
  | case4 c cs hquote hline hslash ih =>
    rcases List.mem_cons.mp h with rfl | hmem
    · exact .inl ⟨c, rfl, hquote, hslash, hline⟩
    · exact ih hmem
  | case5 c cs _ _ _ element ih =>
    rcases List.mem_cons.mp h with rfl | hmem
    · exact .inr ⟨cs, rfl⟩
    · exact ih hmem

/-- What is reported of the elements is that one of them is invalid, where it stands. -/
theorem exists_of_mem_invalidElements {offset : Nat} {es : List Element} {problem : Problem}
    (h : problem ∈ invalidElements offset es) :
    ∃ pre raw post, es = pre ++ .invalid raw :: post ∧
      problem = ⟨.invalidEscape (String.ofList raw), offset + byteLength (pre.flatMap Element.raw),
        offset + byteLength (pre.flatMap Element.raw) + byteLength raw⟩ := by
  induction es generalizing offset with
  | nil => simp [invalidElements] at h
  | cons e es ih =>
    have hlater : problem ∈ invalidElements (offset + byteLength e.raw) es →
        ∃ pre raw post, e :: es = pre ++ .invalid raw :: post ∧
          problem = ⟨.invalidEscape (String.ofList raw),
            offset + byteLength (pre.flatMap Element.raw),
            offset + byteLength (pre.flatMap Element.raw) + byteLength raw⟩ := by
      intro hmem
      obtain ⟨pre, raw, post, rfl, hproblem⟩ := ih hmem
      refine ⟨e :: pre, raw, post, rfl, ?_⟩
      rwa [List.flatMap_cons, byteLength_append, ← Nat.add_assoc]
    cases e with
    | plain c => exact hlater h
    | escape raw value => exact hlater h
    | invalid raw =>
      rcases List.mem_cons.mp h with rfl | hmem
      · exact ⟨[], raw, es, rfl, rfl⟩
      · exact hlater hmem

/-- The closing quote, for a literal that has one. -/
def closing (quote : Char) (terminated : Bool) : List Char :=
  if terminated then [quote] else []

theorem raw_eq (l : Literal) :
    l.raw = l.quote :: (l.elements.flatMap Element.raw ++ closing l.quote l.terminated) := rfl

/-- Elements, closing quote and rest put end to end are the text that was read. -/
theorem contents_partition (quote : Char) (text : List Char) :
    (contents quote text).elements.flatMap Element.raw ++
      (closing quote (contents quote text).terminated ++ (contents quote text).rest) = text := by
  fun_induction contents quote text with
  | case1 => rfl
  | case2 cs => rfl
  | case3 cs _ => rfl
  | case4 c cs _ _ _ ih => simpa [Element.raw] using ih
  | case5 c cs hquote hline hslash element ih =>
    -- What an element takes up is dropped, so that reading goes on right behind it.
    obtain ⟨b, hraw, tail, rfl⟩ := raw_backslashed quote cs
    have hc : c = '\\' := by simpa using hslash
    have hlen : element.raw.length - 1 = b.length := by
      rw [show element.raw = '\\' :: b from hraw, List.length_cons, Nat.add_sub_cancel]
    rw [hlen, List.drop_left] at ih ⊢
    simp only [elements_cons, terminated_cons, rest_cons, List.flatMap_cons, List.append_assoc]
    rw [ih, show element.raw = '\\' :: b from hraw, hc, List.cons_append]

/-- The source text of a literal is how the text starts that it was read from. -/
theorem scan_partition (quote : Char) (text : List Char) :
    (scan quote text).raw ++ (contents quote text).rest = quote :: text := by
  have h := contents_partition quote text
  rw [raw_eq, List.cons_append, List.append_assoc]
  exact congrArg (quote :: ·) h

/-! ### A line feed ends a literal -/

theorem backslashed_append_line (quote : Char) (cs ds : List Char) :
    backslashed quote (cs ++ '\n' :: ds) = backslashed quote cs := by
  unfold backslashed
  rw [Escape.body_append_line]
  cases Escape.body cs with
  | some b => rfl
  | none => cases cs <;> simp

/-- Nothing behind a line feed belongs to a literal that starts before it. -/
theorem contents_append_line (quote : Char) (text ds : List Char) (hquote : quote ≠ '\n') :
    contents quote (text ++ '\n' :: ds) =
      { contents quote text with rest := (contents quote text).rest ++ '\n' :: ds } := by
  fun_induction contents quote text with
  | case1 =>
    rw [List.nil_append, contents, if_neg hquote.symm, if_pos rfl]
  | case2 cs =>
    rw [List.cons_append, contents, if_pos rfl]
  | case3 cs h =>
    rw [List.cons_append, contents, if_neg h, if_pos rfl]
  | case4 c cs hq hl hs ih =>
    rw [List.cons_append, contents, if_neg hq, if_neg hl, if_pos hs, ih]
    rfl
  | case5 c cs hq hl hs element ih =>
    obtain ⟨b, hraw, hprefix⟩ := raw_backslashed quote cs
    have hlen : element.raw.length - 1 ≤ cs.length := by
      rw [show element.raw = '\\' :: b from hraw, List.length_cons, Nat.add_sub_cancel]
      exact hprefix.length_le
    rw [List.cons_append, contents, if_neg hq, if_neg hl, if_neg hs]
    simp only [backslashed_append_line]
    rw [List.drop_append_of_le_length hlen, ih]
    rfl

theorem scan_append_line (quote : Char) (text ds : List Char) (hquote : quote ≠ '\n') :
    scan quote (text ++ '\n' :: ds) = scan quote text := by
  simp only [scan, contents_append_line quote text ds hquote]

/-! ### A literal is read again from its own text -/

/-- A literal without its closing quote goes up to a line feed or to the end. -/
theorem rest_of_unterminated (quote : Char) (text : List Char)
    (h : (contents quote text).terminated = false) :
    (contents quote text).rest = [] ∨ ∃ ds, (contents quote text).rest = '\n' :: ds := by
  fun_induction contents quote text with
  | case1 => exact .inl rfl
  | case2 cs => exact absurd h (by simp)
  | case3 cs _ => exact .inr ⟨cs, rfl⟩
  | case4 c cs _ _ _ ih => exact ih h
  | case5 c cs _ _ _ element ih => exact ih h

/-- The marks that literals are written between. -/
def IsQuote (quote : Char) : Prop := quote = '"' ∨ quote = '\''

theorem backslashed_append_quote {quote : Char} (hq : IsQuote quote) (cs ds : List Char) :
    backslashed quote (cs ++ quote :: ds) = backslashed quote (cs ++ [quote]) := by
  have hbody : Escape.body (cs ++ quote :: ds) = Escape.body (cs ++ [quote]) := by
    cases cs with
    | nil =>
      -- A quote behind the backslash is the whole escape.
      have hdigit : isDecimal quote = false := by rcases hq with rfl | rfl <;> decide
      rcases hq with rfl | rfl
      · simp [Escape.body, hdigit]
      · simp [Escape.body, hdigit]
    | cons c cs =>
      have hend : ∀ ds, Escape.body (c :: (cs ++ quote :: ds)) = Escape.body (c :: cs) := by
        intro ds
        rcases hq with rfl | rfl
        · exact Escape.body_cons_append_stop (by decide) (by decide) (by decide) (by decide) ..
        · exact Escape.body_cons_append_stop (by decide) (by decide) (by decide) (by decide) ..
      exact (hend ds).trans (hend []).symm
  unfold backslashed
  rw [hbody]
  cases cs <;> rfl

/-- An element is the same whether the text goes on behind its literal or not. -/
theorem backslashed_contents {quote : Char} (hq : IsQuote quote) (b tail : List Char) :
    backslashed quote (b ++ ((contents quote tail).elements.flatMap Element.raw ++
      closing quote (contents quote tail).terminated)) = backslashed quote (b ++ tail) := by
  have hpart := contents_partition quote tail
  cases hterm : (contents quote tail).terminated with
  | true =>
    rw [hterm] at hpart
    nth_rewrite 2 [← hpart]
    simp only [closing, if_true, List.singleton_append, ← List.append_assoc]
    exact (backslashed_append_quote hq _ _).symm
  | false =>
    rw [hterm] at hpart
    nth_rewrite 2 [← hpart]
    rcases rest_of_unterminated quote tail hterm with hrest | ⟨ds, hrest⟩
    · rw [hrest, List.append_nil]
    · simp only [hrest, closing, Bool.false_eq_true, if_false, List.nil_append, List.append_nil,
        ← List.append_assoc]
      exact (backslashed_append_line quote _ _).symm

/-- The text of a literal, read on its own, has the same elements and nothing behind. -/
theorem contents_raw {quote : Char} (hq : IsQuote quote) (text : List Char) :
    contents quote ((contents quote text).elements.flatMap Element.raw ++
      closing quote (contents quote text).terminated) =
        { contents quote text with rest := [] } := by
  fun_induction contents quote text with
  | case1 => simp [closing, contents]
  | case2 cs => simp [closing, contents]
  | case3 cs h => simp [closing, contents]
  | case4 c cs hcq hl hs ih =>
    simp only [elements_cons, terminated_cons, List.flatMap_cons, Element.raw,
      List.cons_append, List.nil_append]
    rw [contents, if_neg hcq, if_neg hl, if_pos hs, ih]
    rfl
  | case5 c cs hcq hl hs element ih =>
    obtain ⟨b, hraw, tail, rfl⟩ := raw_backslashed quote cs
    have hc : c = '\\' := by simpa using hs
    have hlen : element.raw.length - 1 = b.length := by
      rw [show element.raw = '\\' :: b from hraw, List.length_cons, Nat.add_sub_cancel]
    rw [hlen, List.drop_left] at ih ⊢
    simp only [elements_cons, terminated_cons, List.flatMap_cons, List.append_assoc]
    rw [show element.raw = '\\' :: b from hraw, List.cons_append, contents, if_neg (hc ▸ hcq),
      if_neg (by decide), if_neg (by decide)]
    -- The escape is cut off from what stood behind the literal, and reads as before.
    simp only [backslashed_contents hq]
    rw [hlen, List.drop_left, ih]
    rfl

/-- The source text of a literal, read again from behind its opening quote, gives the same
literal. -/
theorem scan_drop_raw {quote : Char} (hq : IsQuote quote) (text : List Char) :
    scan quote ((scan quote text).raw.drop 1) = scan quote text := by
  have h := contents_raw hq text
  rw [raw_eq (scan quote text), List.drop_one, List.tail_cons]
  simp only [scan, h]

/-! ### What stands behind a literal -/

/-- What stands behind a literal with its closing quote is not looked at. -/
theorem contents_append {quote : Char} (hq : IsQuote quote) {text : List Char}
    (h : (contents quote text).terminated) (ds : List Char) :
    contents quote (text ++ ds) =
      { contents quote text with rest := (contents quote text).rest ++ ds } := by
  fun_induction contents quote text with
  | case1 => exact absurd h (by simp)
  | case2 cs => rw [List.cons_append, contents, if_pos rfl]
  | case3 cs _ => exact absurd h (by simp)
  | case4 c cs hcq hl hs ih =>
    rw [List.cons_append, contents, if_neg hcq, if_neg hl, if_pos hs, ih h]
    rfl
  | case5 c cs hcq hl hs element ih =>
    obtain ⟨b, hraw, tail, rfl⟩ := raw_backslashed quote cs
    have hlen : element.raw.length - 1 = b.length := by
      rw [show element.raw = '\\' :: b from hraw, List.length_cons, Nat.add_sub_cancel]
    rw [hlen, List.drop_left] at ih h ⊢
    -- The escape ends at the closing quote at the latest.
    have hpart := contents_partition quote tail
    rw [terminated_cons] at h
    rw [h, closing, if_pos rfl, List.singleton_append] at hpart
    have hescape : backslashed quote (b ++ tail ++ ds) = backslashed quote (b ++ tail) := by
      rw [← hpart, ← List.append_assoc, List.append_assoc _ _ ds, List.cons_append,
        backslashed_append_quote hq, ← backslashed_append_quote hq _ (contents quote tail).rest]
    rw [List.cons_append, contents, if_neg hcq, if_neg hl, if_neg hs]
    simp only [hescape]
    rw [hlen, List.append_assoc, List.drop_left, ih h]
    rfl

/-- A literal with its closing quote is the same whatever stands behind it. -/
theorem scan_raw_append {quote : Char} (hq : IsQuote quote) {text rest cs : List Char}
    (h : (scan quote text).terminated) (hcut : (scan quote text).raw ++ rest = quote :: cs)
    (ds : List Char) : scan quote (cs ++ ds) = scan quote text := by
  rw [raw_eq, List.cons_append] at hcut
  obtain rfl := (List.cons.inj hcut).2
  have hbody := contents_raw hq text
  have hterm : (contents quote ((contents quote text).elements.flatMap Element.raw ++
      closing quote (contents quote text).terminated)).terminated := by
    rw [hbody]
    exact h
  show scan quote (((contents quote text).elements.flatMap Element.raw ++
    closing quote (contents quote text).terminated) ++ rest ++ ds) = scan quote text
  rw [List.append_assoc]
  simp only [scan, contents_append hq hterm, hbody]

theorem terminated_of_problems {l : Literal} (h : l.problems = []) : l.terminated := by
  cases hterm : l.terminated with
  | true => rfl
  | false => simp [Literal.problems, hterm] at h

end Literal

end FrontEnd
