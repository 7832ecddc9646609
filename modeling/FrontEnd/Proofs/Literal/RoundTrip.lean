/-
What is written into a literal is read back.

A character can be written into a literal in several forms: as it stands, by its code point in
hexadecimal or decimal digits, or by a letter.  Each character of a text may take its own form,
next to characters that could go on with it: behind three decimal digits a fourth can stand for
itself, and so can a brace or a hexadecimal digit behind a braced code point.  Whatever the
forms, nothing is wrong with the literal, and the parser reads the text back from it.

* `Literal.Numeral` — digits that write a number;
* `Literal.Writes` — the forms of a character;
* `contents_form` — reading a form gives its character, whatever stands behind it;
* `contents_forms` — so for the forms of a whole text up to the closing quote;
* `literals_read_back` — the literal made of the forms is one token with nothing wrong, and the
  parser finds the text in it.
-/
import FrontEnd.Proofs.Literal.Agreement
import FrontEnd.Proofs.Token.Blanks
import Mathlib.Data.List.TakeWhile
import Mathlib.Data.Nat.Digits.Defs

namespace FrontEnd

namespace Literal

/-! ### Forms -/

/-- The digit for a value below sixteen, in either case. -/
def IsDigit (c : Char) (value : Nat) : Prop :=
  "0123456789abcdef".toList[value]? = some c ∨ "0123456789ABCDEF".toList[value]? = some c

/-- The digits, the most significant first, write `n` to the given base. -/
def Numeral (base : Nat) (digits : List Char) (n : Nat) : Prop :=
  ∃ values, List.Forall₂ IsDigit digits values ∧ (∀ value ∈ values, value < base) ∧
    Nat.ofDigits base values.reverse = n

/-- What follows the backslash where a character is written by a letter or by itself. -/
def letters : List (Char × Char) :=
  [('n', '\n'), ('t', '\t'), ('r', '\r'), ('\\', '\\'), ('"', '"'), ('\'', '\'')]

/-- The forms in which a character can be written into a literal with the given quotes. -/
inductive Writes (quote : Char) : Char → List Char → Prop
  /-- The character itself. -/
  | plain {c : Char} (hquote : c ≠ quote) (hslash : c ≠ '\\') (hline : c ≠ '\n') :
    Writes quote c [c]
  /-- Its code point in one to six hexadecimal digits. -/
  | braced {c : Char} {digits : List Char} (hmany : 1 ≤ digits.length) (hfew : digits.length ≤ 6)
    (hvalue : Numeral 16 digits c.toNat) :
    Writes quote c ('\\' :: 'u' :: '\x7b' :: (digits ++ ['\x7d']))
  /-- Its code point in three decimal digits. -/
  | decimal {c : Char} {digits : List Char} (hthree : digits.length = 3)
    (hvalue : Numeral 10 digits c.toNat) : Writes quote c ('\\' :: digits)
  /-- A letter for it, or itself behind a backslash. -/
  | letter {c d : Char} (h : (d, c) ∈ letters) : Writes quote c ['\\', d]

/-! ### Digits -/

theorem IsDigit.digitValue? {c : Char} {value : Nat} (h : IsDigit c value) :
    Text.digitValue? c = some value := by
  have hlower : ∀ v < 16, ("0123456789abcdef".toList[v]?).bind Text.digitValue? = some v := by
    decide
  have hupper : ∀ v < 16, ("0123456789ABCDEF".toList[v]?).bind Text.digitValue? = some v := by
    decide
  rcases h with h | h
  · have hvalue := hlower value (List.getElem?_eq_some_iff.mp h).1
    rwa [h] at hvalue
  · have hvalue := hupper value (List.getElem?_eq_some_iff.mp h).1
    rwa [h] at hvalue

theorem IsDigit.isHexadecimal {c : Char} {value : Nat} (h : IsDigit c value) :
    Text.isHexadecimal c := by
  rw [Text.isHexadecimal, h.digitValue?]
  rfl

theorem IsDigit.isDecimal {c : Char} {value : Nat} (h : IsDigit c value) (hten : value < 10) :
    Text.isDecimal c := by
  have hlower : ∀ v < 10, ("0123456789abcdef".toList[v]?).map Text.isDecimal = some true := by
    decide
  have hupper : ∀ v < 10, ("0123456789ABCDEF".toList[v]?).map Text.isDecimal = some true := by
    decide
  rcases h with h | h
  · have hdecimal := hlower value hten
    rw [h] at hdecimal
    exact Option.some.inj hdecimal
  · have hdecimal := hupper value hten
    rw [h] at hdecimal
    exact Option.some.inj hdecimal

/-- Digits go on with the number that those before them write. -/
theorem readDigits?_eq {base : Nat} {digits : List Char} {values : List Nat}
    (hdigits : List.Forall₂ IsDigit digits values) (hbase : ∀ value ∈ values, value < base)
    (n : Nat) : Text.readDigits? base n digits =
      some (n * base ^ values.length + Nat.ofDigits base values.reverse) := by
  induction hdigits generalizing n with
  | nil => simp [Text.readDigits?]
  | @cons c value digits values hdigit _ ih =>
    have hlater := ih (fun v hv => hbase v (List.mem_cons_of_mem value hv)) (n * base + value)
    rw [Text.readDigits?, hdigit.digitValue?]
    simp only [if_pos (hbase value (by simp)), hlater]
    rw [List.reverse_cons, Nat.ofDigits_append, List.length_reverse, Nat.ofDigits_singleton,
      List.length_cons, pow_succ]
    ring_nf

/-- A number is read back from its digits. -/
theorem Numeral.readNumber? {base : Nat} {digits : List Char} {n : Nat}
    (h : Numeral base digits n) (hne : digits ≠ []) : Text.readNumber? base digits = some n := by
  obtain ⟨values, hdigits, hbase, rfl⟩ := h
  have hread := readDigits?_eq hdigits hbase 0
  rw [Nat.zero_mul, Nat.zero_add] at hread
  cases hdigits with
  | nil => exact absurd rfl hne
  | @cons c value digits values hdigit hrest =>
    have hplus : c ≠ '+' := by
      rintro rfl
      exact nomatch hdigit.digitValue?
    unfold Text.readNumber?
    split
    · next heq => exact absurd (List.cons.inj heq).1 hplus
    · exact hread

theorem scalar?_toNat (c : Char) : Escape.scalar? c.toNat = some c := by
  have hvalid : c.toNat.isValidChar := c.valid
  rw [Escape.scalar?, dif_pos hvalid]
  rfl

theorem Numeral.exists_of_mem {base : Nat} {digits : List Char} {n : Nat}
    (h : Numeral base digits n) {d : Char} (hd : d ∈ digits) :
    ∃ value < base, IsDigit d value := by
  obtain ⟨values, hdigits, hbase, -⟩ := h
  induction hdigits with
  | nil => simp at hd
  | @cons c value digits values hdigit _ ih =>
    rcases List.mem_cons.mp hd with rfl | hmem
    · exact ⟨value, hbase value (by simp), hdigit⟩
    · exact ih hmem fun v hv => hbase v (List.mem_cons_of_mem value hv)

theorem Numeral.all_hexadecimal {digits : List Char} {n : Nat} (h : Numeral 16 digits n) :
    ∀ d ∈ digits, Text.isHexadecimal d := by
  intro d hd
  obtain ⟨value, -, hdigit⟩ := h.exists_of_mem hd
  exact hdigit.isHexadecimal

theorem Numeral.all_decimal {digits : List Char} {n : Nat} (h : Numeral 10 digits n) :
    ∀ d ∈ digits, Text.isDecimal d := by
  intro d hd
  obtain ⟨value, hten, hdigit⟩ := h.exists_of_mem hd
  exact hdigit.isDecimal hten

/-! ### Escapes -/

section

variable {c : Char} {digits : List Char} (rest : List Char)

theorem body_braced (hmany : 1 ≤ digits.length) (hfew : digits.length ≤ 6)
    (hhex : ∀ d ∈ digits, Text.isHexadecimal d) :
    Escape.body ('u' :: '\x7b' :: (digits ++ ['\x7d']) ++ rest) =
      some ('u' :: '\x7b' :: (digits ++ ['\x7d'])) := by
  have hrun : (digits ++ '\x7d' :: rest).takeWhile Text.isHexadecimal = digits := by
    rw [takeWhile_append_stop (by decide)]
    exact List.takeWhile_eq_self_iff.mpr hhex
  have hbody : ∀ tail, Escape.body ('u' :: '\x7b' :: tail) =
      if 1 ≤ (tail.takeWhile Text.isHexadecimal).length ∧
          (tail.takeWhile Text.isHexadecimal).length ≤ 6 ∧
          (tail.drop (tail.takeWhile Text.isHexadecimal).length).head? = some '\x7d' then
        some ('u' :: '\x7b' :: (tail.takeWhile Text.isHexadecimal ++ ['\x7d']))
      else none := fun _ => rfl
  rw [List.cons_append, List.cons_append, List.append_assoc, List.singleton_append, hbody, hrun,
    List.drop_left, if_pos ⟨hmany, hfew, rfl⟩]

theorem decodeBody?_braced {n : Nat} (hmany : 1 ≤ digits.length) (hvalue : Numeral 16 digits n) :
    Escape.decodeBody? ('u' :: '\x7b' :: (digits ++ ['\x7d'])) = Escape.scalar? n := by
  have hne : digits ≠ [] := List.length_pos_iff.mp hmany
  have hbraced : Escape.braced? ('u' :: '\x7b' :: (digits ++ ['\x7d'])) = some digits := by
    simp [Escape.braced?]
  unfold Escape.decodeBody?
  rw [hbraced]
  show (Text.readNumber? 16 digits).bind Escape.scalar? = _
  rw [hvalue.readNumber? hne, Option.bind_some]

theorem body_decimal (hmany : 2 ≤ digits.length) (hfew : digits.length ≤ 3)
    (hdecimal : ∀ d ∈ digits, Text.isDecimal d)
    (hrest : digits.length = 3 ∨ ∀ x ∈ rest.head?, Text.isDecimal x = false) :
    Escape.body (digits ++ rest) = some digits := by
  have hbehind : (rest.take (3 - digits.length)).takeWhile Text.isDecimal = [] := by
    rcases hrest with hthree | hstop
    · rw [hthree, Nat.sub_self, List.take_zero, List.takeWhile_nil]
    · cases rest with
      | nil => rw [List.take_nil, List.takeWhile_nil]
      | cons x xs => cases 3 - digits.length <;> simp [hstop x rfl]
  have hrun : ((digits ++ rest).take 3).takeWhile Text.isDecimal = digits := by
    rw [List.take_append, List.take_of_length_le hfew, List.takeWhile_append_of_pos hdecimal,
      hbehind, List.append_nil]
  unfold Escape.body
  rw [hrun, if_pos hmany]

theorem decodeBody?_decimal {n : Nat} (hmany : 2 ≤ digits.length) (hvalue : Numeral 10 digits n) :
    Escape.decodeBody? digits = Escape.scalar? n := by
  have hread := hvalue.readNumber? (List.length_pos_iff.mp (by omega))
  have hall : digits.all Text.isDecimal := List.all_eq_true.mpr hvalue.all_decimal
  -- the first digit tells the digits from the other escapes
  match digits, hmany with
  | a :: b :: tail, _ =>
    have ha : Text.isDecimal a := hvalue.all_decimal a (by simp)
    have hx : a ≠ 'x' := by
      rintro rfl
      exact absurd ha (by decide)
    have hu : a ≠ 'u' := by
      rintro rfl
      exact absurd ha (by decide)
    have hbraced : Escape.braced? (a :: b :: tail) = none := by
      simp [Escape.braced?, hu]
    simp only [Escape.decodeBody?, hbraced, hall, hread, if_true]
    split
    · next heq => exact absurd (List.cons.inj heq).1 hx
    · rfl

theorem body_letter {d : Char} (h : (d, c) ∈ letters) :
    Escape.body ([d] ++ rest) = some [d] ∧ Escape.decodeBody? [d] = some c := by
  simp only [letters, List.mem_cons, Prod.mk.injEq, List.not_mem_nil, or_false] at h
  rcases h with ⟨rfl, rfl⟩ | ⟨rfl, rfl⟩ | ⟨rfl, rfl⟩ | ⟨rfl, rfl⟩ | ⟨rfl, rfl⟩ | ⟨rfl, rfl⟩
  all_goals exact ⟨rfl, rfl⟩

end

/-! ### Reading forms -/

/-- The character that an element stands for. -/
def Element.denotes : Element → Option Char
  | plain c => some c
  | escape _ value => some value
  | invalid _ => none

theorem IsQuote.ne_backslash {quote : Char} (hq : IsQuote quote) : '\\' ≠ quote := by
  rcases hq with rfl | rfl <;> decide

/-- An escape that is found and decoded is an element, and reading goes on behind it. -/
theorem contents_escape {quote c : Char} (hq : IsQuote quote) {body rest : List Char}
    (hbody : Escape.body (body ++ rest) = some body) (hdecode : Escape.decodeBody? body = some c) :
    contents quote ('\\' :: (body ++ rest)) =
      (contents quote rest).cons (.escape ('\\' :: body) c) := by
  have helement : backslashed quote (body ++ rest) = .escape ('\\' :: body) c := by
    simp only [backslashed, hbody, hdecode]
  have hdrop : (body ++ rest).drop ((Element.escape ('\\' :: body) c).raw.length - 1) = rest := by
    simp [Element.raw]
  rw [contents, if_neg hq.ne_backslash, if_neg (by decide), if_neg (by simp)]
  simp only [helement, hdrop]

/-- A form is read as its character, whatever stands behind it. -/
theorem contents_form {quote c : Char} (hq : IsQuote quote) {form : List Char}
    (h : Writes quote c form) (rest : List Char) :
    ∃ e : Element, e.denotes = some c ∧
      contents quote (form ++ rest) = (contents quote rest).cons e := by
  cases h with
  | plain hquote hslash hline =>
    refine ⟨.plain c, rfl, ?_⟩
    rw [List.singleton_append, contents, if_neg hquote, if_neg hline, if_pos hslash]
  | @braced digits hmany hfew hvalue =>
    exact ⟨_, rfl, contents_escape hq (body_braced rest hmany hfew hvalue.all_hexadecimal)
      ((decodeBody?_braced hmany hvalue).trans (scalar?_toNat c))⟩
  | @decimal digits hthree hvalue =>
    exact ⟨_, rfl, contents_escape hq (body_decimal rest (by omega) (by omega) hvalue.all_decimal
      (.inl hthree))
      ((decodeBody?_decimal (by omega) hvalue).trans (scalar?_toNat c))⟩
  | @letter d h =>
    obtain ⟨hbody, hdecode⟩ := body_letter rest h
    exact ⟨_, rfl, contents_escape hq hbody hdecode⟩

/-- The forms of a text are read as the text, up to the closing quote. -/
theorem contents_forms {quote : Char} (hq : IsQuote quote) {cs : List Char}
    {forms : List (List Char)} (h : List.Forall₂ (Writes quote) cs forms) (rest : List Char) :
    ∃ es : List Element, es.map Element.denotes = cs.map some ∧
      contents quote (forms.flatten ++ quote :: rest) = ⟨es, true, rest⟩ := by
  induction h with
  | nil => exact ⟨[], rfl, by rw [List.flatten_nil, List.nil_append, contents, if_pos rfl]⟩
  | @cons c form cs forms hform _ ih =>
    obtain ⟨es, hes, hread⟩ := ih
    obtain ⟨e, he, hstep⟩ := contents_form hq hform (forms.flatten ++ quote :: rest)
    refine ⟨e :: es, ?_, ?_⟩
    · rw [List.map_cons, he, hes, List.map_cons]
    · rw [List.flatten_cons, List.append_assoc, hstep, hread]
      rfl

/-! ### What a literal stands for -/

theorem decode_cons (segment : Segment) (segments : List Segment) :
    decode (segment :: segments) = decode [segment] ++ decode segments := by
  simp only [decode, List.map_cons, List.map_nil, String.join_cons, String.join_nil,
    String.append_empty]

theorem decode_flush (run : List Char) (segments : List Segment) :
    (decode (flush run segments)).toList = run.reverse ++ (decode segments).toList := by
  unfold flush
  split
  · next h => rw [List.isEmpty_iff.mp h, List.reverse_nil, List.nil_append]
  · rw [decode_cons, String.toList_append]
    simp [decode]

/-- A literal stands for the characters that its elements stand for. -/
theorem decode_join (run : List Char) (es : List Element) :
    (decode (join run es)).toList = run.reverse ++ es.filterMap Element.denotes := by
  induction es generalizing run with
  | nil =>
    rw [join, decode_flush]
    rfl
  | cons e es ih =>
    cases e with
    | plain c =>
      rw [join, ih, List.reverse_cons, List.append_assoc]
      rfl
    | escape raw value =>
      have hvalue : (decode [.escape (String.ofList raw) value]).toList = [value] := by
        simp [decode]
      rw [join, decode_flush, decode_cons, String.toList_append, hvalue, ih]
      rfl
    | invalid raw =>
      have hvalue : (decode [.invalid (String.ofList raw)]).toList = [] := by simp [decode]
      rw [join, decode_flush, decode_cons, String.toList_append, hvalue, ih]
      rfl

theorem invalidElements_eq_nil {es : List Element} (h : ∀ e ∈ es, e.denotes ≠ none)
    (offset : Nat) : invalidElements offset es = [] := by
  refine List.eq_nil_iff_forall_not_mem.mpr fun problem hmem => ?_
  obtain ⟨pre, raw, post, rfl, -⟩ := exists_of_mem_invalidElements hmem
  exact h (.invalid raw) (by simp) rfl

/-! ### A literal made of forms -/

/-- The forms between quotes. -/
def ofForms (quote : Char) (forms : List (List Char)) : String :=
  String.ofList (quote :: (forms.flatten ++ [quote]))

section

variable {quote : Char} (hq : IsQuote quote) {cs : List Char} {forms : List (List Char)}
  (h : List.Forall₂ (Writes quote) cs forms)

include hq h

/-- The literal made of the forms of a text. -/
theorem scan_forms : ∃ es : List Element, es.map Element.denotes = cs.map some ∧
    scan quote (forms.flatten ++ [quote]) = ⟨quote, es, true⟩ ∧
    (scan quote (forms.flatten ++ [quote])).raw = quote :: (forms.flatten ++ [quote]) := by
  obtain ⟨es, hes, hread⟩ := contents_forms hq h []
  have hpartition := scan_partition quote (forms.flatten ++ [quote])
  rw [hread, List.append_nil] at hpartition
  exact ⟨es, hes, by rw [scan, hread], hpartition⟩

/-- Nothing is wrong with it. -/
theorem problems_forms : (scan quote (forms.flatten ++ [quote])).problems = [] := by
  obtain ⟨es, hes, hscan, -⟩ := scan_forms hq h
  rw [hscan, problems, invalidElements_eq_nil]
  · rfl
  · intro e he hnone
    have hmem : none ∈ cs.map some := by
      rw [← hes, ← hnone]
      exact List.mem_map_of_mem he
    simp at hmem

/-- It denotes as many characters as the text has. -/
theorem size_forms : (scan quote (forms.flatten ++ [quote])).size = cs.length := by
  obtain ⟨es, hes, hscan, -⟩ := scan_forms hq h
  have hlength := congrArg List.length hes
  rw [List.length_map, List.length_map] at hlength
  rw [hscan]
  exact hlength

/-- It stands for the text. -/
theorem value_forms :
    decode (scan quote (forms.flatten ++ [quote])).segments = String.ofList cs := by
  obtain ⟨es, hes, hscan, -⟩ := scan_forms hq h
  have hdenotes : es.filterMap Element.denotes = cs := by
    calc es.filterMap Element.denotes
        = (es.map Element.denotes).filterMap id := by rw [List.filterMap_map, Function.id_comp]
      _ = (cs.map some).filterMap id := by rw [hes]
      _ = cs := by simp
  rw [hscan, segments, ← String.toList_inj, decode_join, hdenotes, String.toList_ofList]
  rfl

end

end Literal

/-! ### Tokens -/

namespace Lexeme

theorem first_string (cs : List Char) : first '"' cs = stringLiteral cs := by
  have hopens : Rule.table.filter (·.opens '"') = [.string] := by decide +kernel
  unfold first
  rw [Rule.first?_cons, hopens]
  rfl

theorem first_char (cs : List Char) : first '\'' cs = charLiteral cs := by
  have hopens : Rule.table.filter (·.opens '\'') = [.char] := by decide +kernel
  unfold first
  rw [Rule.first?_cons, hopens]
  rfl

end Lexeme

/-- A text that is one piece is one piece. -/
theorem lexemes_of_first_text {c : Char} {cs : List Char} (h : (Lexeme.first c cs).text = c :: cs) :
    lexemes (c :: cs) = [Lexeme.first c cs] := by
  obtain ⟨rest, htext, hlex⟩ := lexemes_cons c cs
  have hrest : rest = [] := by
    rw [h] at htext
    exact List.append_right_eq_self.mp htext
  rw [hlex, hrest, lexemes]

/-- The token that a whole text is. -/
def Token.whole (kind : Kind) (source : String) : Token :=
  ⟨kind, source, ⟨Position.start, Position.start.after source.toList⟩⟩

/-- A text that is one token with nothing wrong. -/
theorem tokenize_of_lexemes {kind : Kind} {cs : List Char}
    (h : lexemes cs = [Lexeme.token kind cs]) :
    tokenize (String.ofList cs) =
      ⟨⟨[Token.whole kind (String.ofList cs), Token.eofAt (Position.start.after cs)], []⟩, []⟩ := by
  have htext : lexemesText [Lexeme.token kind cs] = cs := List.append_nil cs
  rw [tokenize, String.toList_ofList, h, ofLexemes_eq, htext, Token.whole, String.toList_ofList]
  rfl

section

variable {cs : List Char} {forms : List (List Char)}

theorem lexemes_string (h : List.Forall₂ (Literal.Writes '"') cs forms) :
    lexemes ('"' :: (forms.flatten ++ ['"'])) =
      [Lexeme.token .string ('"' :: (forms.flatten ++ ['"']))] := by
  obtain ⟨-, -, -, hraw⟩ := Literal.scan_forms (.inl rfl) h
  have hfirst : Lexeme.first '"' (forms.flatten ++ ['"']) =
      Lexeme.token .string ('"' :: (forms.flatten ++ ['"'])) := by
    rw [Lexeme.first_string, Lexeme.stringLiteral, hraw, Literal.problems_forms (.inl rfl) h]
    rfl
  rw [lexemes_of_first_text (by rw [hfirst]; rfl), hfirst]

theorem lexemes_char {c : Char} (h : List.Forall₂ (Literal.Writes '\'') [c] forms) :
    lexemes ('\'' :: (forms.flatten ++ ['\''])) =
      [Lexeme.token .char ('\'' :: (forms.flatten ++ ['\'']))] := by
  obtain ⟨es, -, hscan, hraw⟩ := Literal.scan_forms (.inr rfl) h
  have hsize : Lexeme.sizeProblems (Literal.scan '\'' (forms.flatten ++ ['\''])) = [] := by
    rw [Lexeme.sizeProblems, Literal.size_forms (.inr rfl) h]
    split <;> rfl
  have hfirst : Lexeme.first '\'' (forms.flatten ++ ['\'']) =
      Lexeme.token .char ('\'' :: (forms.flatten ++ ['\''])) := by
    rw [Lexeme.first_char, Lexeme.charLiteral, hraw, hsize, Literal.problems_forms (.inr rfl) h]
    rfl
  rw [lexemes_of_first_text (by rw [hfirst]; rfl), hfirst]

end

/-! ### Expressions -/

namespace Parser

/-- The parts that the parser makes of a literal stand for what its text stands for. -/
theorem decode_literalParts (kind : Kind) {quote : Char} (hq : Literal.IsQuote quote)
    {cs : List Char} {forms : List (List Char)} (h : List.Forall₂ (Literal.Writes quote) cs forms) :
    Literal.decode ((literalParts (Token.whole kind (Literal.ofForms quote forms)) quote).map
      (·.segment)) = String.ofList cs := by
  have hparts := literalParts?_of_quote (t := Token.whole kind (Literal.ofForms quote forms))
    (show (Literal.ofForms quote forms).toList = quote :: (forms.flatten ++ [quote]) from
      String.toList_ofList)
  rw [literalParts, hparts, Option.getD_some, segments_placeSegments]
  exact Literal.value_forms hq h

section

variable {s : State} {t : Token} (hcurrent : s.current = t) (hheadless : ¬ t.Headless)

include hcurrent hheadless

/-- An expression that is a string token. -/
theorem primary_string (hkind : t.kind = .string) :
    primary Grammar.standard s = .ok (.string ⟨literalParts t '"', t.span⟩) s.advance := by
  have hnext : kind s = .ok .string s := by
    rw [← hkind, ← hcurrent]
    rfl
  rw [primary, goal, fix_run, goalOf, primaryOf, bind_of_ok hnext]
  exact bind_of_ok (stringLiteral_run hcurrent hheadless hkind)

/-- An expression that is a char token. -/
theorem primary_char (hkind : t.kind = .char) :
    primary Grammar.standard s = .ok (.char ⟨literalParts t '\'', t.span⟩) s.advance := by
  have hnext : kind s = .ok .char s := by
    rw [← hkind, ← hcurrent]
    rfl
  rw [primary, goal, fix_run, goalOf, primaryOf, bind_of_ok hnext]
  exact bind_of_ok (charLiteral_run hcurrent hheadless hkind)

end

end Parser

/-- **What is written into a literal is read back.**  Write each character of a text in any of
its forms, and put the forms between double quotes: that is one token, over all of it, with
nothing wrong, and wherever the parser meets the token it makes a string literal of it that
stands for the text.  So is one character, in any of its forms between single quotes, a char
literal that stands for the character. -/
theorem literals_read_back :
    (∀ (text : String) (forms : List (List Char)),
      List.Forall₂ (Literal.Writes '"') text.toList forms →
        (tokenize (Literal.ofForms '"' forms)).diagnostics = [] ∧
        (tokenize (Literal.ofForms '"' forms)).stream =
          ⟨[Token.whole .string (Literal.ofForms '"' forms),
            Token.eofAt (Position.start.after (Literal.ofForms '"' forms).toList)], []⟩ ∧
        ∀ s : Parser.State, s.current = Token.whole .string (Literal.ofForms '"' forms) →
          ∃ literal, Parser.primary Grammar.standard s = .ok (.string literal) s.advance ∧
            literal.value = text) ∧
    ∀ (c : Char) (form : List Char), Literal.Writes '\'' c form →
      (tokenize (Literal.ofForms '\'' [form])).diagnostics = [] ∧
      (tokenize (Literal.ofForms '\'' [form])).stream =
        ⟨[Token.whole .char (Literal.ofForms '\'' [form]),
          Token.eofAt (Position.start.after (Literal.ofForms '\'' [form]).toList)], []⟩ ∧
      ∀ s : Parser.State, s.current = Token.whole .char (Literal.ofForms '\'' [form]) →
        ∃ literal, Parser.primary Grammar.standard s = .ok (.char literal) s.advance ∧
          literal.value? = some c := by
  constructor
  · intro text forms h
    have hlexed := tokenize_of_lexemes (lexemes_string h)
    have hmem : Token.whole .string (Literal.ofForms '"' forms) ∈
        (tokenize (Literal.ofForms '"' forms)).stream.tokens := by
      rw [Literal.ofForms, hlexed]
      exact List.mem_cons_self
    refine ⟨congrArg Lexed.diagnostics hlexed, ?_, ?_⟩
    · rw [Literal.ofForms, hlexed, String.toList_ofList]
    · intro s hcurrent
      have hvalue := Parser.decode_literalParts .string (.inl rfl) h
      rw [String.ofList_toList] at hvalue
      exact ⟨_, Parser.primary_string hcurrent (not_headless_of_mem_tokens hmem) rfl, hvalue⟩
  · intro c form hform
    have h : List.Forall₂ (Literal.Writes '\'') [c] [form] := .cons hform .nil
    have hlexed := tokenize_of_lexemes (lexemes_char h)
    have hmem : Token.whole .char (Literal.ofForms '\'' [form]) ∈
        (tokenize (Literal.ofForms '\'' [form])).stream.tokens := by
      rw [Literal.ofForms, hlexed]
      exact List.mem_cons_self
    refine ⟨congrArg Lexed.diagnostics hlexed, ?_, ?_⟩
    · rw [Literal.ofForms, hlexed, String.toList_ofList]
    · intro s hcurrent
      have hvalue := Parser.decode_literalParts .char (.inr rfl) h
      refine ⟨_, Parser.primary_char hcurrent (not_headless_of_mem_tokens hmem) rfl, ?_⟩
      rw [CharLiteral.value?, hvalue, String.toList_ofList]

/-- An upper case letter by its code point, with a digit behind it, by its code point once more,
and a line feed. -/
def mixedForms : List (List Char) :=
  [['\\', '0', '7', '4'], ['1'], "\\u\x7b04a\x7d".toList, ['\\', 'n']]

theorem literals_read_back_mixedForms :
    (∃ literal s, Parser.primary Grammar.standard
        (Parser.State.ofStream (tokenize (Literal.ofForms '"' mixedForms)).stream) =
          .ok (.string literal) s ∧
      literal.value = "J1J\n") ∧
    ∃ literal s, Parser.primary Grammar.standard
        (Parser.State.ofStream (tokenize (Literal.ofForms '\'' [['\\', '0', '7', '4']])).stream) =
          .ok (.char literal) s ∧
      literal.value? = some 'J' := by
  have hdecimal : ∀ quote, Literal.Writes quote 'J' ['\\', '0', '7', '4'] := fun quote =>
    .decimal rfl ⟨[0, 7, 4], .cons (.inl rfl) (.cons (.inl rfl) (.cons (.inl rfl) .nil)),
      by decide, rfl⟩
  have hbraced : Literal.Writes '"' 'J' ('\\' :: 'u' :: '\x7b' :: (['0', '4', 'a'] ++ ['\x7d'])) :=
    .braced (by decide) (by decide)
      ⟨[0, 4, 10], .cons (.inl rfl) (.cons (.inl rfl) (.cons (.inl rfl) .nil)), by decide, rfl⟩
  have hforms : List.Forall₂ (Literal.Writes '"') "J1J\n".toList mixedForms :=
    .cons (hdecimal '"') (.cons (.plain (by decide) (by decide) (by decide))
      (.cons hbraced (.cons (.letter (by decide)) .nil)))
  constructor
  · obtain ⟨-, hstream, hread⟩ := literals_read_back.1 "J1J\n" mixedForms hforms
    rw [hstream]
    obtain ⟨literal, hrun, hvalue⟩ := hread (Parser.State.ofStream ⟨[_, Token.eofAt _], []⟩) rfl
    exact ⟨literal, _, hrun, hvalue⟩
  · obtain ⟨-, hstream, hread⟩ := literals_read_back.2 'J' _ (hdecimal '\'')
    rw [hstream]
    obtain ⟨literal, hrun, hvalue⟩ := hread (Parser.State.ofStream ⟨[_, Token.eofAt _], []⟩) rfl
    exact ⟨literal, _, hrun, hvalue⟩

end FrontEnd
