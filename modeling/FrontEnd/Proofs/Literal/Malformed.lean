/-
What a malformed char literal stands for.

The lexer finds fault with a char literal by what it sees of it: elements that stand for nothing,
a missing closing quote, and how many elements there are.  The tree gives it a value by what is
left when the elements that stand for nothing are dropped.  These do not agree: a single character
is left of a literal that does not close, and of one that closes behind this character and
elements that stand for nothing.

* `lexicalWithin` — what the lexer reported about the text inside a span;
* `lexicalWithin_eq` — inside a token, these are the defects of this token;
* `charValue_iff` — a char literal in the tree of a text has a value just if it has one element
  more than invalid escapes are reported inside it, which covers the two cases above and that of
  a literal with nothing wrong, and no others;
* `charValue_malformed` — literals with a value in which something is wrong.
-/
import FrontEnd.Proofs.Literal.RoundTrip
import FrontEnd.Proofs.Token.Defects
import FrontEnd.Proofs.Tree.Chars

namespace FrontEnd

/-- What the lexer reported about the text of `source` inside `s`. -/
def lexicalWithin (source : String) (s : Span) : List Diagnostic :=
  (tokenize source).diagnostics.filter fun d => s.contains d.span

/-- An escape that stands for nothing. -/
def Cause.isInvalidEscape : Cause → Bool
  | .invalidEscape _ => true
  | _ => false

/-- Too many characters between the quotes of a char literal. -/
def Cause.isOverlongChar : Cause → Bool
  | .overlongChar _ => true
  | _ => false

/-- How many characters a char literal shows, one for each escape and for each element that
stands for nothing. -/
def CharLiteral.units (l : CharLiteral) : Nat := (l.parts.map (·.segment.units)).sum

/-! ### What is wrong inside a token -/

/-- Whatever is wrong takes up some of the text. -/
theorem Literal.wide_of_mem_problems {quote : Char} {text : List Char} {problem : Problem}
    (h : problem ∈ (scan quote text).problems) : problem.first < problem.last := by
  rcases List.mem_append.mp h with hmem | hmem
  · obtain ⟨pre, raw, post, hes, rfl⟩ := exists_of_mem_invalidElements hmem
    exact Nat.lt_add_of_pos_right
      (byteLength_pos (raw_ne_nil quote text (.invalid raw) (by simp [hes])))
  · split at hmem
    · simp at hmem
    · obtain rfl := List.mem_singleton.mp hmem
      exact byteLength_pos (List.cons_ne_nil _ _)

theorem Lexeme.wide_of_mem_problems {c : Char} {cs : List Char} {problem : Problem}
    (h : problem ∈ (first c cs).problems) : problem.first < problem.last := by
  unfold first at h
  split at h
  · obtain rfl := List.mem_singleton.mp h
    exact c.utf8Size_pos
  · split at h
    · simp [trivia] at h
    · simp [trivia] at h
    · simp [trivia] at h
    · simp [token] at h
    · simp [token] at h
    · exact Literal.wide_of_mem_problems h
    · rcases List.mem_append.mp h with hmem | hmem
      · exact Literal.wide_of_mem_problems hmem
      · have hpos := byteLength_pos (List.cons_ne_nil '\''
          ((Literal.scan '\'' cs).elements.flatMap Literal.Element.raw ++
            Literal.closing '\'' (Literal.scan '\'' cs).terminated))
        unfold sizeProblems at hmem
        split at hmem
        · split at hmem
          · rw [List.mem_singleton.mp hmem]
            exact hpos
          · simp at hmem
          · rw [List.mem_singleton.mp hmem]
            exact hpos
        · simp at hmem
    · simp [token] at h

/-- What is wrong with a piece starts and ends inside it, and does not end where it starts. -/
theorem offsets_of_mem_problemsAt {p : Position} {c : Char} {cs : List Char} {d : Diagnostic}
    (h : d ∈ Lexeme.problemsAt (Lexeme.first c cs, p)) :
    p.offset ≤ d.span.start.offset ∧ d.span.start.offset < d.span.stop.offset ∧
      d.span.stop.offset ≤ (p.after (Lexeme.first c cs).text).offset := by
  obtain ⟨problem, hproblem, rfl⟩ := List.mem_map.mp h
  have hwide := Lexeme.wide_of_mem_problems hproblem
  obtain ⟨before, covered, rest, htext, hfirst, hlast⟩ := Lexeme.within_of_mem_problems hproblem
  rw [← byteLength_append] at hlast
  have hstart := p.ahead_append before (covered ++ rest)
  have hstop := p.ahead_append (before ++ covered) rest
  rw [List.append_assoc] at hstop
  show p.offset ≤ (p.ahead problem.first _).offset ∧
    (p.ahead problem.first _).offset < (p.ahead problem.last _).offset ∧
      (p.ahead problem.last _).offset ≤ _
  rw [htext, hfirst, hlast, hstart, hstop]
  simp only [Position.offset_after, byteLength_append] at *
  omega

theorem offsets_of_mem_placedProblems {p : Position} {text : List Char} {d : Diagnostic}
    (h : d ∈ placedProblems p (lexemes text)) :
    p.offset ≤ d.span.start.offset ∧ d.span.start.offset < d.span.stop.offset := by
  refine ⟨(nodup_starts p text).2 d h, ?_⟩
  obtain ⟨before, c, cs, -, problem, hproblem, rfl⟩ := exists_problem h
  exact (offsets_of_mem_problemsAt (List.mem_map_of_mem hproblem)).2.1

/-- What is wrong with a text inside one of its tokens is what is wrong with that token. -/
theorem filter_placedProblems {p : Position} {text : List Char} {t : Token}
    (h : t ∈ placedTokens p (lexemes text)) :
    (placedProblems p (lexemes text)).filter (fun d => t.span.contains d.span) = t.defects := by
  induction text using lexemes_induction generalizing p with
  | nil => simp [lexemes, placedTokens] at h
  | cons c cs rest htext hlex ih =>
    have hproblems : (Lexeme.first c cs).problems.map (·.locate p (Lexeme.first c cs).text) =
        Lexeme.problemsAt (Lexeme.first c cs, p) := rfl
    have hpieces := problemsAt_first p c cs
    rw [hlex, placedProblems, hproblems, List.filter_append]
    rw [hlex] at h
    -- Nothing that is wrong with the piece lies inside a token behind it.
    have hbehind : t ∈ placedTokens (p.after (Lexeme.first c cs).text) (lexemes rest) →
        (Lexeme.problemsAt (Lexeme.first c cs, p)).filter (fun d => t.span.contains d.span) ++
          (placedProblems (p.after (Lexeme.first c cs).text) (lexemes rest)).filter
            (fun d => t.span.contains d.span) = t.defects := by
      intro hmem
      rw [ih hmem, List.filter_eq_nil_iff.mpr, List.nil_append]
      intro d hd hinside
      have hstart := (offset_of_mem_placedTokens hmem).1
      have hd' := offsets_of_mem_problemsAt hd
      have hinside' := (Span.contains_iff.mp hinside).1
      omega
    unfold placedTokens at h
    split at h
    · next kind hkind =>
      rcases List.mem_cons.mp h with rfl | hmem
      · -- The token is the piece itself, and what is wrong with it lies inside it.
        have hself : Lexeme.problemsAt (Lexeme.first c cs, p) =
            Token.defects ⟨kind, String.ofList (Lexeme.first c cs).text,
              (Lexeme.first c cs).spanAt p⟩ := by
          rw [hpieces]
          simp [Lexeme.tokenAt?, Lexeme.triviaAt?, hkind]
        rw [← hself, List.filter_eq_self.mpr, List.filter_eq_nil_iff.mpr, List.append_nil]
        · intro d hd hinside
          have hd' := offsets_of_mem_placedProblems hd
          have hstop := (Span.contains_iff.mp hinside).2
          simp only [Lexeme.spanAt] at hstop
          omega
        · intro d hd
          obtain ⟨hstart, -, hstop⟩ := offsets_of_mem_problemsAt hd
          exact Span.contains_iff.mpr ⟨hstart, hstop⟩
      · exact hbehind hmem
    · exact hbehind h

/-- What the lexer reported inside a token is what is wrong with the token. -/
theorem lexicalWithin_eq {source : String} {t : Token}
    (h : t ∈ placedTokens Position.start (lexemes source.toList)) :
    lexicalWithin source t.span = t.defects := by
  rw [lexicalWithin, tokenize, ofLexemes_eq]
  exact filter_placedProblems h

/-! ### What is left of a literal -/

namespace Literal

/-- An element stands for a character, or for nothing. -/
theorem length_filterMap_denotes (es : List Element) :
    (es.filterMap Element.denotes).length + es.countP (·.denotes.isNone) = es.length := by
  induction es with
  | nil => rfl
  | cons e es ih =>
    cases hdenotes : e.denotes with
    | none =>
      rw [List.filterMap_cons_none hdenotes, List.countP_cons_of_pos (by simp [hdenotes]),
        List.length_cons]
      omega
    | some c =>
      rw [List.filterMap_cons_some hdenotes, List.countP_cons_of_neg (by simp [hdenotes]),
        List.length_cons, List.length_cons]
      omega

/-- An element that stands for nothing is a defect, and no other element is. -/
theorem length_defects_join (p : Position) (es : List Element) :
    ((Parser.placeSegments p (join [] es)).filterMap LiteralPart.defect?).length =
      es.countP (·.denotes.isNone) := by
  induction es generalizing p with
  | nil => rfl
  | cons e es ih =>
    cases e with
    | plain c =>
      rw [join, defects_join, ih, List.countP_cons_of_neg (by simp [Element.denotes])]
    | escape raw value =>
      rw [join, flush_nil, Parser.placeSegments, List.filterMap_cons_none rfl, ih,
        List.countP_cons_of_neg (by simp [Element.denotes])]
    | invalid raw =>
      have hdefect (span : Span) : LiteralPart.defect? ⟨.invalid (String.ofList raw), span⟩ =
          some ⟨.invalidEscape (String.ofList raw), span⟩ := rfl
      rw [join, flush_nil, Parser.placeSegments, List.filterMap_cons_some (hdefect _),
        List.length_cons, ih, List.countP_cons_of_pos (by simp [Element.denotes])]

end Literal

section

variable {t : Token} (hheadless : ¬ t.Headless)

include hheadless in
theorem length_invalidDefects (hkind : t.kind = .char) :
    (t.invalidDefects '\'').length =
      (t.literal '\'').elements.countP (·.denotes.isNone) := by
  rw [Token.invalidDefects, literalParts_of_not_headless (hkind ▸ .char) hheadless]
  exact Literal.length_defects_join _ _

theorem isInvalidEscape_of_mem {quote : Char} {d : Diagnostic} (h : d ∈ t.invalidDefects quote) :
    d.cause.isInvalidEscape := by
  obtain ⟨part, -, hpart⟩ := List.mem_filterMap.mp h
  unfold LiteralPart.defect? at hpart
  split at hpart
  · rw [← Option.some.inj hpart]
    rfl
  · cases hpart

/-- The char literal that the tree makes of a token. -/
def Token.charLiteral (t : Token) : CharLiteral := ⟨Parser.literalParts t '\'', t.span⟩

include hheadless in
theorem segments_charLiteral (hkind : t.kind = .char) :
    t.charLiteral.parts.map (·.segment) = (t.literal '\'').segments := by
  rw [Token.charLiteral, literalParts_of_not_headless (hkind ▸ .char) hheadless]
  exact segments_placeSegments _ _

include hheadless in
theorem units_charLiteral (hkind : t.kind = .char) :
    t.charLiteral.units = (t.literal '\'').elements.length := by
  have hsegments := segments_charLiteral hheadless hkind
  have hunits := congrArg (fun ss => (ss.map (·.units)).sum) hsegments
  rw [List.map_map] at hunits
  exact hunits.trans (Literal.units_segments _)

include hheadless in
/-- The literal has a value just if one of its elements stands for a character. -/
theorem isSome_value?_charLiteral (hkind : t.kind = .char) : t.charLiteral.value?.isSome ↔
    ((t.literal '\'').elements.filterMap Literal.Element.denotes).length = 1 := by
  have hsegments := segments_charLiteral hheadless hkind
  have hvalue : (Literal.decode (t.charLiteral.parts.map (·.segment))).toList =
      (t.literal '\'').elements.filterMap Literal.Element.denotes := by
    rw [hsegments, Literal.segments, Literal.decode_join]
    rfl
  rw [CharLiteral.value?, hvalue, List.length_eq_one_iff]
  split
  · next c h => simp [h]
  · next h => simpa using h

theorem defects_char (hkind : t.kind = .char) : t.defects =
    t.invalidDefects '\'' ++ t.closingDefects '\'' .unterminatedChar ++ t.sizeDefects := by
  unfold Token.defects
  rw [hkind]

theorem closingDefects_char (t : Token) : t.closingDefects '\'' .unterminatedChar = [] ∧
      (t.literal '\'').terminated ∨
    t.closingDefects '\'' .unterminatedChar = [⟨.unterminatedChar, t.span⟩] ∧
      (t.literal '\'').terminated = false := by
  unfold Token.closingDefects
  split
  · next h => exact .inl ⟨rfl, h⟩
  · next h => exact .inr ⟨rfl, by simpa using h⟩

/-- A literal that closes is measured. -/
theorem sizeDefects_of_terminated (h : (t.literal '\'').terminated) :
    t.sizeDefects = match (t.literal '\'').elements.length with
      | 0 => [⟨.emptyChar, t.span⟩]
      | 1 => []
      | _ => [⟨.overlongChar t.text, t.span⟩] := by
  rw [Token.sizeDefects, if_pos h, Literal.units_segments]
  rfl

include hheadless

/-- The invalid escapes among the defects of a char token are its elements that stand for
nothing. -/
theorem countP_defects (hkind : t.kind = .char) : t.defects.countP (·.cause.isInvalidEscape) =
    (t.literal '\'').elements.countP (·.denotes.isNone) := by
  have hclosing : (t.closingDefects '\'' .unterminatedChar).countP (·.cause.isInvalidEscape) =
      0 := by
    rcases closingDefects_char t with ⟨h, -⟩ | ⟨h, -⟩ <;> rw [h] <;> rfl
  have hsize : t.sizeDefects.countP (·.cause.isInvalidEscape) = 0 := by
    unfold Token.sizeDefects
    split
    · split <;> rfl
    · rfl
  have hinvalid := List.countP_eq_length.mpr fun d (hd : d ∈ t.invalidDefects '\'') =>
    isInvalidEscape_of_mem hd
  rw [defects_char hkind]
  simp only [List.countP_append, hclosing, hsize, hinvalid, Nat.add_zero]
  exact length_invalidDefects hheadless hkind

/-- A char token with nothing wrong has one element, and this stands for a character. -/
theorem value_of_no_defects (hkind : t.kind = .char) (h : t.defects = []) :
    ((t.literal '\'').elements.filterMap Literal.Element.denotes).length = 1 := by
  rw [defects_char hkind] at h
  obtain ⟨hrest, hsize⟩ := List.append_eq_nil_iff.mp h
  obtain ⟨hinvalid, hclosing⟩ := List.append_eq_nil_iff.mp hrest
  have hlength := Literal.length_filterMap_denotes (t.literal '\'').elements
  have hnothing := length_invalidDefects hheadless hkind
  rw [hinvalid, List.length_nil] at hnothing
  have hone : (t.literal '\'').elements.length = 1 := by
    rcases closingDefects_char t with ⟨-, hterminated⟩ | ⟨hmissing, -⟩
    · rw [sizeDefects_of_terminated hterminated] at hsize
      split at hsize
      · cases hsize
      · assumption
      · cases hsize
    · rw [hmissing] at hclosing
      cases hclosing
  omega

/-- What is wrong with a char token that has a value: it does not close, or it closes behind too
many elements, of which all but one stand for nothing. -/
theorem defects_of_value (hkind : t.kind = .char)
    (hvalue : ((t.literal '\'').elements.filterMap Literal.Element.denotes).length = 1) :
    t.defects = [] ∨ (∃ d ∈ t.defects, d.cause = .unterminatedChar) ∨
    (∃ d ∈ t.defects, d.cause.isOverlongChar) ∧ ∃ d ∈ t.defects, d.cause.isInvalidEscape := by
  have hlength := Literal.length_filterMap_denotes (t.literal '\'').elements
  have hinvalid := length_invalidDefects hheadless hkind
  have hdefects := defects_char hkind
  rcases closingDefects_char t with ⟨hclosing, hterminated⟩ | ⟨hclosing, -⟩
  · rw [hclosing, List.append_nil, sizeDefects_of_terminated hterminated] at hdefects
    cases hnothing : t.invalidDefects '\'' with
    | nil =>
      rw [hnothing, List.length_nil] at hinvalid
      have hone : (t.literal '\'').elements.length = 1 := by omega
      rw [hnothing, hone] at hdefects
      exact .inl hdefects
    | cons d ds =>
      rw [hnothing, List.length_cons] at hinvalid
      obtain ⟨n, hmany⟩ : ∃ n, (t.literal '\'').elements.length = n + 2 := ⟨ds.length, by omega⟩
      rw [hmany] at hdefects
      refine .inr (.inr ⟨⟨⟨.overlongChar t.text, t.span⟩, ?_, rfl⟩, d, ?_, ?_⟩)
      · rw [hdefects]
        simp
      · rw [hdefects, hnothing]
        simp
      · exact isInvalidEscape_of_mem (hnothing ▸ List.mem_cons_self)
  · refine .inr (.inl ⟨⟨.unterminatedChar, t.span⟩, ?_, rfl⟩)
    rw [hdefects, hclosing]
    simp

end

/-- **The value of a char literal.**  A char literal in the tree of a text has a value just if it
shows one character more than invalid escapes are reported inside it.  It has one if nothing is
reported inside it.  If something is reported it has one only where it is reported not to close,
or where both too many characters and an invalid escape are reported. -/
theorem charValue_iff (source : String) :
    ∀ l ∈ (parseSource source).file.chars,
      (l.value?.isSome ↔
        l.units = (lexicalWithin source l.span).countP (·.cause.isInvalidEscape) + 1) ∧
      (lexicalWithin source l.span = [] → l.value?.isSome) ∧
      (lexicalWithin source l.span ≠ [] → l.value?.isSome →
        (∃ d ∈ lexicalWithin source l.span, d.cause = .unterminatedChar) ∨
        (∃ d ∈ lexicalWithin source l.span, d.cause.isOverlongChar) ∧
          ∃ d ∈ lexicalWithin source l.span, d.cause.isInvalidEscape) := by
  intro l hl
  obtain ⟨t, ht, hkind, rfl⟩ := exists_charToken hl
  change (t.charLiteral.value?.isSome ↔ t.charLiteral.units = _) ∧
    (lexicalWithin source t.span = [] → t.charLiteral.value?.isSome) ∧
    (lexicalWithin source t.span ≠ [] → t.charLiteral.value?.isSome → _)
  have hheadless := not_headless_of_mem ht
  have hlength := Literal.length_filterMap_denotes (t.literal '\'').elements
  have hcount := countP_defects hheadless hkind
  rw [isSome_value?_charLiteral hheadless hkind, units_charLiteral hheadless hkind,
    lexicalWithin_eq ht]
  refine ⟨?_, fun hnone => ?_, fun hsome hvalue => ?_⟩
  · rw [hcount]
    omega
  · exact value_of_no_defects hheadless hkind hnone
  · exact (defects_of_value hheadless hkind hvalue).resolve_left hsome

/-- A char literal as a key, and one without a character as the value for it. -/
def keyedText : String := "fn f() \x7b match c \x7b 'é' => '', \x7d; \x7d"

theorem charValue_iff_keyedText :
    ∃ key value, (parseSource keyedText).file.chars = [key, value] ∧ key.value?.isSome ∧
      (lexicalWithin keyedText value.span).map (·.cause) = [.emptyChar] ∧
      ¬value.value?.isSome := by
  have hchars : (parseSource keyedText).file.chars =
      [⟨[⟨.text "é", ⟨⟨20, 1, 21⟩, ⟨22, 1, 22⟩⟩⟩], ⟨⟨19, 1, 20⟩, ⟨23, 1, 23⟩⟩⟩,
        ⟨[], ⟨⟨27, 1, 27⟩, ⟨29, 1, 29⟩⟩⟩] := by
    decide +kernel
  have hkey := charValue_iff keyedText _ (hchars ▸ List.mem_cons_self)
  have hvalue := charValue_iff keyedText _
    (hchars ▸ List.mem_cons_of_mem _ List.mem_cons_self)
  refine ⟨_, _, hchars, hkey.2.1 (by decide +kernel), by decide +kernel, ?_⟩
  rw [hvalue.1]
  decide +kernel

/-- Something is wrong with both literals, one that does not close and one with an escape that
stands for nothing, but both have a value. -/
theorem charValue_malformed :
    ((parseSource "fn f() \x7b x = 'a\n; \x7d").file.chars.map fun l =>
      ((lexicalWithin "fn f() \x7b x = 'a\n; \x7d" l.span).map (·.cause), l.value?)) =
        [([.unterminatedChar], some 'a')] ∧
    ((parseSource "fn f() \x7b x = 'a\\x'; \x7d").file.chars.map fun l =>
      ((lexicalWithin "fn f() \x7b x = 'a\\x'; \x7d" l.span).map (·.cause), l.value?)) =
        [([.invalidEscape "\\x", .overlongChar "'a\\x'"], some 'a')] := by
  constructor
  · decide +kernel
  · decide +kernel

end FrontEnd
