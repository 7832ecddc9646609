/-
Lexer and parser agree on literals.

A literal is read twice: by the lexer from the rest of the text, and by the parser from the
text of the token alone.  The second reading gives what the first gave.  The parser also places
the parts of a literal by counting along the line, which is right since no literal holds a
line feed.

* `Literal.line_not_mem_raw` — a literal stays on its line;
* `Literal.scanString?_cut` — a literal cut out of its text is read again as it was;
* `Token.Rebuilt` — what the parts of a literal have to do with its token and the text;
* `literals_agree` — the parts that the parser makes of a token are those that the lexer saw.
-/
import FrontEnd.Proofs.Grammar.Soundness
import FrontEnd.Proofs.Token.Pieces
import FrontEnd.Proofs.Token.Tiling

namespace FrontEnd

/-! ### A literal stays on its line -/

/-- No escape holds a line feed. -/
theorem Escape.line_not_mem_body {cs b : List Char} (h : body cs = some b) : '\n' ∉ b := by
  intro hline
  -- Up to the first line feed the text reads the same, and the escape is how it starts.
  have hstart : b <+: cs := body_prefix h
  obtain ⟨before, rest, hcs, hbefore⟩ := List.eq_append_cons_of_mem (hstart.mem hline)
  rw [hcs, body_append_line] at h
  have hfirst : b <+: before := body_prefix h
  exact hbefore (hfirst.mem hline)

namespace Literal

theorem line_not_mem_backslashed (quote : Char) (cs : List Char) :
    '\n' ∉ (backslashed quote cs).raw := by
  unfold backslashed
  split
  · next body hbody =>
    have hline := Escape.line_not_mem_body hbody
    split
    · simpa [Element.raw] using hline
    · simpa [Element.raw] using hline
  · split
    · simp [Element.raw]
    · split
      · simp [Element.raw]
      · next hc =>
        rw [not_or] at hc
        simpa [Element.raw] using Ne.symm hc.2

theorem line_not_mem_elements (quote : Char) (text : List Char) :
    '\n' ∉ (contents quote text).elements.flatMap Element.raw := by
  intro h
  obtain ⟨e, he, hline⟩ := List.mem_flatMap.mp h
  rcases mem_contents he with ⟨c, rfl, -, -, hc⟩ | ⟨cs, rfl⟩
  · exact hc (List.mem_singleton.mp hline).symm
  · exact line_not_mem_backslashed quote cs hline

theorem IsQuote.ne_line {quote : Char} (hq : IsQuote quote) : quote ≠ '\n' := by
  rcases hq with rfl | rfl <;> decide

/-- The contents of a literal, put end to end, and the closing quote. -/
theorem raw_segments (l : Literal) :
    l.raw = l.quote ::
      (l.segments.flatMap (·.raw.toList) ++ closing l.quote l.terminated) := by
  rw [segments, raw_join, raw_eq]
  rfl

theorem line_not_mem_segments (quote : Char) (text : List Char) :
    '\n' ∉ (scan quote text).segments.flatMap (·.raw.toList) := by
  rw [segments, raw_join]
  exact line_not_mem_elements quote text

/-- The source text of a literal holds no line feed. -/
theorem line_not_mem_raw {quote : Char} (hq : IsQuote quote) (text : List Char) :
    '\n' ∉ (scan quote text).raw := by
  have hquote : '\n' ≠ quote := hq.ne_line.symm
  have hclosing : '\n' ∉ closing quote (scan quote text).terminated := by
    unfold closing
    split <;> simp [hquote]
  rw [raw_segments]
  simp only [List.mem_cons, List.mem_append, not_or]
  exact ⟨hquote, line_not_mem_segments quote text, hclosing⟩

/-! ### A literal is read again from its own bytes -/

/-- As many bytes as reading a literal takes up are the whole literal, and reading them again
gives the same literal: the same length, flag, segments and problems. -/
theorem scanString?_cut {quote : Char} (hq : IsQuote quote) (text : List Char) :
    ∃ l rest, scanString? quote (String.ofList (quote :: text)) = some l ∧
      splitAtByte? (byteLength l.raw) (quote :: text) = some (l.raw, rest) ∧
      scanString? quote (String.ofList l.raw) = some l := by
  refine ⟨scan quote text, (contents quote text).rest, scanString?_cons quote text, ?_, ?_⟩
  · rw [← scan_partition quote text]
    exact splitAtByte?_append _ _
  · obtain ⟨tail, hraw, hagain⟩ := exists_raw hq text
    rw [hraw, scanString?_cons, hagain]

end Literal

/-! ### The parts of a literal -/

/-- Spans that stand side by side from `p` up to `q`. -/
def Span.Abut (p q : Position) : List Span → Prop
  | [] => p = q
  | s :: ss => s.start = p ∧ Abut s.stop q ss

/-- The parts that are made of a token are those of the literal that the text holds there.
They stand side by side from behind the opening quote, in the same line and one column on, up
to the closing quote or, without one, up to the end of the token, and each of them is the text
that it covers. -/
structure Token.Rebuilt (source : String) (t : Token) (quote : Char)
    (parts : List LiteralPart) : Prop where
  seen : ∃ before text l, source.toList = before ++ text ∧
    byteLength before = t.span.start.offset ∧
    Literal.scanString? quote (String.ofList text) = some l ∧ t.text = String.ofList l.raw ∧
    parts.map (·.segment) = l.segments ∧
    ∃ stop, Span.Abut ⟨t.span.start.offset + 1, t.span.start.line, t.span.start.column + 1⟩ stop
        (parts.map (·.span)) ∧
      if l.terminated then stop.next quote = t.span.stop else stop = t.span.stop
  slices : ∀ part ∈ parts, part.span.slice? source = some part.segment.raw

namespace Parser

theorem abut_placeSegments (p : Position) (segments : List Literal.Segment) :
    Span.Abut p (p.along (segments.flatMap (·.raw.toList)))
      ((placeSegments p segments).map (·.span)) := by
  induction segments generalizing p with
  | nil => rfl
  | cons segment rest ih =>
    have hrest := ih (p.along segment.raw.toList)
    have hsum : (p.along segment.raw.toList).along (rest.flatMap (·.raw.toList)) =
        p.along ((segment :: rest).flatMap (·.raw.toList)) := by
      simp only [Position.along, List.flatMap_cons, byteLength_append, List.length_append,
        Nat.add_assoc]
    rw [hsum] at hrest
    exact ⟨rfl, hrest⟩

/-- Where the segments of a literal hold no line feed, each part stands where its own text
does. -/
theorem exists_of_mem_placeSegments (before : List Char) {segments : List Literal.Segment}
    (hline : '\n' ∉ segments.flatMap (·.raw.toList)) {part : LiteralPart}
    (h : part ∈ placeSegments (Position.start.after before) segments) :
    ∃ pre post, segments.flatMap (·.raw.toList) = pre ++ (part.segment.raw.toList ++ post) ∧
      part.span = ⟨Position.start.after (before ++ pre),
        (Position.start.after (before ++ pre)).after part.segment.raw.toList⟩ := by
  induction segments generalizing before with
  | nil => simp [placeSegments] at h
  | cons segment segments ih =>
    rw [List.flatMap_cons, List.mem_append, not_or] at hline
    rw [placeSegments, Position.along_eq_after _ hline.1] at h
    rw [List.flatMap_cons]
    rcases List.mem_cons.mp h with rfl | hmem
    · exact ⟨[], _, rfl, by rw [List.append_nil]⟩
    · rw [← Position.after_append] at hmem
      obtain ⟨pre, post, hsegments, hspan⟩ := ih (before ++ segment.raw.toList) hline.2 hmem
      refine ⟨segment.raw.toList ++ pre, post, ?_, ?_⟩
      · rw [hsegments, List.append_assoc]
      · rw [hspan, List.append_assoc]

section

-- The token is the literal that the text holds behind `before`.
variable {source : String} {t : Token} {quote : Char} (hq : Literal.IsQuote quote)
  {before cs : List Char} (hsource : source.toList = before ++ quote :: cs)
  (htext : t.text = String.ofList (Literal.scan quote cs).raw)
  (hspan : t.span = (Lexeme.mk (.token t.kind) (Literal.scan quote cs).raw []).spanAt
    (Position.start.after before))

include hq htext hspan

omit htext in
theorem along_quote :
    t.span.start.along [quote] = Position.start.after (before ++ [quote]) := by
  have hquote : '\n' ∉ [quote] := by simpa using hq.ne_line.symm
  rw [Position.along_eq_after _ hquote, hspan, Position.after_append]
  rfl

include hsource

/-- Each part of the literal stands where its own text does. -/
theorem exists_of_mem_literalParts {part : LiteralPart} (h : part ∈ literalParts t quote) :
    ∃ pre post, source.toList = pre ++ (part.segment.raw.toList ++ post) ∧
      part.span = ⟨Position.start.after pre,
        (Position.start.after pre).after part.segment.raw.toList⟩ := by
  rw [literalParts_eq hq htext, along_quote hq hspan] at h
  obtain ⟨pre, post, hsegments, hpart⟩ :=
    exists_of_mem_placeSegments _ (Literal.line_not_mem_segments quote cs) h
  have hpartition := Literal.scan_partition quote cs
  rw [Literal.raw_segments, hsegments] at hpartition
  refine ⟨before ++ [quote] ++ pre, post ++ (Literal.closing quote
    (Literal.scan quote cs).terminated ++ (Literal.contents quote cs).rest), ?_, hpart⟩
  rw [hsource, ← hpartition]
  simp only [List.append_assoc, List.cons_append, List.nil_append]
  rfl

/-- The parts of a token that is a literal of the text. -/
theorem rebuilt_literalParts : t.Rebuilt source quote (literalParts t quote) := by
  have hparts := literalParts_eq (t := t) hq htext
  have hopen := along_quote (t := t) hq hspan
  have hline := Literal.line_not_mem_segments quote cs
  constructor
  · refine ⟨before, quote :: cs, Literal.scan quote cs, hsource, ?_, ?_, htext, ?_, ?_⟩
    · rw [hspan, Lexeme.spanAt, Position.offset_after]
      exact (Nat.zero_add _).symm
    · exact Literal.scanString?_cons quote cs
    · rw [hparts, segments_placeSegments]
    · have hfirst : t.span.start.along [quote] =
          ⟨t.span.start.offset + 1, t.span.start.line, t.span.start.column + 1⟩ := by
        simp [Position.along, byteLength, hq.utf8Size]
      have habut := abut_placeSegments (t.span.start.along [quote])
        (Literal.scan quote cs).segments
      rw [← hparts, Position.along_eq_after _ hline] at habut
      rw [hfirst] at habut hopen
      refine ⟨_, habut, ?_⟩
      -- The parts end where the token does, but for the closing quote.
      have hstop : t.span.stop = ((Position.start.after (before ++ [quote])).after
          ((Literal.scan quote cs).segments.flatMap (·.raw.toList))).after
            (Literal.closing quote (Literal.scan quote cs).terminated) := by
        rw [hspan, Literal.raw_segments]
        simp only [Lexeme.spanAt, Position.after_append, Position.after_cons, Position.after_nil]
        rfl
      rw [hstop, hopen]
      cases (Literal.scan quote cs).terminated with
      | true => rfl
      | false => rfl
  · intro part hpart
    obtain ⟨pre, post, htext, hpart⟩ := exists_of_mem_literalParts hq hsource htext hspan hpart
    have hslice := Piece.slice?_after pre part.segment.raw.toList post
    rwa [← hpart, ← htext, String.ofList_toList, String.ofList_toList] at hslice

end

end Parser

/-- A literal token is the literal that the text holds where it starts. -/
theorem exists_literal {text : List Char} {t : Token} {quote : Char}
    (h : t ∈ placedTokens Position.start (lexemes text)) (hquote : t.kind.Quotes quote) :
    ∃ before cs, text = before ++ quote :: cs ∧
      t.text = String.ofList (Literal.scan quote cs).raw ∧
      t.span = (Lexeme.mk (.token t.kind) (Literal.scan quote cs).raw []).spanAt
        (Position.start.after before) := by
  obtain ⟨before, c, cs, hsource, hkind, htext, hspan⟩ := exists_token h
  generalize hk : t.kind = kind at hquote hkind
  cases hquote with
  | string =>
    obtain ⟨rfl, hfirst⟩ := Lexeme.first_literal.1 hkind
    rw [hfirst] at htext hspan
    exact ⟨before, cs, hsource, htext, hspan⟩
  | char =>
    obtain ⟨rfl, hfirst⟩ := Lexeme.first_literal.2 hkind
    rw [hfirst] at htext hspan
    exact ⟨before, cs, hsource, htext, hspan⟩

/-- The parts of the tokens of a text that are literals. -/
theorem rebuilt_of_mem {source : String} {t : Token} {quote : Char}
    (h : t ∈ (tokenize source).stream.tokens) (hquote : t.kind.Quotes quote) :
    t.Rebuilt source quote (Parser.literalParts t quote) := by
  rw [tokens_tokenize] at h
  rcases List.mem_append.mp h with hmem | hmem
  · obtain ⟨before, cs, hsource, htext, hspan⟩ := exists_literal hmem hquote
    exact Parser.rebuilt_literalParts hquote.isQuote hsource htext hspan
  · rw [List.mem_singleton.mp hmem] at hquote
    cases hquote

namespace Parser

theorem State.apart_of_not_headless (s : State) {t : Token} {quote : Char}
    (hquote : t.kind.Quotes quote) (ht : ¬ t.Headless) : s.apart t quote = s := by
  have hparts : ¬ (literalParts? t quote).isNone := fun hnone =>
    ht ⟨quote, hquote, Option.isNone_iff_eq_none.mp hnone⟩
  rw [State.apart, if_neg hparts]

section

variable {s : State} {t : Token} (hcurrent : s.current = t) (hheadless : ¬ t.Headless)

include hcurrent hheadless

theorem stringLiteral_run (hkind : t.kind = .string) :
    stringLiteral s = .ok ⟨literalParts t '"', t.span⟩ s.advance := by
  have hrun := literal_run (hcurrent ▸ hkind) '"' "string_literal" fun t parts =>
    StringLiteral.mk parts t.span
  rw [hcurrent, State.apart_of_not_headless _ (hkind ▸ .string) hheadless] at hrun
  exact hrun

theorem charLiteral_run (hkind : t.kind = .char) :
    charLiteral s = .ok ⟨literalParts t '\'', t.span⟩ s.advance := by
  have hrun := literal_run (hcurrent ▸ hkind) '\'' "char_literal" fun t parts =>
    CharLiteral.mk parts t.span
  rw [hcurrent, State.apart_of_not_headless _ (hkind ▸ .char) hheadless] at hrun
  exact hrun

end

end Parser

/-- **Lexer and parser agree on literals.**  What reading a literal takes up of a text, read on
its own, is the same literal.  So the parts that the parser makes of a literal token, wherever
it meets the token, are the segments that the lexer saw, in their places. -/
theorem literals_agree :
    (∀ quote, Literal.IsQuote quote → ∀ input : String, input.toList.head? = some quote →
      ∃ l cut rest, Literal.scanString? quote input = some l ∧
        splitAtByte? (byteLength l.raw) input.toList = some (cut, rest) ∧
        Literal.scanString? quote (String.ofList cut) = some l) ∧
    ∀ (source : String), ∀ t ∈ (tokenize source).stream.tokens, ∀ s : Parser.State,
      s.current = t →
        (t.kind = .string → ∃ parts, Parser.stringLiteral s = .ok ⟨parts, t.span⟩ s.advance ∧
          t.Rebuilt source '"' parts) ∧
        (t.kind = .char → ∃ parts, Parser.charLiteral s = .ok ⟨parts, t.span⟩ s.advance ∧
          t.Rebuilt source '\'' parts) := by
  constructor
  · intro quote hq input hhead
    obtain ⟨text, htext⟩ := List.head?_eq_some_iff.mp hhead
    obtain ⟨l, rest, hscan, hcut, hagain⟩ := Literal.scanString?_cut hq text
    rw [← htext, String.ofList_toList] at hscan
    rw [← htext] at hcut
    exact ⟨l, l.raw, rest, hscan, hcut, hagain⟩
  · intro source t ht s hcurrent
    have hheadless := not_headless_of_mem_tokens ht
    constructor
    · intro hkind
      exact ⟨_, Parser.stringLiteral_run hcurrent hheadless hkind,
        rebuilt_of_mem ht (hkind ▸ .string)⟩
    · intro hkind
      exact ⟨_, Parser.charLiteral_run hcurrent hheadless hkind, rebuilt_of_mem ht (hkind ▸ .char)⟩

/-- A string literal with escapes before another word, and a char literal that is not closed. -/
theorem literals_agree_openText :
    (∃ l cut rest, Literal.scanString? '"' "\"\\x\\n\"x" = some l ∧
      splitAtByte? (byteLength l.raw) "\"\\x\\n\"x".toList = some (cut, rest) ∧
      Literal.scanString? '"' (String.ofList cut) = some l) ∧
    (⟨.char, "'a\\", ⟨⟨4, 1, 5⟩, ⟨7, 1, 8⟩⟩⟩ : Token) ∈ (tokenize "lets'a\\").stream.tokens ∧
    ∃ parts, (⟨.char, "'a\\", ⟨⟨4, 1, 5⟩, ⟨7, 1, 8⟩⟩⟩ : Token).Rebuilt "lets'a\\" '\'' parts := by
  have hchar : (⟨.char, "'a\\", ⟨⟨4, 1, 5⟩, ⟨7, 1, 8⟩⟩⟩ : Token) ∈
      (tokenize "lets'a\\").stream.tokens := by
    decide +kernel
  obtain ⟨hcut, htoken⟩ := literals_agree
  obtain ⟨parts, -, hparts⟩ :=
    (htoken "lets'a\\" _ hchar (Parser.State.ofStream ⟨[_, Token.eofAt ⟨7, 1, 8⟩], []⟩) rfl).2 rfl
  exact ⟨hcut '"' (.inl rfl) "\"\\x\\n\"x" rfl, hchar, parts, hparts⟩

end FrontEnd
