/-
A text without diagnostics is a spelling of its tree.

* `parseSource_sound` — if nothing is wrong with a text, its tokens are a spelling of the
  tree by the productions of the grammar, and the text of every literal is the parts that
  the tree keeps of it, between two quotes.

The productions fix the place of every token, so none is dropped, added or moved; which
tokens may be left out is said where the productions are.
-/
import FrontEnd.Proofs.Grammar.Definitions

namespace FrontEnd

/-! ### Literals and their parts -/

namespace Literal

theorem raw_flush (run : List Char) (rest : List Segment) :
    (flush run rest).flatMap (·.raw.toList) = run.reverse ++ rest.flatMap (·.raw.toList) := by
  unfold flush
  split
  · next hempty => simp [List.isEmpty_iff.mp hempty]
  · simp [Segment.raw]

/-- Joining plain characters keeps the source text. -/
theorem raw_join (run : List Char) (es : List Element) :
    (join run es).flatMap (·.raw.toList) = run.reverse ++ es.flatMap Element.raw := by
  induction es generalizing run with
  | nil => simp [join, raw_flush]
  | cons e es ih =>
    cases e with
    | plain c => simp [join, ih, Element.raw]
    | escape raw value =>
      rw [join, raw_flush, List.flatMap_cons, ih]
      simp [Segment.raw, Element.raw]
    | invalid raw =>
      rw [join, raw_flush, List.flatMap_cons, ih]
      simp [Segment.raw, Element.raw]

end Literal

theorem segments_placeSegments (p : Position) (segments : List Literal.Segment) :
    (Parser.placeSegments p segments).map (·.segment) = segments := by
  induction segments generalizing p with
  | nil => rfl
  | cons segment rest ih => simp [Parser.placeSegments, ih]

/-- The text of the token is the parts of the literal that it is, between two quotes. -/
def Token.QuotesParts (t : Token) (quote : Char) : Prop :=
  t.text.toList =
    quote :: ((Parser.literalParts t quote).flatMap (·.segment.raw.toList) ++ [quote])

/-- A token with the text of a literal that has its closing quote. -/
theorem quotesParts_of_terminated {t : Token} {quote : Char} {text : List Char}
    (hquote : Literal.IsQuote quote) (htext : t.text = String.ofList (Literal.scan quote text).raw)
    (hterm : (Literal.scan quote text).terminated) : t.QuotesParts quote := by
  have hparts : (Parser.literalParts t quote).flatMap (·.segment.raw.toList) =
      (Literal.scan quote text).elements.flatMap Literal.Element.raw := by
    have hmap : ∀ parts : List LiteralPart, parts.flatMap (·.segment.raw.toList) =
        (parts.map (·.segment)).flatMap (·.raw.toList) := by
      intro parts
      rw [List.flatMap_map]
    rw [hmap, Parser.literalParts_eq hquote htext, segments_placeSegments, Literal.segments,
      Literal.raw_join]
    rfl
  unfold Token.QuotesParts
  rw [hparts, htext, String.toList_ofList]
  unfold Literal.raw
  rw [if_pos hterm]
  rfl

/-- Where nothing is wrong, the literals are what the tree keeps of them. -/
theorem quotesParts_of_mem {text : List Char} {p : Position} {t : Token}
    (hclean : placedProblems p (lexemes text) = []) (ht : t ∈ placedTokens p (lexemes text)) :
    (t.kind = .string → t.QuotesParts '"') ∧ (t.kind = .char → t.QuotesParts '\'') := by
  obtain ⟨l, hl, hkind, htext⟩ := exists_of_mem_placedTokens ht
  have hproblems : l.problems = [] := problems_of_mem hclean hl
  obtain ⟨hstring, hchar⟩ := literal_of_mem_lexemes hl
  constructor
  · intro hs
    obtain ⟨cs, rfl⟩ := hstring (by rw [hkind, hs])
    exact quotesParts_of_terminated (.inl rfl) htext (Literal.terminated_of_problems hproblems)
  · intro hc
    obtain ⟨cs, rfl⟩ := hchar (by rw [hkind, hc])
    exact quotesParts_of_terminated (.inr rfl) htext
      (Literal.terminated_of_problems (List.append_eq_nil_iff.mp hproblems).1)

/-! ### Whole texts -/

/-- What is left of the tokens at the end of the input. -/
theorem rest_eq_nil_of_eof {s s' : Parser.State} {ts : List Token} (h : Parser.Passes s ts s')
    (hproper : ∀ t ∈ s.rest, t.kind ≠ .eof) (heof : s'.current.kind = .eof) : s.rest = ts := by
  cases hrest : s'.rest with
  | nil => rw [h.rest, hrest, List.append_nil]
  | cons t rest =>
    rw [Parser.current_of_rest hrest] at heof
    exact absurd heof (hproper t (by rw [h.rest, hrest]; simp))

/-- **Soundness.**  If nothing is wrong with a text, its tokens are a spelling of the tree,
and its literals are written with the parts that the tree keeps of them. -/
theorem parseSource_sound (source : String) (h : (parseSource source).diagnostics = []) :
    (parseSource source).file.SpelledBy
        ((parseSource source).stream.tokens.filter (·.kind ≠ .eof)) ∧
      ∀ t ∈ (parseSource source).stream.tokens,
        (t.kind = .string → t.QuotesParts '"') ∧ (t.kind = .char → t.QuotesParts '\'') := by
  obtain ⟨file, s, ts, hrun, hwalk, heof, hspelled⟩ :=
    Parser.sourceFile_total (startOf source)
  have hproper : ∀ t ∈ placedTokens Position.start (lexemes source.toList), t.kind ≠ .eof :=
    fun t ht => kind_ne_eof_of_mem_placedTokens ht
  rw [parseSource_eq hrun] at h ⊢
  have hnone : placedProblems Position.start (lexemes source.toList) = [] ∧ s.Clean := by
    refine List.append_eq_nil_iff.mp (List.eq_nil_of_length_eq_zero ?_)
    have hlength := congrArg List.length h
    rwa [Diagnostics.sorted, List.length_mergeSort] at hlength
  constructor
  · have hall : placedTokens Position.start (lexemes source.toList) = ts :=
      rest_eq_nil_of_eof hwalk.toPasses hproper heof
    have hfilter : (tokenize source).stream.tokens.filter (·.kind ≠ .eof) = ts := by
      rw [tokens_tokenize, List.filter_append, List.filter_eq_self.mpr (by simpa using hproper), hall]
      simp [Token.eofAt]
    rw [hfilter]
    exact hspelled hnone.2
  · intro t ht
    rw [tokens_tokenize] at ht
    rcases List.mem_append.mp ht with ht | ht
    · exact quotesParts_of_mem hnone.1 ht
    · rw [List.mem_singleton.mp ht]
      simp [Token.eofAt]

/-- A text with a comment, optional marks that are there and others that are not, and a
literal of either kind. -/
def sampleText : String :=
  "use a::b;\n" ++
  "fn main(n: mut *i32 k: u8): i64 \x7b // run\n" ++
  "  v[f<u8>('c')] = 1 + 2 * g(n, \"x\\n\"); \x7d"

theorem parseSource_sound_sampleText :
    (parseSource sampleText).diagnostics = [] ∧
      (parseSource sampleText).file.SpelledBy
        ((parseSource sampleText).stream.tokens.filter (·.kind ≠ .eof)) ∧
      ∀ t ∈ (parseSource sampleText).stream.tokens,
        (t.kind = .string → t.QuotesParts '"') ∧ (t.kind = .char → t.QuotesParts '\'') := by
  have h : (parseSource sampleText).diagnostics = [] := by decide +kernel
  exact ⟨h, parseSource_sound sampleText h⟩

end FrontEnd
