/-
Every literal of a text can be taken apart.

The parser takes a literal apart by the text of its token alone, and skips the byte that the
text starts with unseen.  Where a lexer has made the token, this is the opening quote.

* `Token.headless_iff` — the literal tokens without such a byte are empty, or start with a
  character of several bytes;
* `literalParts?_of_text` — a literal is taken apart into the segments that reading it gave;
* `not_headless_of_mem` — so no token of a text is headless.
-/
import FrontEnd.Proofs.Grammar.Spelling
import FrontEnd.Proofs.Token.Placing

namespace FrontEnd

/-! ### Cutting off a quote -/

namespace Literal

theorem IsQuote.utf8Size {quote : Char} (hq : IsQuote quote) : quote.utf8Size = 1 := by
  rcases hq with rfl | rfl <;> decide

theorem scanString?_cons (quote : Char) (text : List Char) :
    scanString? quote (String.ofList (quote :: text)) = some (scan quote text) := by
  have hcut := splitAtByte?_append [quote] text
  have hsize : byteLength [quote] = quote.utf8Size := rfl
  rw [hsize, List.singleton_append] at hcut
  rw [scanString?, String.toList_ofList, hcut]
  rfl

/-- Behind its quote the source text of a literal is read as the literal again. -/
theorem exists_raw {quote : Char} (hq : IsQuote quote) (text : List Char) :
    ∃ tail, (scan quote text).raw = quote :: tail ∧ scan quote tail = scan quote text := by
  have hagain := scan_drop_raw hq text
  have hraw := raw_eq (scan quote text)
  rw [hraw, List.drop_one, List.tail_cons] at hagain
  exact ⟨_, hraw, hagain⟩

/-- A literal is read behind a character of one byte, and only there. -/
theorem scanString?_eq {quote : Char} (hq : IsQuote quote) (input : String) :
    scanString? quote input = match input.toList with
      | [] => none
      | c :: cs => if c.utf8Size = 1 then some (scan quote cs) else none := by
  rw [scanString?, hq.utf8Size]
  cases input.toList with
  | nil => rfl
  | cons c cs =>
    have hpos := c.utf8Size_pos
    by_cases hone : c.utf8Size = 1
    · simp [splitAtByte?, hone]
    · -- One byte would end inside the first character.
      have hmore : ¬ c.utf8Size ≤ 1 := by omega
      simp [splitAtByte?, hone, hmore]

theorem scanString?_eq_none_iff {quote : Char} (hq : IsQuote quote) (input : String) :
    scanString? quote input = none ↔
      input.toList = [] ∨ ∃ c cs, input.toList = c :: cs ∧ 1 < c.utf8Size := by
  rw [scanString?_eq hq]
  cases input.toList with
  | nil => simp
  | cons c cs =>
    have hpos := c.utf8Size_pos
    have hmore : ¬ c.utf8Size = 1 ↔ 1 < c.utf8Size := by omega
    simpa using hmore

end Literal

theorem Kind.Quotes.isQuote {kind : Kind} {quote : Char} (h : kind.Quotes quote) :
    Literal.IsQuote quote := by
  cases h with
  | string => exact .inl rfl
  | char => exact .inr rfl

theorem Kind.exists_quotes_iff {kind : Kind} :
    (∃ quote, kind.Quotes quote) ↔ kind = .string ∨ kind = .char := by
  constructor
  · rintro ⟨quote, h⟩
    cases h with
    | string => exact .inl rfl
    | char => exact .inr rfl
  · rintro (rfl | rfl)
    · exact ⟨_, .string⟩
    · exact ⟨_, .char⟩

/-- The literals that cannot be taken apart are those that have no byte of their own to start
with. -/
theorem Token.headless_iff (t : Token) :
    t.Headless ↔ (t.kind = .string ∨ t.kind = .char) ∧
      (t.text.toList = [] ∨ ∃ c cs, t.text.toList = c :: cs ∧ 1 < c.utf8Size) := by
  rw [← Kind.exists_quotes_iff]
  constructor
  · rintro ⟨quote, hquote, hparts⟩
    rw [Parser.literalParts?, Option.map_eq_none_iff,
      Literal.scanString?_eq_none_iff hquote.isQuote] at hparts
    exact ⟨⟨quote, hquote⟩, hparts⟩
  · rintro ⟨⟨quote, hquote⟩, htext⟩
    refine ⟨quote, hquote, ?_⟩
    rw [Parser.literalParts?, Option.map_eq_none_iff,
      Literal.scanString?_eq_none_iff hquote.isQuote]
    exact htext

/-! ### The literals of a text -/

/-- The pieces of a text that are literals are read behind their opening quotes. -/
theorem Lexeme.first_literal {c : Char} {cs : List Char} :
    ((first c cs).kind = .token .string → c = '"' ∧ first c cs = stringLiteral cs) ∧
      ((first c cs).kind = .token .char → c = '\'' ∧ first c cs = charLiteral cs) := by
  unfold first
  split
  · simp [skipped]
  · next rule matched h =>
    have hmatch := Rule.first?_eq_some h
    split
    · simp [trivia]
    · simp [trivia]
    · simp [trivia]
    · simp only [token, Kind.ofWord]
      split <;> simp
    · simp [token]
    · refine ⟨fun _ => ⟨?_, rfl⟩, fun hk => absurd hk (by simp [stringLiteral])⟩
      unfold Rule.match? at hmatch
      split at hmatch <;> simp_all
    · refine ⟨fun hk => absurd hk (by simp [charLiteral]), fun _ => ⟨?_, rfl⟩⟩
      unfold Rule.match? at hmatch
      split at hmatch <;> simp_all
    · simp [token]

/-- The pieces that are string or char literals. -/
theorem literal_of_mem_lexemes {text : List Char} {l : Lexeme} (hl : l ∈ lexemes text) :
    (l.kind = .token .string → ∃ cs, l = Lexeme.stringLiteral cs) ∧
      (l.kind = .token .char → ∃ cs, l = Lexeme.charLiteral cs) := by
  induction text using lexemes_induction with
  | nil => simp [lexemes] at hl
  | cons c cs rest htext hlex ih =>
    rw [hlex] at hl
    rcases List.mem_cons.mp hl with rfl | hmem
    · exact ⟨fun h => ⟨cs, (Lexeme.first_literal.1 h).2⟩, fun h => ⟨cs, (Lexeme.first_literal.2 h).2⟩⟩
    · exact ih hmem

/-- A literal among the tokens of a text is what reading it behind its quote took up. -/
theorem text_of_mem_placedTokens {p : Position} {text : List Char} {t : Token} {quote : Char}
    (h : t ∈ placedTokens p (lexemes text)) (hquote : t.kind.Quotes quote) :
    ∃ cs, t.text = String.ofList (Literal.scan quote cs).raw := by
  obtain ⟨l, hl, hkind, htext⟩ := exists_of_mem_placedTokens h
  obtain ⟨hstring, hchar⟩ := literal_of_mem_lexemes hl
  generalize hk : t.kind = kind at hquote hkind
  cases hquote with
  | string =>
    obtain ⟨cs, rfl⟩ := hstring hkind
    exact ⟨cs, htext⟩
  | char =>
    obtain ⟨cs, rfl⟩ := hchar hkind
    exact ⟨cs, htext⟩

section

variable {t : Token} {quote : Char} {cs : List Char}

/-- A literal that is not headless is taken apart behind its first character. -/
theorem literalParts_of_not_headless (hquote : t.kind.Quotes quote) (h : ¬ t.Headless) :
    Parser.literalParts t quote = Parser.placeSegments (t.span.start.along [quote])
      (Literal.scan quote (t.text.toList.drop 1)).segments := by
  have hparts : Parser.literalParts? t quote ≠ none := fun hnone => h ⟨quote, hquote, hnone⟩
  rw [Parser.literalParts?, Literal.scanString?_eq hquote.isQuote] at hparts
  rw [Parser.literalParts, Parser.literalParts?, Literal.scanString?_eq hquote.isQuote]
  cases htext : t.text.toList with
  | nil => simp [htext] at hparts
  | cons c cs =>
    by_cases hone : c.utf8Size = 1
    · simp [hone]
    · simp [htext, hone] at hparts

/-- A literal that starts with its quote is taken apart behind it. -/
theorem literalParts?_of_quote (htext : t.text.toList = quote :: cs) :
    Parser.literalParts? t quote = some
      (Parser.placeSegments (t.span.start.along [quote]) (Literal.scan quote cs).segments) := by
  have hscan := Literal.scanString?_cons quote cs
  rw [← htext, String.ofList_toList] at hscan
  rw [Parser.literalParts?, hscan]
  rfl

/-- Taking a literal apart gives the segments that reading it gave. -/
theorem literalParts?_of_text (hq : Literal.IsQuote quote)
    (htext : t.text = String.ofList (Literal.scan quote cs).raw) :
    Parser.literalParts? t quote = some
      (Parser.placeSegments (t.span.start.along [quote]) (Literal.scan quote cs).segments) := by
  obtain ⟨tail, hraw, hagain⟩ := Literal.exists_raw hq cs
  rw [literalParts?_of_quote (by rw [htext, String.toList_ofList, hraw]), hagain]

theorem Parser.literalParts_eq (hq : Literal.IsQuote quote)
    (htext : t.text = String.ofList (Literal.scan quote cs).raw) : literalParts t quote =
      placeSegments (t.span.start.along [quote]) (Literal.scan quote cs).segments := by
  rw [literalParts, literalParts?_of_text hq htext]
  rfl

end

/-- No token of a text is headless. -/
theorem not_headless_of_mem {p : Position} {text : List Char} {t : Token}
    (h : t ∈ placedTokens p (lexemes text)) : ¬ t.Headless := by
  rintro ⟨quote, hquote, hparts⟩
  obtain ⟨cs, htext⟩ := text_of_mem_placedTokens h hquote
  rw [literalParts?_of_text hquote.isQuote htext] at hparts
  cases hparts

theorem not_headless_of_mem_tokens {source : String} {t : Token}
    (h : t ∈ (tokenize source).stream.tokens) : ¬ t.Headless := by
  rw [tokens_tokenize] at h
  rcases List.mem_append.mp h with h | h
  · exact not_headless_of_mem h
  · -- The end of the input is no literal.
    rw [List.mem_singleton.mp h]
    rintro ⟨quote, hquote, -⟩
    cases hquote

end FrontEnd
