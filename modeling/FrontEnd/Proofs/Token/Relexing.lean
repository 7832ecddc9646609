/-
Tokens are lexed from their own text.

A token is told by its own characters: whatever it stood next to in its text, alone it is cut off
again as the same token, with the same things wrong with it.  So the tokens of a text can be taken
out of it and written below each other.

* `Lexeme.first_alone` — a token is the first piece of its own text, and all of it;
* `Lexeme.Alone` — the pieces of which this is so;
* `lexemes_intercalate` — such pieces on lines of their own are cut apart again;
* `tokens_relex` — the tokens of a text, each on a line of its own, are lexed as the same tokens,
  with nothing but the line feeds between them; the kind of a token is told by its text.

Block comments and white space are no tokens.  White space is joined with what is put behind it.
-/
import FrontEnd.Proofs.Token.Locality
import FrontEnd.Proofs.Token.Seams
import FrontEnd.Proofs.Token.Tiling

namespace FrontEnd

namespace Lexeme

variable {c : Char} {run behind : List Char} {k : Kind}

/-! ### A token alone -/

/-- No token starts with white space. -/
theorem white_of_token (h : (first c run).kind = .token k) : Unicode.isWhiteSpace c = false := by
  rw [← Bool.not_eq_true]
  intro hc
  rw [first_white hc] at h
  cases h

/-- The rule that a token is cut by is the first to match it on a line of its own. -/
theorem first?_line (hkind : (first c (run ++ behind)).kind = .token k)
    (hcut : (first c (run ++ behind)).text = c :: run) {rule : Rule} {matched : List Char}
    (hrule : Rule.first? (c :: (run ++ behind)) = some (rule, matched)) (ds : List Char) :
    Rule.first? (c :: (run ++ '\n' :: ds)) = some (rule, matched) := by
  have hends : (first c (run ++ behind)).EndsBefore '\n' := endsBefore_token hkind (by simp)
  have hseam : ('\n' :: ds).head? = behind.head? ∨
      ∃ x, ('\n' :: ds).head? = some x ∧ (first c (run ++ behind)).EndsBefore x :=
    .inr ⟨'\n', rfl, hends⟩
  have hmark := mark_seam hcut hseam
  refine Rule.first?_seam hrule (Rule.none_seam hmark fun hblock => ?_)
    (same_seam (white_of_token hkind) hrule hcut hseam)
  -- A slash alone was not the start of a comment, and is not before a line feed.
  by_cases hslash : c :: run = ['/']
  · obtain ⟨rfl, rfl⟩ := List.cons.inj hslash
    exact Rule.match?_eq_none rfl
  · exact blockComment_seam hcut (fun h => absurd h hslash) hmark hblock

/-- **A token is lexed from its own text alone.** -/
theorem first_alone (hkind : (first c (run ++ behind)).kind = .token k)
    (hcut : (first c (run ++ behind)).text = c :: run) :
    first c run = first c (run ++ behind) := by
  rw [← first_append_line (white_of_token hkind) run []]
  cases hrule : Rule.first? (c :: (run ++ behind)) with
  | none =>
    unfold first at hkind
    rw [hrule] at hkind
    cases hkind
  | some found =>
    obtain ⟨rule, matched⟩ := found
    have hrule' := first?_line hkind hcut hrule []
    have hopens := Rule.opens_of_match? (Rule.first?_eq_some hrule)
    unfold first at hcut ⊢
    rw [hrule] at hcut
    rw [hrule, hrule']
    -- A literal is read again from its own text, also one that is not closed.
    cases rule with
    | string =>
      have hscan := Literal.scan_drop_raw (.inl rfl) (run ++ behind)
      rw [show (Literal.scan '"' (run ++ behind)).raw = c :: run from hcut, List.drop_one,
        List.tail_cons] at hscan
      simp only [stringLiteral, Literal.scan_append_line '"' run [] (by decide), hscan]
    | char =>
      have hscan := Literal.scan_drop_raw (.inr rfl) (run ++ behind)
      rw [show (Literal.scan '\'' (run ++ behind)).raw = c :: run from hcut, List.drop_one,
        List.tail_cons] at hscan
      simp only [charLiteral, Literal.scan_append_line '\'' run [] (by decide), hscan]
    | _ => rfl

/-- A token that is lexed from its own text. -/
inductive Alone : Lexeme → Prop
  | mk {c : Char} {run : List Char} {k : Kind} {l : Lexeme} (text : l.text = c :: run)
    (kind : l.kind = .token k) (first : Lexeme.first c run = l) : Alone l

/-- The tokens of a text are. -/
theorem alone_of_mem {text : List Char} {l : Lexeme} (hl : l ∈ lexemes text)
    (hkind : l.kind = .token k) : l.Alone := by
  induction text using lexemes_induction with
  | nil => simp [lexemes] at hl
  | cons c cs rest htext hlex ih =>
    rw [hlex] at hl
    rcases List.mem_cons.mp hl with rfl | hmem
    · obtain ⟨d, run, hrun⟩ := List.exists_cons_of_ne_nil (first_text c cs).1
      rw [hrun, List.cons_append] at htext
      obtain ⟨rfl, rfl⟩ := List.cons.inj htext
      exact .mk hrun hkind (first_alone hkind hrun)
    · exact ih hmem

variable {l : Lexeme}

/-- Such a token on a line of its own is cut off there. -/
theorem Alone.lexemes_line (h : l.Alone) (ds : List Char) :
    lexemes (l.text ++ '\n' :: ds) = l :: lexemes ('\n' :: ds) := by
  obtain @⟨c, run, k, _, htext, hkind, hfirst⟩ := h
  have hline := first_append_line (white_of_token (hfirst ▸ hkind)) run ds
  exact lexemes_of_first (by rw [htext, List.cons_append]) (hline.trans hfirst)

/-- Such a token is all of its own text. -/
theorem Alone.lexemes_text (h : l.Alone) : lexemes l.text = [l] := by
  obtain ⟨htext, -, hfirst⟩ := h
  have hlex := lexemes_of_first ((List.append_nil l.text).trans htext) hfirst
  simpa [lexemes] using hlex

/-- A text that starts with such a token does not start with white space. -/
theorem Alone.white (h : l.Alone) (ds : List Char) :
    ∀ x ∈ (l.text ++ ds).head?, Unicode.isWhiteSpace x = false := by
  obtain ⟨htext, hkind, hfirst⟩ := h
  rw [htext]
  rintro _ ⟨⟩
  exact white_of_token (hfirst ▸ hkind)

end Lexeme

/-! ### Tokens on lines of their own -/

/-- A line feed between two tokens. -/
def Lexeme.line : Lexeme := .trivia .whitespace ['\n']

/-- A line feed before a text that does not start with white space is a piece of its own. -/
theorem lexemes_line {text : List Char} (h : ∀ x ∈ text.head?, Unicode.isWhiteSpace x = false) :
    lexemes ('\n' :: text) = Lexeme.line :: lexemes text := by
  have hstop : text.takeWhile Unicode.isWhiteSpace = [] := by
    cases text with
    | nil => rfl
    | cons x xs => simp [h x rfl]
  have hfirst : Lexeme.first '\n' text = Lexeme.line := by
    rw [Lexeme.first_white (by decide), hstop]
    rfl
  exact lexemes_of_first (l := Lexeme.line) rfl hfirst

/-- Tokens below each other are cut apart again. -/
theorem lexemes_intercalate {ls : List Lexeme} (h : ∀ l ∈ ls, l.Alone) :
    lexemes (['\n'].intercalate (ls.map (·.text))) = ls.intersperse Lexeme.line := by
  induction ls with
  | nil => simp [lexemes]
  | cons l ls ih =>
    have hl : l.Alone := h l (by simp)
    have hrest := ih fun l' hl' => h l' (by simp [hl'])
    cases ls with
    | nil => simpa using hl.lexemes_text
    | cons l' ls =>
      have hwhite : ∀ x ∈ (['\n'].intercalate ((l' :: ls).map (·.text))).head?,
          Unicode.isWhiteSpace x = false := by
        have hl' : l'.Alone := h l' (by simp)
        cases ls with
        | nil => simpa using hl'.white []
        | cons l'' ls => exact hl'.white _
      rw [List.intersperse_cons_cons, ← hrest, ← lexemes_line hwhite, ← hl.lexemes_line]
      rfl

/-! ### The tokens of a text -/

/-- What a token is apart from its place. -/
def Lexeme.word? (l : Lexeme) : Option (Kind × String) :=
  match l.kind with
  | .token kind => some (kind, String.ofList l.text)
  | .trivia _ => none

/-- The tokens of a stream apart from their places, without the end of the input. -/
def TokenStream.words (s : TokenStream) : List (Kind × String) :=
  (s.tokens.filter (·.kind ≠ .eof)).map fun t => (t.kind, t.text)

/-- The pieces of a text that are tokens. -/
def tokenLexemes (text : List Char) : List Lexeme :=
  (lexemes text).filter (·.word?.isSome)

theorem words_placedTokens (p : Position) (ls : List Lexeme) :
    (placedTokens p ls).map (fun t => (t.kind, t.text)) = ls.filterMap Lexeme.word? := by
  induction ls generalizing p with
  | nil => rfl
  | cons l ls ih =>
    unfold placedTokens
    cases hkind : l.kind with
    | token kind =>
      have hword : l.word? = some (kind, String.ofList l.text) := by rw [Lexeme.word?, hkind]
      rw [List.filterMap_cons_some hword, ← ih (p.after l.text)]
      rfl
    | trivia kind =>
      have hword : l.word? = none := by rw [Lexeme.word?, hkind]
      rw [List.filterMap_cons_none hword, ← ih (p.after l.text)]

theorem words_tokenize (source : String) :
    (tokenize source).stream.words = (lexemes source.toList).filterMap Lexeme.word? := by
  rw [TokenStream.words, tokens_tokenize_without_eof, words_placedTokens]

theorem alone_of_mem_tokenLexemes {text : List Char} :
    ∀ l ∈ tokenLexemes text, l.Alone := by
  intro l hl
  obtain ⟨hmem, hword⟩ := List.mem_filter.mp hl
  cases hkind : l.kind with
  | token k => exact Lexeme.alone_of_mem hmem hkind
  | trivia k => simp [Lexeme.word?, hkind] at hword

/-- The tokens of a text are told by their pieces. -/
theorem words_eq_map (source : String) :
    (tokenize source).stream.words.map (fun w => (PieceKind.token w.1, w.2)) =
      (tokenLexemes source.toList).map fun l => (l.kind, String.ofList l.text) := by
  rw [words_tokenize, tokenLexemes]
  induction lexemes source.toList with
  | nil => rfl
  | cons l ls ih =>
    cases hkind : l.kind with
    | token kind =>
      have hword : l.word? = some (kind, String.ofList l.text) := by rw [Lexeme.word?, hkind]
      simp [hword, hkind, ih]
    | trivia kind =>
      have hword : l.word? = none := by rw [Lexeme.word?, hkind]
      simp [hword, ih]

/-- The tokens of a text below each other. -/
def TokenStream.lines (s : TokenStream) : String := "\n".intercalate (s.words.map (·.2))

theorem lexemes_lines (source : String) :
    lexemes (tokenize source).stream.lines.toList =
      (tokenLexemes source.toList).intersperse Lexeme.line := by
  have htexts : ((tokenize source).stream.words.map (·.2)).map String.toList =
      (tokenLexemes source.toList).map (·.text) := by
    have hwords := congrArg (List.map fun w => w.2.toList) (words_eq_map source)
    simpa [Function.comp_def] using hwords
  rw [TokenStream.lines, String.toList_intercalate, htexts]
  exact lexemes_intercalate alone_of_mem_tokenLexemes

theorem map_intersperse {α β : Type} (f : α → β) (sep : α) (xs : List α) :
    (xs.intersperse sep).map f = (xs.map f).intersperse (f sep) := by
  induction xs with
  | nil => rfl
  | cons x xs ih =>
    cases xs with
    | nil => rfl
    | cons y ys =>
      rw [List.intersperse_cons_cons, List.map_cons, List.map_cons, ih]
      rfl

theorem map_placed (p : Position) (ls : List Lexeme) :
    (Piece.placed p ls).map (fun piece => (piece.kind, piece.text)) =
      ls.map (fun l => (l.kind, String.ofList l.text)) ++ [(.token .eof, "")] := by
  induction ls generalizing p with
  | nil => rfl
  | cons l ls ih =>
    rw [Piece.placed, List.map_cons, ih]
    rfl

theorem map_pieces (source : String) :
    (tokenize source).stream.pieces.map (fun piece => (piece.kind, piece.text)) =
      (lexemes source.toList).map (fun l => (l.kind, String.ofList l.text)) ++
        [(.token .eof, "")] := by
  rw [tokenize, pieces_ofLexemes _ _ fun l hl => (lexeme_proper hl).1, map_placed]

/-- Between tokens below each other there are only the line feeds. -/
theorem pieces_lines (source : String) :
    (tokenize (tokenize source).stream.lines).stream.pieces.map
        (fun piece => (piece.kind, piece.text)) =
      ((tokenize source).stream.words.map fun w => (PieceKind.token w.1, w.2)).intersperse
        (.trivia .whitespace, "\n") ++ [(.token .eof, "")] := by
  rw [map_pieces, lexemes_lines, words_eq_map, map_intersperse]
  rfl

/-- Tokens below each other are the same tokens. -/
theorem words_lines (source : String) :
    (tokenize (tokenize source).stream.lines).stream.words = (tokenize source).stream.words := by
  have hskip : ∀ ls : List Lexeme,
      (ls.intersperse Lexeme.line).filterMap Lexeme.word? = ls.filterMap Lexeme.word? := by
    intro ls
    induction ls with
    | nil => rfl
    | cons l ls ih =>
      cases ls with
      | nil => rfl
      | cons l' ls =>
        rw [List.intersperse_cons_cons, List.filterMap_cons, List.filterMap_cons,
          List.filterMap_cons, ih]
        rfl
  rw [words_tokenize, words_tokenize, lexemes_lines, hskip, tokenLexemes, List.filterMap_filter]
  refine congrFun (congrArg _ (funext fun l => ?_)) _
  cases l.word? <;> rfl

section

variable {source : String} {t : Token}

/-- The tokens of a text but the end of the input are lexed from their own texts. -/
theorem exists_alone_of_mem (ht : t ∈ (tokenize source).stream.tokens) (hkind : t.kind ≠ .eof) :
    ∃ l : Lexeme, l.Alone ∧ l.kind = .token t.kind ∧ l.text = t.text.toList := by
  rw [tokens_tokenize] at ht
  rcases List.mem_append.mp ht with hmem | heof
  · obtain ⟨l, hl, hl', htext⟩ := exists_of_mem_placedTokens hmem
    exact ⟨l, Lexeme.alone_of_mem hl hl', hl', by rw [htext, String.toList_ofList]⟩
  · exact absurd (congrArg Token.kind (List.mem_singleton.mp heof)) hkind

/-- A token of a text is all of its own text. -/
theorem exists_lexemes_of_mem (ht : t ∈ (tokenize source).stream.tokens) (hkind : t.kind ≠ .eof) :
    ∃ l : Lexeme, l.kind = .token t.kind ∧ l.text = t.text.toList ∧
      lexemes t.text.toList = [l] := by
  obtain ⟨l, halone, hl, htext⟩ := exists_alone_of_mem ht hkind
  exact ⟨l, hl, htext, htext ▸ halone.lexemes_text⟩

/-- Only the end of the input has no text. -/
theorem lexemes_of_eof (ht : t ∈ (tokenize source).stream.tokens) (hkind : t.kind = .eof) :
    lexemes t.text.toList = [] := by
  rw [tokens_tokenize] at ht
  rcases List.mem_append.mp ht with hmem | heof
  · exact absurd hkind (kind_ne_eof_of_mem_placedTokens hmem)
  · rw [List.mem_singleton.mp heof]
    simp [Token.eofAt, lexemes]

/-- The kind of a token is told by its text. -/
theorem kind_eq_of_text_eq {source' : String} {t' : Token}
    (ht : t ∈ (tokenize source).stream.tokens) (ht' : t' ∈ (tokenize source').stream.tokens)
    (h : t.text = t'.text) : t.kind = t'.kind := by
  by_cases heof : t.kind = .eof <;> by_cases heof' : t'.kind = .eof
  · rw [heof, heof']
  · obtain ⟨l, -, -, hlex⟩ := exists_lexemes_of_mem ht' heof'
    rw [← h, lexemes_of_eof ht heof] at hlex
    cases hlex
  · obtain ⟨l, -, -, hlex⟩ := exists_lexemes_of_mem ht heof
    rw [h, lexemes_of_eof ht' heof'] at hlex
    cases hlex
  · obtain ⟨l, hl, -, hlex⟩ := exists_lexemes_of_mem ht heof
    obtain ⟨l', hl', -, hlex'⟩ := exists_lexemes_of_mem ht' heof'
    rw [h, hlex'] at hlex
    obtain rfl := (List.cons.inj hlex).1
    exact PieceKind.token.inj (hl.symm.trans hl')

/-- The text of a token alone gives this token and nothing else. -/
theorem tokenize_text (ht : t ∈ (tokenize source).stream.tokens) (hkind : t.kind ≠ .eof) :
    (tokenize t.text).stream =
      ⟨[⟨t.kind, t.text, ⟨Position.start, Position.start.after t.text.toList⟩⟩,
        Token.eofAt (Position.start.after t.text.toList)], []⟩ := by
  obtain ⟨l, hl, htext, hlex⟩ := exists_lexemes_of_mem ht hkind
  rw [tokenize, ofLexemes_eq, lexemesText_lexemes, hlex]
  simp only [placedTokens, placedTrivia, hl, htext, Lexeme.spanAt, String.ofList_toList,
    List.singleton_append]

/-- A name is no reserved word. -/
theorem Lexeme.ofString?_of_identifier {c : Char} {cs : List Char}
    (h : (first c cs).kind = .token .identifier) :
    Keyword.ofString? (String.ofList (first c cs).text) = none := by
  obtain ⟨run, hfirst, hspells⟩ := exists_spells h (by simp) (by simp)
  rw [hfirst]
  cases hspells with
  | identifier _ hname => exact hname

theorem text_ne_spelling (ht : t ∈ (tokenize source).stream.tokens) (hkind : t.kind = .identifier)
    (k : Keyword) : t.text ≠ k.spelling := by
  intro htext
  obtain ⟨l, halone, hl, hchars⟩ := exists_alone_of_mem ht (by rw [hkind]; decide)
  obtain ⟨-, -, hfirst⟩ := halone
  rw [hkind, ← hfirst] at hl
  have hnone := Lexeme.ofString?_of_identifier hl
  rw [hfirst, hchars, String.ofList_toList, htext, Keyword.ofString?_spelling] at hnone
  cases hnone

end

/-- **Tokens are lexed again from their texts.**  The tokens of a text, each on a line of its own,
are lexed as the same tokens, with only the line feeds between them.  So the text of a token tells
its kind, no name is a reserved word, and each token, a literal that is not closed among them, is
all that its own text holds. -/
theorem tokens_relex (source : String) :
    (tokenize (tokenize source).stream.lines).stream.words = (tokenize source).stream.words ∧
      (tokenize (tokenize source).stream.lines).stream.pieces.map
          (fun piece => (piece.kind, piece.text)) =
        ((tokenize source).stream.words.map fun w => (PieceKind.token w.1, w.2)).intersperse
          (.trivia .whitespace, "\n") ++ [(.token .eof, "")] ∧
      (∀ t ∈ (tokenize source).stream.tokens, ∀ source' : String,
        ∀ t' ∈ (tokenize source').stream.tokens, t.text = t'.text → t.kind = t'.kind) ∧
      (∀ t ∈ (tokenize source).stream.tokens, t.kind = .identifier →
        ∀ k : Keyword, t.text ≠ k.spelling) ∧
      ∀ t ∈ (tokenize source).stream.tokens, t.kind ≠ .eof → (tokenize t.text).stream =
        ⟨[⟨t.kind, t.text, ⟨Position.start, Position.start.after t.text.toList⟩⟩,
          Token.eofAt (Position.start.after t.text.toList)], []⟩ :=
  ⟨words_lines source, pieces_lines source,
    fun _ ht _ _ ht' htext => kind_eq_of_text_eq ht ht' htext,
    fun _ ht hkind k => text_ne_spelling ht hkind k, fun _ ht hkind => tokenize_text ht hkind⟩

/-- A name that starts with a reserved word next to a literal that is not closed: the first
stands in another text too, and the second is lexed alone. -/
theorem tokens_relex_openText :
    (⟨.identifier, "lets", ⟨⟨0, 1, 1⟩, ⟨4, 1, 5⟩⟩⟩ : Token) ∈ (tokenize "lets'a\\").stream.tokens ∧
      (∀ t' ∈ (tokenize "=>lets").stream.tokens, t'.text = "lets" → t'.kind = .identifier) ∧
      (∀ k : Keyword, "lets" ≠ k.spelling) ∧
      (⟨.char, "'a\\", ⟨⟨4, 1, 5⟩, ⟨7, 1, 8⟩⟩⟩ : Token) ∈ (tokenize "lets'a\\").stream.tokens ∧
      (tokenize "'a\\").stream = ⟨[⟨.char, "'a\\", ⟨Position.start, ⟨3, 1, 4⟩⟩⟩,
        Token.eofAt ⟨3, 1, 4⟩], []⟩ := by
  have hname : (⟨.identifier, "lets", ⟨⟨0, 1, 1⟩, ⟨4, 1, 5⟩⟩⟩ : Token) ∈
      (tokenize "lets'a\\").stream.tokens := by
    decide +kernel
  have hchar : (⟨.char, "'a\\", ⟨⟨4, 1, 5⟩, ⟨7, 1, 8⟩⟩⟩ : Token) ∈
      (tokenize "lets'a\\").stream.tokens := by
    decide +kernel
  obtain ⟨-, -, hkinds, hnames, halone⟩ := tokens_relex "lets'a\\"
  exact ⟨hname, fun t' ht' htext => (hkinds _ hname _ t' ht' htext.symm).symm,
    hnames _ hname rfl, hchar, halone _ hchar (by decide)⟩

end FrontEnd
