/-
Nothing that is done with a text goes out of bounds.

A text and each of its literals are cut by byte offsets, tokens and trivia are looked up by
index, positions are counted in 32 bits, and spans are cut out of the text and measured long
after their ends were computed.  Each of these can fail, and none of them does, however
malformed the text is, if the text is short enough for its end to be counted.  What can fail is
showing a diagnostic far to the right in a line: there must be room for its caret.

* `Position.Narrow` — the numbers of a position fit in 32 bits;
* `Span.slice?_isSome` — a span between two places of a text can be cut out of it;
* `scanAt?_of_mem_tokens` — a literal is taken apart by offsets in the text of its token;
* `Parser.State.getElem?_tokens` — the tokens that a parser looks at are where it looks;
* `Parser.State.commentsCut?_eq` — so are the comments that it hands out;
* `nothing_fails` — all of this for every text, and exactly when a diagnostic can be shown;
* `farRight_not_shown` — a text with a diagnostic that cannot be shown.
-/
import FrontEnd.Proofs.Diagnostic.Rendering
import FrontEnd.Proofs.Grammar.Spans
import FrontEnd.Proofs.Source.Coherence
import FrontEnd.Proofs.Token.Bytewise
import FrontEnd.Proofs.Token.TriviaLookup
import Mathlib.Algebra.Group.Nat.Defs

namespace FrontEnd

/-! ### Counting in 32 bits -/

/-- The numbers of the position fit in 32 bits. -/
structure Position.Narrow (p : Position) : Prop where
  offset : p.offset < 2 ^ 32
  line : p.line < 2 ^ 32
  column : p.column < 2 ^ 32

theorem length_le_byteLength (cs : List Char) : cs.length ≤ byteLength cs := by
  induction cs with
  | nil => exact Nat.le_refl _
  | cons c cs ih =>
    have hpos := c.utf8Size_pos
    rw [List.length_cons, byteLength]
    omega

section

variable {source : String} {p q : Position}

/-- There are no more lines and columns before a place than bytes, and one to start with. -/
theorem Position.Coherent.narrow (h : p.Coherent source)
    (hsize : byteLength source.toList < 2 ^ 32 - 1) : p.Narrow := by
  obtain ⟨before, rest, hsource, hoffset, hline, hcolumn⟩ := h
  have hbytes : byteLength before ≤ byteLength source.toList := by
    rw [hsource, byteLength_append]
    omega
  have hlength := length_le_byteLength before
  have hlines : before.count '\n' ≤ before.length := List.count_le_length
  have hcolumns : (before.reverse.takeWhile (· ≠ '\n')).length ≤ before.length := by
    have hle := (List.takeWhile_prefix (· ≠ '\n') (l := before.reverse)).length_le
    rwa [List.length_reverse] at hle
  exact ⟨by omega, by omega, by omega⟩

theorem Token.Marked.imp {P Q : Position → Prop} {t : Token} (h : t.Marked P)
    (himp : ∀ p, P p → Q p) : t.Marked Q where
  span := ⟨himp _ h.span.1, himp _ h.span.2⟩
  parts quote hquote part hpart :=
    have hspan := h.parts quote hquote part hpart
    ⟨himp _ hspan.1, himp _ hspan.2⟩
  inner hand := himp _ (h.inner hand)

/-- The place behind the opening quote of a literal agrees with the text. -/
theorem coherent_along_quote {t : Token} (h : t ∈ (tokenize source).stream.tokens)
    {quote : Char} (hquote : t.kind.Quotes quote) :
    (t.span.start.along [quote]).Coherent source := by
  rw [tokens_tokenize] at h
  rcases List.mem_append.mp h with h | h
  · obtain ⟨before, cs, hsource, -, hspan⟩ := exists_literal h hquote
    have hsplit : source.toList = (before ++ [quote]) ++ cs := by simp [hsource]
    have hbehind := coherent_after hsplit
    rw [Position.after_append] at hbehind
    rw [hspan, Position.along_eq_after _ (by simpa using hquote.isQuote.ne_line.symm)]
    exact hbehind
  · rw [List.mem_singleton.mp h] at hquote
    cases hquote

/-- The text of a literal token can be read by offsets, from its quote to its last byte, and the
segments found are those that the parser takes the token apart into. -/
theorem scanAt?_of_mem_tokens {t : Token} (h : t ∈ (tokenize source).stream.tokens)
    {quote : Char} (hquote : t.kind.Quotes quote) :
    ∃ l, Literal.scanAt? quote t.text.toList = some (l, byteLength t.text.toList) ∧
      Parser.literalParts? t quote =
        some (Parser.placeSegments (t.span.start.along [quote]) l.segments) := by
  rw [tokens_tokenize] at h
  rcases List.mem_append.mp h with h | h
  · obtain ⟨cs, htext⟩ := text_of_mem_placedTokens h hquote
    refine ⟨_, ?_, literalParts?_of_text hquote.isQuote htext⟩
    -- The text is the source text of a literal, so that reading it again ends where it ends.
    obtain ⟨tail, hraw, hagain⟩ := Literal.exists_raw hquote.isQuote cs
    rw [htext, String.toList_ofList, hraw, Literal.scanAt?_eq, hagain, hraw]
  · -- The end of the input is no literal.
    rw [List.mem_singleton.mp h] at hquote
    cases hquote

/-! ### Cutting out spans -/

/-- Two places of a text and what stands between them. -/
theorem Position.Coherent.exists_between (hp : p.Coherent source) (hq : q.Coherent source)
    (hle : p.offset ≤ q.offset) :
    ∃ before covered rest, source.toList = before ++ (covered ++ rest) ∧
      p.offset = byteLength before ∧ q.offset = byteLength before + byteLength covered := by
  obtain ⟨before, rest, hsource, hoffset, -, -⟩ := hp
  obtain ⟨before', rest', hsource', hoffset', -, -⟩ := hq
  rcases List.append_eq_append_iff.mp (hsource.symm.trans hsource') with
    ⟨covered, rfl, rfl⟩ | ⟨covered, rfl, rfl⟩
  · exact ⟨before, covered, rest', hsource, hoffset, by rw [hoffset', byteLength_append]⟩
  · -- The second place would lie before the first, unless they are one.
    rw [byteLength_append] at hoffset
    obtain rfl : covered = [] := by
      by_contra hne
      have hpos := byteLength_pos hne
      omega
    refine ⟨before', [], rest, hsource', ?_, ?_⟩
    · simpa [byteLength] using hoffset
    · simpa [byteLength] using hoffset'

/-- A span between two places of a text can be cut out of it. -/
theorem Span.slice?_isSome {s : Span} (h : s.Marked (Position.Coherent source))
    (hle : s.start.offset ≤ s.stop.offset) : (s.slice? source).isSome := by
  obtain ⟨before, covered, rest, hsource, hstart, hstop⟩ := h.1.exists_between h.2 hle
  have hlength : s.length? = some (byteLength covered) := by
    unfold Span.length?
    rw [if_pos hle, hstart, hstop, Nat.add_sub_cancel_left]
  simp [Span.slice?, hlength, hstart, hsource, splitAtByte?_append]

end

/-! ### No span ends before it starts -/

/-- The span does not end before it starts. -/
def Span.Ordered (s : Span) : Prop := s.start.offset ≤ s.stop.offset

theorem Span.Ordered.length?_isSome {s : Span} (h : s.Ordered) : s.length?.isSome := by
  unfold Span.length?
  rw [if_pos (show s.start.offset ≤ s.stop.offset from h)]
  rfl

theorem Lexeme.ordered_spanAt (l : Lexeme) (p : Position) : (l.spanAt p).Ordered := by
  show p.offset ≤ (p.after l.text).offset
  rw [Position.offset_after]
  omega

theorem covering_ordered (ts : List Token) : (covering ts).Ordered := by
  unfold covering spanning Span.Ordered
  split
  · exact Nat.le_refl _
  · split
    · exact Nat.le_refl _
    · next hlt => exact Nat.le_of_not_lt hlt

section

variable {source : String}

theorem ordered_of_mem_tokens {t : Token} (h : t ∈ (tokenize source).stream.tokens) :
    t.span.Ordered := by
  rw [tokens_tokenize] at h
  rcases List.mem_append.mp h with h | h
  · obtain ⟨before, c, cs, -, -, -, hspan⟩ := exists_token h
    rw [hspan]
    exact Lexeme.ordered_spanAt _ _
  · rw [List.mem_singleton.mp h]
    exact Nat.le_refl _

theorem ordered_of_mem_trivia {x : Trivia} (h : x ∈ (tokenize source).stream.trivia) :
    x.span.Ordered := by
  rw [tokenize, ofLexemes_eq] at h
  obtain ⟨before, c, cs, -, -, -, hspan⟩ := exists_trivia h
  rw [hspan]
  exact Lexeme.ordered_spanAt _ _

theorem ordered_problem {d : Diagnostic} (h : d ∈ (tokenize source).diagnostics) :
    d.span.Ordered := by
  rw [tokenize, ofLexemes_eq] at h
  obtain ⟨before, c, cs, -, problem, hproblem, rfl⟩ := exists_problem h
  obtain ⟨pre, covered, post, htext, hfirst, hlast⟩ := Lexeme.within_of_mem_problems hproblem
  rw [← byteLength_append] at hlast
  have hstart := (Position.start.after before).ahead_append pre (covered ++ post)
  have hstop := (Position.start.after before).ahead_append (pre ++ covered) post
  rw [List.append_assoc] at hstop
  show ((Position.start.after before).ahead _ _).offset ≤
    ((Position.start.after before).ahead _ _).offset
  rw [htext, hfirst, hlast, hstart, hstop]
  simp only [Position.offset_after, byteLength_append]
  omega

/-- A diagnostic about tokens, or about what these spell, does not end before it starts. -/
theorem Parser.Names.ordered {us : List Token} {span : Span} (h : Parser.Names us span)
    (hus : ∀ t ∈ us, t.span.Ordered) : span.Ordered := by
  cases h with
  | token ht => exact hus _ ht
  | type hspelled hts =>
    -- A type is a single token, or it covers its tokens.
    cases hspelled with
    | primitive | string => exact hus _ (hts.subset (by simp))
    | named name => exact hus name.token (hts.subset (by simp))
    | array | pointer | reference | doubleReference | generic => exact covering_ordered _
  | primary hspelled hts =>
    cases hspelled with
    | number h | char h | string h =>
      cases h
      exact hus _ (hts.subset (by simp))
    | null | true | false => exact hus _ (hts.subset (by simp))
    | identifier name => exact hus name.token (hts.subset (by simp))
    | call h | matching h =>
      cases h
      rw [Expr.span]
      exact covering_ordered _
    | fieldAccess | arrayAccess => exact covering_ordered _

theorem ordered_of_mem_diagnostics {d : Diagnostic} (h : d ∈ (parseSource source).diagnostics) :
    d.span.Ordered := by
  rcases diagnostic_cases h with hd | ⟨us, hnames, -, hus⟩
  · exact ordered_problem hd
  · exact hnames.ordered fun t ht => ordered_of_mem_tokens (hus t ht)

end

/-! ### Looking up tokens -/

namespace Parser.State

/-- The tokens on both sides of the place reached, and the end of the input. -/
def tokens (s : State) : List Token := s.consumed.reverse ++ (s.rest ++ [s.eof])

theorem tokens_of_passes {s s' : State} {ts : List Token} (h : Passes s ts s') :
    s'.tokens = s.tokens := by
  rw [tokens, tokens, h.consumed, h.rest, h.eof]
  simp

/-- The token some places ahead, or the last one, is the one that the parser looks at. -/
theorem getElem?_tokens (s : State) (n : Nat) :
    s.tokens[min (s.index + n) (s.tokens.length - 1)]? = some (s.peek n) := by
  have hlast : s.tokens.length - 1 = s.index + s.rest.length := by
    simp [tokens, index]
  have hindex : s.consumed.reverse.length = s.index := List.length_reverse
  have hmin : min (s.index + n) (s.tokens.length - 1) = s.index + min n s.rest.length := by
    rw [hlast]
    omega
  rw [hmin, tokens, List.getElem?_append_right (by omega), hindex, Nat.add_sub_cancel_left, peek]
  by_cases hn : n < s.rest.length
  · rw [Nat.min_eq_left (Nat.le_of_lt hn), List.getElem?_append_left hn]
    simp [List.getD, List.getElem?_eq_getElem hn]
  · rw [Nat.min_eq_right (by omega), List.getElem?_append_right (Nat.le_refl _)]
    simp [List.getD, List.getElem?_eq_none (Nat.le_of_not_lt hn)]

/-- The end of the last consumed token is that of the token before the place reached. -/
theorem getElem?_tokens_pred (s : State) (h : 0 < s.index) :
    s.tokens[s.index - 1]?.map (·.span.stop) = some s.previousEnd := by
  unfold tokens index at *
  cases hconsumed : s.consumed with
  | nil => simp [hconsumed] at h
  | cons t ts => simp [previousEnd, hconsumed]

/-- The members of a list from one index up to another; fails if they are out of order or past
the end. -/
def cut? {α : Type} (xs : List α) (start stop : Nat) : Option (List α) :=
  if start ≤ stop ∧ stop ≤ xs.length then some ((xs.take stop).drop start) else none

/-- The comments before the next token that have not been handed out, cut out of the trivia
between the two places where their offsets are reached. -/
def commentsCut? (s : State) : Option (List Comment) :=
  if s.commentsFrom < s.position.offset then
    let start := partitionPoint (·.span.start.offset < s.commentsFrom) s.trivia 0 s.trivia.length
    let stop := partitionPoint (·.span.start.offset < s.position.offset) s.trivia 0 s.trivia.length
    (cut? s.trivia start (max stop start)).map (·.filterMap Comment.ofTrivia?)
  else some []

/-- In trivia that are in order, the comments are where the parser cuts them out. -/
theorem commentsCut?_eq {s : State}
    (h : s.trivia.Pairwise fun a b => a.span.start.offset ≤ b.span.start.offset) :
    s.commentsCut? = some s.comments := by
  have hfound := triviaFound_eq (s := ⟨[], s.trivia⟩) h s.commentsFrom s.position.offset
  have hle (bound : Nat) := partitionPoint_le (·.span.start.offset < bound) s.trivia
    (Nat.zero_le s.trivia.length)
  unfold commentsCut?
  split
  · -- The end is never looked for before the start, even if its offset lies there.
    dsimp only [cut?]
    rw [if_pos ⟨Nat.le_max_right _ _, Nat.max_le.mpr ⟨hle _, hle _⟩⟩]
    exact congrArg (fun found => some (found.filterMap Comment.ofTrivia?)) hfound
  · next hnot => rw [State.comments, between_eq_nil (Nat.not_lt.mp hnot), List.filterMap_nil]

end Parser.State

/-! ### Whole texts -/

/-- What is done with a text does not fail. -/
structure Safe (source : String) : Prop where
  /-- The text is cut only between its characters, and never past its end. -/
  lexing : tokenizeBytes? source = some (tokenize source)
  /-- Wherever the lexer stands, it can count. -/
  counting : ∀ before rest, source.toList = before ++ rest →
    (Position.start.after before).Narrow
  /-- Reading the tokens breaks off nowhere. -/
  reading : parseTokens? (tokenize source).stream = some (parseTokens (tokenize source).stream)
  /-- The parser can take the text of a literal apart by offsets, to its last byte, and what it
  finds are the parts of the literal. -/
  literal : ∀ t ∈ (tokenize source).stream.tokens, ∀ quote, t.kind.Quotes quote →
    ∃ l, Literal.scanAt? quote t.text.toList = some (l, byteLength t.text.toList) ∧
      Parser.literalParts? t quote =
        some (Parser.placeSegments (t.span.start.along [quote]) l.segments)
  /-- Wherever the parser stands, there are tokens where it looks for them. -/
  looking : ∀ ts s, Parser.Passes (Parser.State.ofStream (tokenize source).stream) ts s →
    (∀ n, (tokenize source).stream.tokens[min (s.index + n)
      ((tokenize source).stream.tokens.length - 1)]? = some (s.peek n)) ∧
    (0 < s.index →
      (tokenize source).stream.tokens[s.index - 1]?.map (·.span.stop) = some s.previousEnd)
  /-- Wherever the parser stands, it can cut out the comments before the next token. -/
  comments : ∀ ts s, Parser.Passes (Parser.State.ofStream (tokenize source).stream) ts s →
    s.commentsCut? = some s.comments
  /-- A token can be cut out, and the places inside it can be counted. -/
  token : ∀ t ∈ (tokenize source).stream.tokens, (t.span.slice? source).isSome ∧
    t.Marked Position.Narrow ∧
    ∀ quote, t.kind.Quotes quote → (t.span.start.along [quote]).Narrow
  trivia : ∀ x ∈ (tokenize source).stream.trivia, (x.span.slice? source).isSome
  diagnostic : ∀ d ∈ (parseSource source).diagnostics, (d.span.slice? source).isSome
  node : ∀ entry ∈ (parseSource source).file.toNode.preorder 0,
    (entry.2.span.slice? source).isSome ∧ entry.2.span.length?.isSome
  /-- A diagnostic can be shown just if there is room for its caret. -/
  shown : ∀ d ∈ (parseSource source).diagnostics, ∃ before rest,
    source.toList = before ++ rest ∧ d.span.start.offset = byteLength before ∧
    ∀ file, (d.render? source file).isSome ↔
      rest = [] ∨ dashes before rest < Diagnostic.caretRoom

/-- **Nothing goes out of bounds.**  What is done with a text of fewer than `2 ^ 32 - 1` bytes
does not fail, however malformed it is; only a diagnostic with no room for its caret cannot be
shown. -/
theorem nothing_fails (source : String) (hsize : byteLength source.toList < 2 ^ 32 - 1) :
    Safe source where
  lexing := tokenizeBytes?_eq source
  counting before rest h := (coherent_after h).narrow hsize
  reading := by
    obtain ⟨file, s, -, hrun, -⟩ := Parser.sourceFile_total (startOf source)
    rw [parseTokens?_tokenize hrun, parseTokens_tokenize hrun]
  literal t ht quote hquote := scanAt?_of_mem_tokens ht hquote
  looking ts s hpass := by
    have htokens : (tokenize source).stream.tokens = s.tokens := by
      rw [Parser.State.tokens_of_passes hpass, ofStream_tokenize, tokens_tokenize]
      rfl
    rw [htokens]
    exact ⟨s.getElem?_tokens, s.getElem?_tokens_pred⟩
  comments ts s hpass := by
    refine Parser.State.commentsCut?_eq ?_
    rw [hpass.trivia, ofStream_tokenize]
    exact pairwise_placedTrivia _ _
  token t ht := by
    have hmarked := marked_of_mem_tokens ht
    refine ⟨Span.slice?_isSome hmarked.span (ordered_of_mem_tokens ht), ?_, fun quote hquote => ?_⟩
    · exact hmarked.imp fun p hp => hp.narrow hsize
    · exact (coherent_along_quote ht hquote).narrow hsize
  trivia x hx := Span.slice?_isSome (marked_of_mem_trivia hx) (ordered_of_mem_trivia hx)
  diagnostic d hd := Span.slice?_isSome (marked_of_mem_diagnostics hd) (ordered_of_mem_diagnostics hd)
  node entry hentry := by
    have hordered : entry.2.span.Ordered :=
      ((everywhere_parseSource source).of_mem_preorder hentry).nested.ordered
    exact ⟨Span.slice?_isSome (marked_of_mem_preorder hentry) hordered, hordered.length?_isSome⟩
  shown d hd := by
    obtain ⟨before, rest, hsource, hoffset, -, -⟩ := (marked_of_mem_diagnostics hd).1
    exact ⟨before, rest, hsource, hoffset, Diagnostic.render?_isSome_iff hsource hoffset⟩

/-- A string with an escape that stands for nothing, a char literal with two characters, both of
several bytes, more characters without meaning, and a block without its end. -/
def garbledText : String := "fn f() \x7b x = \"\\x\u00e9\"; 'é→' # → y = &&"

theorem nothing_fails_garbledText :
    byteLength garbledText.toList = 41 ∧ (tokenize garbledText).diagnostics.length = 4 ∧
      Safe garbledText :=
  ⟨by decide +kernel, by decide +kernel, nothing_fails garbledText (by decide +kernel)⟩

/-! ### No room for a caret -/

/-- A block comment of `n` letters. -/
def longComment (n : Nat) : List Char := '/' :: '*' :: (List.replicate n 'a' ++ ['*', '/'])

theorem byteLength_longComment (n : Nat) : byteLength (longComment n) = n + 4 := by
  have hletters : byteLength (List.replicate n 'a') = n := by
    induction n with
    | zero => rfl
    | succ n ih =>
      rw [List.replicate_succ, byteLength, ih, show Char.utf8Size 'a' = 1 by decide, Nat.add_comm]
  have hmarks : byteLength ['/', '*'] = 2 ∧ byteLength ['*', '/'] = 2 := by decide
  rw [show longComment n = ['/', '*'] ++ (List.replicate n 'a' ++ ['*', '/']) from rfl]
  simp only [byteLength_append, hletters, hmarks]
  omega

theorem takeWhile_replicate_append (n : Nat) (rest : List Char) :
    (List.replicate n 'a' ++ '*' :: rest).takeWhile inBlockComment = List.replicate n 'a' := by
  rw [takeWhile_append_stop (by decide), List.takeWhile_replicate_eq_filter]
  simp [show inBlockComment 'a' = true by decide]

/-- A comment of at least one letter is one piece. -/
theorem lexemes_longComment (n : Nat) (rest : List Char) :
    lexemes (longComment (n + 1) ++ rest) =
      .trivia (.comment .block) (longComment (n + 1)) :: lexemes rest := by
  have hrun := takeWhile_replicate_append (n + 1) ('/' :: rest)
  have hblock : Rule.blockComment.match? (longComment (n + 1) ++ rest) =
      some (longComment (n + 1)) := by
    simp [longComment, Rule.match?, leading?, hrun]
  have hwhite : Rule.whitespace.match? (longComment (n + 1) ++ rest) = none := by
    simp [longComment, Rule.match?, leading?, show Unicode.isWhiteSpace '/' = false by decide]
  have hline : Rule.lineComment.match? (longComment (n + 1) ++ rest) = none := by
    simp [longComment, Rule.match?]
  have hfirst : Rule.first? (longComment (n + 1) ++ rest) =
      some (.blockComment, longComment (n + 1)) := by
    simp [Rule.first?, Rule.table, hwhite, hline, hblock]
  obtain ⟨behind, htext, hlex⟩ := lexemes_cons '/'
    ('*' :: (List.replicate (n + 1) 'a' ++ ['*', '/']) ++ rest)
  have hpiece : Lexeme.first '/' ('*' :: (List.replicate (n + 1) 'a' ++ ['*', '/']) ++ rest) =
      .trivia (.comment .block) (longComment (n + 1)) := by
    unfold Lexeme.first
    rw [show Rule.first? ('/' :: ('*' :: (List.replicate (n + 1) 'a' ++ ['*', '/']) ++ rest)) = _
      from hfirst]
  rw [hpiece] at htext hlex
  obtain rfl : behind = rest := (List.append_cancel_left htext)
  exact hlex

/-- A character without meaning behind a comment of `n + 1` letters. -/
def farRight (n : Nat) : String := String.ofList (longComment (n + 1) ++ ['#'])

/-- What is wrong with that character. -/
def farProblem (n : Nat) : Diagnostic :=
  (Problem.mk (.unrecognised "#") 0 1).locate (Position.start.after (longComment (n + 1))) ['#']

theorem farProblem_mem (n : Nat) : farProblem n ∈ (parseSource (farRight n)).diagnostics := by
  obtain ⟨file, s, -, hrun, -, -, -⟩ := Parser.sourceFile_total (startOf (farRight n))
  have hpieces : lexemes (farRight n).toList =
      [.trivia (.comment .block) (longComment (n + 1)), .skipped '#'] := by
    rw [farRight, String.toList_ofList, lexemes_longComment, show lexemes ['#'] = [.skipped '#'] by
      decide +kernel]
  rw [parseSource_eq hrun, hpieces]
  refine Diagnostics.mem_sorted.mpr (List.mem_append_left _ ?_)
  exact List.mem_singleton.mpr rfl

/-- Behind a long comment there is no room for a caret. -/
theorem render?_farProblem (n : Nat) (hn : Diagnostic.caretRoom ≤ n + 5) (file : String) :
    (farProblem n).render? (farRight n) file = none := by
  have hline : lineBefore (longComment (n + 1)) = longComment (n + 1) := by
    refine List.rtakeWhile_eq_self_iff.mpr fun c hc => ?_
    simp only [longComment, List.mem_cons, List.mem_append, List.mem_replicate] at hc
    rcases hc with rfl | rfl | ⟨-, rfl⟩ | rfl | rfl | hc
    · decide
    · decide
    · decide
    · decide
    · decide
    · simp at hc
  have hdashes : dashes (longComment (n + 1)) ['#'] = n + 5 := by
    rw [dashes, hline]
    simp [longComment, show isIndent '/' = false by decide]
  have hstart : (farProblem n).span.start.offset = byteLength (longComment (n + 1)) := by
    show (Position.start.after _).offset = _
    rw [Position.offset_after]
    exact Nat.zero_add _
  have htext : (farRight n).toList = longComment (n + 1) ++ ['#'] := String.toList_ofList
  have hshown := Diagnostic.render?_isSome_iff htext hstart file
  rw [hdashes] at hshown
  rw [← Option.not_isSome_iff_eq_none, hshown]
  simp only [List.cons_ne_nil, false_or, Nat.not_lt]
  exact hn

theorem byteLength_farRight (n : Nat) : byteLength (farRight n).toList = n + 6 := by
  rw [farRight, String.toList_ofList, byteLength_append, byteLength_longComment]
  rfl

/-- Not every diagnostic of a text that is short enough can be shown. -/
theorem farRight_not_shown :
    byteLength (farRight 65530).toList < 2 ^ 32 - 1 ∧
      ∃ d ∈ (parseSource (farRight 65530)).diagnostics,
        d.render? (farRight 65530) "main" = none := by
  refine ⟨?_, farProblem 65530, farProblem_mem 65530, render?_farProblem 65530 (by decide) "main"⟩
  rw [byteLength_farRight]
  decide

end FrontEnd
