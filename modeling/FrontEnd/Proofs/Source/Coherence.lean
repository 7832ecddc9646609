/-
Positions say where they stand.

A position keeps its offset, its line and its column, and each way to get a new one from an old
one has its own rule: over the characters of a piece, a number of bytes ahead in it, along the
line for the parts of a literal, one byte on for the second ampersand of a double reference.
All of them agree with the text: the offset is that of a place between two characters, and line
and column are what counting in the text before it gives.

* `Position.Coherent` — the position agrees with the text, in terms of the text alone;
* `coherent_after` — stepping over how a text starts leads to such a position;
* `positions_coherent` — both ends of every token, all trivia, every diagnostic and every node
  of the tree are such positions.
-/
import FrontEnd.Proofs.Diagnostic.Sorted
import FrontEnd.Proofs.Tree.Marks

namespace FrontEnd

/-- The position is that of a place between two characters of the text, or at one of its ends:
its offset is the number of bytes before that place, its line one more than the line feeds
before it, and its column one more than the characters since the last of these. -/
def Position.Coherent (source : String) (p : Position) : Prop :=
  ∃ before rest, source.toList = before ++ rest ∧ p.offset = byteLength before ∧
    p.line = 1 + before.count '\n' ∧
    p.column = 1 + (before.reverse.takeWhile (· ≠ '\n')).length

/-! ### Stepping over characters -/

theorem Position.column_after (cs : List Char) :
    (start.after cs).column = 1 + (cs.reverse.takeWhile (· ≠ '\n')).length := by
  induction cs using List.reverseRecOn with
  | nil => rfl
  | append_singleton cs c ih =>
    rw [after_append, after_cons, after_nil, List.reverse_append, List.reverse_singleton,
      List.singleton_append]
    by_cases hc : c = '\n'
    · simp [next, hc]
    · rw [List.takeWhile_cons_of_pos (by simpa using hc), List.length_cons, ← Nat.add_assoc, ← ih]
      simp [next, hc]

/-- Stepping over how a text starts leads to a place of the text. -/
theorem coherent_after {source : String} {before rest : List Char}
    (h : source.toList = before ++ rest) : (Position.start.after before).Coherent source := by
  refine ⟨before, rest, h, ?_, Position.line_after _ _, Position.column_after before⟩
  rw [Position.offset_after]
  exact Nat.zero_add _

/-- A number of bytes ahead in a text lies a place that stepping over characters leads to. -/
theorem Position.exists_ahead (p : Position) (n : Nat) (cs : List Char) :
    ∃ pre post, cs = pre ++ post ∧ p.ahead n cs = p.after pre := by
  fun_induction ahead p n cs with
  | case1 p cs => exact ⟨[], cs, rfl, rfl⟩
  | case2 p n => exact ⟨[], [], rfl, rfl⟩
  | case3 p n c cs ih =>
    obtain ⟨pre, post, rfl, hahead⟩ := ih
    exact ⟨c :: pre, post, rfl, hahead⟩

/-- A piece of a text lies between two places of the text. -/
theorem coherent_spanAt {source : String} {before cs : List Char} {c : Char}
    (h : source.toList = before ++ c :: cs) :
    ((Lexeme.first c cs).spanAt (Position.start.after before)).Marked
      (Position.Coherent source) := by
  obtain ⟨rest, hrest⟩ := exists_behind_first h
  refine ⟨coherent_after h, ?_⟩
  show ((Position.start.after before).after _).Coherent source
  rw [← Position.after_append]
  rw [← List.append_assoc] at hrest
  exact coherent_after hrest

/-! ### Tokens -/

section

variable {source : String}

/-- The tokens of a text, and the places inside them, agree with the text. -/
theorem marked_token {t : Token} (h : t ∈ placedTokens Position.start (lexemes source.toList)) :
    t.Marked (Position.Coherent source) := by
  obtain ⟨before, c, cs, hsource, hkind, -, hspan⟩ := exists_token h
  refine ⟨?_, fun quote hquote part hpart => ?_, fun hand => ?_⟩
  · rw [hspan]
    exact coherent_spanAt hsource
  · obtain ⟨before, cs, hsource, htext, hspan⟩ := exists_literal h hquote
    obtain ⟨pre, post, hpre, hpart⟩ :=
      Parser.exists_of_mem_literalParts hquote.isQuote hsource htext hspan hpart
    rw [hpart]
    refine ⟨coherent_after hpre, ?_⟩
    rw [← List.append_assoc] at hpre
    show ((Position.start.after pre).after _).Coherent source
    rw [← Position.after_append]
    exact coherent_after hpre
  · -- The token is two ampersands, and the place is behind the first of them.
    have htext := congrArg Lexeme.text
      (Lexeme.first_symbol (hkind.trans (congrArg PieceKind.token hand)))
    obtain ⟨rest, hrest⟩ := exists_behind_first hsource
    rw [htext, Lexeme.token, show Symbol.and.spelling.toList = ['&', '&'] by decide] at hrest
    have hsplit : source.toList = (before ++ ['&']) ++ ('&' :: rest) := by simp [hrest]
    have hinner := coherent_after hsplit
    rw [Position.after_append] at hinner
    rw [hspan]
    exact hinner

theorem marked_eof :
    (Token.eofAt (Position.start.after source.toList)).Marked (Position.Coherent source) := by
  have hend : (Position.start.after source.toList).Coherent source :=
    coherent_after (List.append_nil _).symm
  refine ⟨⟨hend, hend⟩, fun quote hquote => ?_, fun hand => ?_⟩
  · cases hquote
  · simp [Token.eofAt] at hand

theorem marked_of_mem_tokens {t : Token} (h : t ∈ (tokenize source).stream.tokens) :
    t.Marked (Position.Coherent source) := by
  rw [tokens_tokenize] at h
  rcases List.mem_append.mp h with h | h
  · exact marked_token h
  · rw [List.mem_singleton.mp h]
    exact marked_eof

theorem marked_of_mem_trivia {x : Trivia} (h : x ∈ (tokenize source).stream.trivia) :
    x.span.Marked (Position.Coherent source) := by
  rw [tokenize, ofLexemes_eq] at h
  obtain ⟨before, c, cs, hsource, -, -, hspan⟩ := exists_trivia h
  rw [hspan]
  exact coherent_spanAt hsource

/-! ### Diagnostics -/

/-- What is wrong with a piece is wrong between two places of the piece. -/
theorem marked_problem {d : Diagnostic} (h : d ∈ (tokenize source).diagnostics) :
    d.span.Marked (Position.Coherent source) := by
  rw [tokenize, ofLexemes_eq] at h
  obtain ⟨before, c, cs, hsource, problem, -, rfl⟩ := exists_problem h
  obtain ⟨rest, hrest⟩ := exists_behind_first hsource
  have hahead : ∀ n, ((Position.start.after before).ahead n (Lexeme.first c cs).text).Coherent
      source := by
    intro n
    obtain ⟨pre, post, htext, hpre⟩ :=
      (Position.start.after before).exists_ahead n (Lexeme.first c cs).text
    have hsplit : source.toList = (before ++ pre) ++ (post ++ rest) := by
      rw [hrest, htext, List.append_assoc, List.append_assoc]
    rw [hpre, ← Position.after_append]
    exact coherent_after hsplit
  exact ⟨hahead _, hahead _⟩

/-- A diagnostic is about a piece of the text, or about tokens or what these spell, and then it
starts with one of them. -/
theorem diagnostic_cases {d : Diagnostic} (h : d ∈ (parseSource source).diagnostics) :
    d ∈ (tokenize source).diagnostics ∨
      ∃ us, Parser.Names us d.span ∧ (∃ t ∈ us, d.span.start = t.span.start) ∧
        ∀ t ∈ us, t ∈ (tokenize source).stream.tokens := by
  obtain ⟨file, s, ts, hrun, hwalk, -, -⟩ := Parser.sourceFile_total (startOf source)
  rw [parseSource_eq hrun] at h
  rcases List.mem_append.mp (Diagnostics.mem_sorted.mp h) with hd | hd
  · rw [tokenize, ofLexemes_eq]
    exact .inl hd
  · obtain ⟨ds, hds, hlocated⟩ := hwalk.diagnostics
    have hmem : d ∈ ds := by
      rw [hds] at hd
      simpa [startOf] using hd
    obtain ⟨-, hstart, hnames⟩ := hlocated d hmem
    refine .inr ⟨ts ++ [s.current], hnames, hstart, fun t ht => ?_⟩
    -- The tokens read and the next one are tokens of the text, or the end of the input.
    have hrest : (startOf source).rest = ts ++ s.rest := hwalk.rest
    rw [tokens_tokenize, show placedTokens Position.start _ = ts ++ s.rest from hrest]
    rcases List.mem_append.mp ht with ht | ht
    · exact List.mem_append_left _ (List.mem_append_left _ ht)
    · have hcurrent : s.current ∈ s.rest ++ [(startOf source).eof] := by
        rw [← hwalk.eof, Parser.State.current, Parser.State.peek]
        cases s.rest <;> simp
      rw [List.mem_singleton.mp ht, List.append_assoc]
      exact List.mem_append_right _ hcurrent

theorem marked_of_mem_diagnostics {d : Diagnostic} (h : d ∈ (parseSource source).diagnostics) :
    d.span.Marked (Position.Coherent source) := by
  rcases diagnostic_cases h with hd | ⟨us, hnames, -, hus⟩
  · exact marked_problem hd
  · exact hnames.marked fun t ht => marked_of_mem_tokens (hus t ht)

/-! ### Nodes -/

theorem marked_of_mem_preorder {entry : Nat × Node}
    (h : entry ∈ (parseSource source).file.toNode.preorder 0) :
    entry.2.span.Marked (Position.Coherent source) := by
  obtain ⟨-, hspan⟩ := parseSource_made source
  have hcomments : ∀ c, (startOf source).Holds c → c.span.Marked (Position.Coherent source) := by
    rintro c ⟨x, hx, hc⟩
    rw [Parser.span_of_ofTrivia? hc]
    refine marked_of_mem_trivia ?_
    rw [tokenize, ofLexemes_eq]
    exact hx
  have hdefinitions := (parseSource_builds source).marks hcomments
  have hfile : (parseSource source).file.span.Marked (Position.Coherent source) := by
    rw [hspan]
    exact ⟨coherent_after (List.nil_append _).symm, coherent_after (List.append_nil _).symm⟩
  have htree : (parseSource source).file.toNode.Everywhere
      (·.span.Marked (Position.Coherent source)) :=
    .mk hfile (hdefinitions fun t ht => marked_token ht)
  exact htree.of_mem_preorder h

end

/-- **Positions are coherent.**  Both ends of every token, all trivia and all lexical
diagnostics of a text, of every diagnostic that parsing it gives and of every node of its tree
agree with the text. -/
theorem positions_coherent (source : String) :
    (∀ t ∈ (tokenize source).stream.tokens, t.span.Marked (Position.Coherent source)) ∧
    (∀ x ∈ (tokenize source).stream.trivia, x.span.Marked (Position.Coherent source)) ∧
    (∀ d ∈ (tokenize source).diagnostics, d.span.Marked (Position.Coherent source)) ∧
    (∀ d ∈ (parseSource source).diagnostics, d.span.Marked (Position.Coherent source)) ∧
    ∀ entry ∈ (parseSource source).file.toNode.preorder 0,
      entry.2.span.Marked (Position.Coherent source) := by
  refine ⟨fun t ht => ?_, fun x hx => ?_, fun d hd => ?_, fun d hd => ?_, fun entry hentry => ?_⟩
  · exact (marked_of_mem_tokens ht).span
  · exact marked_of_mem_trivia hx
  · exact marked_problem hd
  · exact marked_of_mem_diagnostics hd
  · exact marked_of_mem_preorder hentry

/-- A literal with a wrong escape behind a wide character and, on the next line, a reference to
a reference behind a wide name. -/
def wideCharText : String := "'→\\x'\nfn é(x: &&u8) \x7b\x7d"

theorem positions_coherent_wideCharText :
    (∃ d ∈ (tokenize wideCharText).diagnostics, d.span.start = ⟨4, 1, 3⟩ ∧
      Position.Coherent wideCharText ⟨4, 1, 3⟩) ∧
    ∃ entry ∈ (parseSource wideCharText).file.toNode.preorder 0, entry.2.kind = .refType ∧
      entry.2.span.start = ⟨18, 2, 10⟩ ∧ Position.Coherent wideCharText ⟨18, 2, 10⟩ := by
  obtain ⟨-, -, hproblems, -, hnodes⟩ := positions_coherent wideCharText
  obtain ⟨d, hd, hstart⟩ : ∃ d ∈ (tokenize wideCharText).diagnostics,
      d.span.start = ⟨4, 1, 3⟩ := by
    decide +kernel
  obtain ⟨entry, hentry, hkind, hinner⟩ : ∃ entry ∈
      (parseSource wideCharText).file.toNode.preorder 0, entry.2.kind = .refType ∧
        entry.2.span.start = ⟨18, 2, 10⟩ := by
    decide +kernel
  exact ⟨⟨d, hd, hstart, hstart ▸ (hproblems d hd).1⟩, entry, hentry, hkind, hinner,
    hinner ▸ (hnodes entry hentry).1⟩

end FrontEnd
