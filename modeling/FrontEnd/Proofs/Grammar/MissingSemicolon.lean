/-
A missing semicolon is one error, and harms one statement.

In a text with nothing wrong in it, the semicolon at the end of a statement is replaced by a
space.  The other tokens and the comments are then the same as before (`SemicolonCut`), and
reading them differs from reading the whole text only around the gap (`breaks_sourceFile`): one
diagnostic is recorded, about a semicolon that is missing before the next token, and the tree has
a skipped stretch in the place of the statement.

* `Visits.exists_gap` — a statement that has been read from a text has its semicolon there;
* `Gap.In.exists_blanked` — the two texts are the same up to that semicolon, and again behind it;
* `parseSource_missing_semicolon` — what parsing gives without it.
-/
import FrontEnd.Proofs.Diagnostic.Sorted
import FrontEnd.Proofs.Grammar.BrokenFiles
import FrontEnd.Proofs.Grammar.Spans

namespace FrontEnd

namespace Parser

variable {source broken : String} {x : Stmt} {t : State}

/-- The gap is in the text: these are its tokens and its trivia. -/
structure Gap.In (g : Gap x) (source : String) : Prop where
  tokens : (startOf source).rest = g.tokens
  trivia : (startOf source).trivia = g.trivia
  eof : (startOf source).eof = g.eof

/-- A statement that has been read from a text stands there up to its semicolon. -/
theorem Visits.exists_gap (h : Visits x true (startOf source) t) :
    ∃ (g : Gap x) (front us : List Token), g.In source ∧ us ≠ [] ∧
      g.before ++ [g.last] = front ++ us ∧ x.SpelledBy (us ++ [g.semi]) ∧
      x.span = covering (us ++ [g.semi]) := by
  obtain ⟨front, us, semi, after, hpass, htidy, hne, hsemi, hspelled, hspan, hnext⟩ := h
  have hplace := inPlace_startOf source
  have hstop := hplace.stop_covering hpass
  rw [← hspan] at hstop
  obtain ⟨vs, last, rfl⟩ := List.eq_nil_or_concat us |>.resolve_left hne
  rw [List.concat_eq_append] at *
  have hrest : (startOf source).rest =
      (front ++ vs) ++ last :: semi :: (after ++ t.rest) := by
    rw [hpass.rest]
    simp
  have harranged := hplace.arranged
  rw [hrest] at harranged
  refine ⟨⟨front ++ vs, last, semi, after ++ t.rest, _, _, harranged, (startOf source).eof_kind,
    hsemi, hstop.symm, ?_, ?_, ?_⟩, front, vs ++ [last], ⟨hrest, rfl, rfl⟩, hne, by simp, hspelled,
    hspan⟩
  · rw [← hpass.eof]
    cases after with
    | nil =>
      rw [List.nil_append, ← current_eq_headD]
      exact hnext.resolve_right (by simp)
    | cons a after => exact hnext.resolve_right (by simp)
  · simpa using htidy
  · intro y hy hle
    have hmem : semi ∈ placedTokens Position.start (lexemes source.toList) := by
      show semi ∈ (startOf source).rest
      simp [hrest]
    exact placedTrivia_clear (fun l hl => (lexeme_proper hl).1) hy hmem hle

/-- Two texts with the same tokens but for the semicolon, and with the same comments, are the
same up to the gap. -/
theorem facing_startOf {g : Gap x} (hg : g.In source)
    (hrest : (startOf broken).rest = g.before ++ g.last :: g.behind)
    (heof : (startOf broken).eof = (startOf source).eof)
    (hcomments : placedComments Position.start (lexemes broken.toList) =
      placedComments Position.start (lexemes source.toList)) :
    Facing g (startOf source) (startOf broken) := by
  have hplace := inPlace_startOf source
  have hsame : ∀ first last,
      (startOf broken).commentsIn first last = (startOf source).commentsIn first last := by
    intro first last
    show (Trivia.between first last (placedTrivia Position.start (lexemes broken.toList))).filterMap
        Comment.ofTrivia? =
      (Trivia.between first last (placedTrivia Position.start (lexemes source.toList))).filterMap
        Comment.ofTrivia?
    rw [comments_between (pairwise_placedTrivia _ _), comments_between (pairwise_placedTrivia _ _)]
    exact congrArg _ hcomments
  have hguard : Guard (g.comparison true) (g.before ++ [g.last]) := by
    refine ⟨fun _ => g.tidy.shut, fun t ht hopener => absurd ?_ (g.tidy.last t ht),
      fun _ t ht => ?_⟩
    · exact List.mem_cons_of_mem _ hopener
    · have hrow := g.arranged.tokens
      rw [← List.singleton_append, ← List.append_assoc] at hrow
      obtain ⟨_, hbefore, hsemi⟩ := hrow.split
      obtain ⟨-, hfits, hstop⟩ := hbefore.of_mem ht
      have hlt := hfits.start_lt_stop
      have hle := hsemi.1
      show t.span.start.offset ≤ g.semi.span.start.offset
      omega
  refine ⟨⟨⟨g.before ++ [g.last], g.before ++ [g.last], ?_, ?_, .refl _ _, hguard, by simp⟩,
    .refl _ _, rfl, hg.eof, heof.trans hg.eof, fun _ => rfl, fun _ first last _ => hsame first last,
    .refl _ _⟩, hg.tokens ▸ hplace, hg.trivia, hsame, Nat.zero_le _⟩
  · rw [hg.tokens]
    simp [Gap.tokens, Gap.comparison]
  · rw [hrest]
    simp [Gap.comparison]

/-- A space in the place of the semicolon leaves all else as it is. -/
theorem Gap.In.exists_blanked {g : Gap x} (hg : g.In source)
    (hsound : placedProblems Position.start (lexemes source.toList) = []) :
    ∃ (pre post : List Char) (broken : String), source.toList = pre ++ ';' :: post ∧
      broken.toList = pre ++ ' ' :: post ∧
      g.semi.span = ⟨Position.start.after pre, x.span.stop⟩ ∧
      (startOf broken).rest = g.before ++ g.last :: g.behind ∧ (startOf broken).eof = g.eof ∧
      placedProblems Position.start (lexemes broken.toList) = [] ∧
      Facing g (startOf source) (startOf broken) := by
  have htokens : (startOf source).rest = (g.before ++ [g.last]) ++ g.semi :: g.behind := by
    rw [hg.tokens, Gap.tokens, List.append_assoc, List.singleton_append]
  obtain ⟨ls, post, hcut⟩ := exists_semicolon g.semi_kind htokens
  obtain ⟨broken, hbroken⟩ : ∃ broken : String, broken.toList = lexemesText ls ++ ' ' :: post :=
    ⟨String.ofList _, String.toList_ofList⟩
  have hblanked := hcut.placedTokens_blanked hsound g.tidy.apart
  have hcomments := hcut.placedComments_blanked hsound g.tidy.apart
  have hproblems := hcut.placedProblems_blanked hsound g.tidy.apart
  have hafter := hcut.after_blanked
  rw [← hbroken] at hblanked hcomments hproblems hafter
  rw [List.append_assoc, List.singleton_append] at hblanked
  have heof : (startOf broken).eof = (startOf source).eof := congrArg Token.eofAt hafter
  refine ⟨lexemesText ls, post, broken, hcut.text_eq, hbroken, ?_, hblanked, heof.trans hg.eof,
    hproblems, facing_startOf hg hblanked heof hcomments⟩
  rw [hcut.span_eq, ← g.stop_eq, hcut.span_eq]

/-- The tokens of the statement without its semicolon, from its start to the last of them. -/
theorem Gap.covering_eq (g : Gap x) {front us : List Token} (hne : us ≠ [])
    (hus : g.before ++ [g.last] = front ++ us) (hspan : x.span = covering (us ++ [g.semi])) :
    covering us = ⟨x.span.start, g.last.span.stop⟩ := by
  obtain ⟨vs, last, rfl⟩ := List.eq_nil_or_concat us |>.resolve_left hne
  rw [List.concat_eq_append] at hne hus hspan ⊢
  obtain rfl : last = g.last := by
    rw [← List.append_assoc] at hus
    simpa using (List.append_inj' hus rfl).2.symm
  have hrow := g.arranged.tokens
  rw [← List.singleton_append, ← List.append_assoc, hus, List.append_assoc] at hrow
  obtain ⟨_, -, hbehind⟩ := hrow.split
  obtain ⟨_, hstmt, -⟩ := hbehind.split
  rw [hspan, covering_append_start hne]
  exact covering_concat hstmt

/-- The tokens with the semicolon, and those without it. -/
theorem Gap.tokens_eq (g : Gap x) {front us : List Token}
    (hus : g.before ++ [g.last] = front ++ us) :
    g.tokens ++ [g.eof] = front ++ (us ++ g.semi :: g.next :: (g.behind.tail ++ [g.eof])) ∧
      (g.before ++ g.last :: g.behind) ++ [g.eof] =
        front ++ (us ++ g.next :: (g.behind.tail ++ [g.eof])) := by
  have hlast : ∀ ts, g.before ++ g.last :: ts = front ++ (us ++ ts) := by
    intro ts
    rw [← List.append_assoc front, ← hus, List.append_assoc, List.singleton_append]
  have hbehind : g.behind = g.next :: g.behind.tail := by
    obtain ⟨a, as, has⟩ := List.exists_cons_of_ne_nil g.behind_ne_nil
    rw [Gap.next, has]
    rfl
  refine ⟨?_, ?_⟩
  · rw [Gap.tokens, hlast, hbehind]
    simp
  · rw [hlast, hbehind]
    simp

end Parser

/-- **A missing semicolon harms one statement.**  In a text with nothing wrong in it, the
semicolon at the end of a statement is replaced by a space.  All other tokens stay, exactly one
thing is wrong, namely that a semicolon is missing before the next token, and the tree is the same
but for the statement.  In its place stands a skipped stretch of its tokens, and behind that come
the comments before the semicolon. -/
theorem parseSource_missing_semicolon (source : String) (stmt : Stmt)
    (hok : (parseSource source).diagnostics = []) (hheld : (parseSource source).file.Holds stmt)
    (hform : stmt.endsWithSemicolon) :
    ∃ (pre post : List Char) (broken : String) (front us behind : List Token) (semi next : Token)
      (production : String),
      source.toList = pre ++ ';' :: post ∧ broken.toList = pre ++ ' ' :: post ∧
      semi.kind = .symbol .semicolon ∧ semi.span = ⟨Position.start.after pre, stmt.span.stop⟩ ∧
      stmt.SpelledBy (us ++ [semi]) ∧ stmt.span = covering (us ++ [semi]) ∧
      (parseSource source).stream.tokens = front ++ (us ++ semi :: next :: behind) ∧
      (parseSource broken).stream.tokens = front ++ (us ++ next :: behind) ∧
      (parseSource broken).diagnostics =
        [⟨.missing production (.symbol .semicolon) next.display, next.span⟩] ∧
      SourceFile.Swaps stmt
        (.error (covering us) ::
          ((Trivia.between (covering us).stop.offset semi.span.start.offset
            (parseSource source).stream.trivia).filterMap Comment.ofTrivia?).map .comment)
        (parseSource source).file (parseSource broken).file := by
  obtain ⟨file, s, _, hrun, -⟩ := Parser.sourceFile_total (startOf source)
  have hsource := parseSource_eq hrun
  rw [hsource] at hok hheld ⊢
  obtain ⟨hsound, hclean⟩ := List.append_eq_nil_iff.mp (Diagnostics.sorted_eq_nil.mp hok)
  have hbreaks := Parser.breaks_sourceFile hform (startOf source)
  obtain ⟨g, front, us, hg, hne, hus, hspelled, hspan⟩ :=
    (hbreaks.place file s hrun hclean hheld).exists_gap
  obtain ⟨pre, post, broken, htext, hbroken, hsemi, hrest, heof, hproblems, hfacing⟩ :=
    hg.exists_blanked hsound
  -- Without the semicolon one diagnostic is recorded.
  obtain ⟨production, file', s', hrun', hswaps, hresumed⟩ :=
    hbreaks.run g (startOf broken) file s hfacing hrun hclean hheld
  have hreported : s'.diagnostics.reported = [g.missing production] := by
    rw [hresumed.diagnostics]
    exact congrArg _ hclean
  have htrivia : (tokenize source).stream.trivia = g.trivia := by
    rw [tokenize, ofLexemes_eq]
    exact hg.trivia
  have hparsed := parseSource_eq hrun'
  obtain ⟨hall, hall'⟩ := g.tokens_eq hus
  refine ⟨pre, post, broken, front, us, g.behind.tail ++ [g.eof], g.semi, g.next, production, htext,
    hbroken, g.semi_kind, hsemi, hspelled, hspan, ?_, ?_, ?_, ?_⟩
  · rw [← hall, ← hg.tokens, ← hg.eof]
    exact tokens_tokenize source
  · rw [hparsed, ← hall', ← hrest, ← heof]
    exact tokens_tokenize broken
  · rw [hparsed, hproblems, hreported, List.nil_append, Diagnostics.sorted_eq,
      List.mergeSort_singleton]
    rfl
  · rw [hparsed, g.covering_eq hne hus hspan, htrivia]
    exact hswaps

/-- A loop with a statement that has comments around its semicolon. -/
def loopText : String := "fn f() \x7b while x \x7b break /* b */; // c\n \x7d \x7d"

theorem parseSource_missing_semicolon_loopText :
    (parseSource loopText).diagnostics = [] ∧
      ∃ stmt ∈ (parseSource loopText).file.statements, stmt.endsWithSemicolon ∧
      ∃ (pre post : List Char) (broken : String) (us : List Token) (semi next : Token)
        (production : String),
        loopText.toList = pre ++ ';' :: post ∧ broken.toList = pre ++ ' ' :: post ∧
        (parseSource broken).diagnostics =
          [⟨.missing production (.symbol .semicolon) next.display, next.span⟩] ∧
        SourceFile.Swaps stmt
          (.error (covering us) ::
            ((Trivia.between (covering us).stop.offset semi.span.start.offset
              (parseSource loopText).stream.trivia).filterMap Comment.ofTrivia?).map .comment)
          (parseSource loopText).file (parseSource broken).file := by
  have hok : (parseSource loopText).diagnostics = [] := by decide +kernel
  have hany : (parseSource loopText).file.statements.any Stmt.endsWithSemicolon := by
    decide +kernel
  obtain ⟨stmt, hmem, hform⟩ := List.any_eq_true.mp hany
  obtain ⟨pre, post, broken, _, us, _, semi, next, production, hsource, hbroken, -, -, -, -, -, -,
    hdiagnostics, hswaps⟩ :=
    parseSource_missing_semicolon loopText stmt hok (SourceFile.holds_of_mem_statements hmem) hform
  exact ⟨hok, stmt, hmem, hform, pre, post, broken, us, semi, next, production, hsource, hbroken,
    hdiagnostics, hswaps⟩

end FrontEnd
