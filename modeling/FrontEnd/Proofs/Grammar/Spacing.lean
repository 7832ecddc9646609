/-
Spacing and comments do not matter.

Two texts with the same tokens, whatever stands between these, are read as the same tree but for
places and comments, and the same is wrong with them (`parseTokens_respaced`).

The state of a parser holds offsets: how far comments have been handed out is an offset, and it
is compared with the place of the next token in every block, every struct and between all
definitions.  These offsets differ in the two texts, and so do the comments that are handed out,
but no other decision is taken by them.
-/
import FrontEnd.Proofs.Grammar.Joining
import FrontEnd.Proofs.Grammar.MirroredFiles

namespace FrontEnd

/-- A token without its place. -/
def Token.value (t : Token) : Kind × String := (t.kind, t.text)

theorem Token.relocate_unplaced_of_value {ts us : List Token}
    (h : ts.map Token.value = us.map Token.value) :
    ts.map (·.relocate unplaced) = us.map (·.relocate unplaced) := by
  have hvalue : ∀ vs : List Token, vs.map (·.relocate unplaced) =
      (vs.map Token.value).map fun v => ⟨v.1, v.2, ⟨Position.start, Position.start⟩⟩ := by
    intro vs
    rw [List.map_map]
    rfl
  rw [hvalue, hvalue, h]

namespace Parser

/-- All tokens of two texts are compared, but not their places. -/
def wholeTexts (a b : String) : Comparison where
  placed := false
  rest := []
  rest' := []
  eof := (startOf a).eof
  eof' := (startOf b).eof
  bound := 0
  kind_mem := by simp [startOf, Token.eofAt, ends]
  heads := .inl ⟨by simp, rfl⟩
  nil_iff := Iff.rfl
  proper h := absurd rfl h
  start_le h := absurd h (by simp)

theorem exact_wholeTexts (a b : String) : (wholeTexts a b).Exact := ⟨by simp [wholeTexts], rfl⟩

/-- A state at the start of some tokens, and the start of a text with the same ones. -/
theorem paired_of_value {a b : String} {s : State} (hcursor : s.toTokenCursor = { rest := s.rest })
    (heof : s.eof = (startOf a).eof) (hclean : s.Clean)
    (h : s.rest.map Token.value = (startOf b).rest.map Token.value) :
    Paired (wholeTexts a b) s (startOf b) where
  rest := by
    refine ⟨s.rest, (startOf b).rest, by simp [wholeTexts], by simp [wholeTexts],
      ⟨by simp [wholeTexts], Token.relocate_unplaced_of_value h⟩, ⟨?_, ?_, ?_⟩, ?_⟩
    · exact fun hsemi => nomatch hsemi
    · exact fun _ _ _ => exact_wholeTexts a b
    · exact fun hp => absurd hp (by simp [wholeTexts])
    · exact fun _ _ => exact_wholeTexts a b
  consumed := by
    rw [hcursor]
    exact .refl _ _
  depth := by
    rw [hcursor]
    rfl
  eof := heof
  eof' := rfl
  commentsTaken _ := by
    rw [hcursor]
    rfl
  commentsIn hp := absurd hp (by simp [wholeTexts])
  diagnostics := by
    rw [show s.diagnostics.reported = [] from hclean]
    exact .refl _ _

theorem paired_wholeTexts {a b : String}
    (h : (startOf a).rest.map Token.value = (startOf b).rest.map Token.value) :
    Paired (wholeTexts a b) (startOf a) (startOf b) :=
  paired_of_value rfl rfl rfl h

end Parser

/-- The tokens of a text, without the end of the input, are told by all of them. -/
theorem value_startOf {a b : String}
    (h : (tokenize a).stream.tokens.map Token.value = (tokenize b).stream.tokens.map Token.value) :
    (startOf a).rest.map Token.value = (startOf b).rest.map Token.value := by
  rw [tokens_tokenize, tokens_tokenize, List.map_append, List.map_append] at h
  exact List.append_inj_left' h rfl

/-- The tree of a text and what is wrong with it depend on nothing but the kinds and the texts of
its tokens, apart from places and comments. -/
theorem parseTokens_respaced (a b : String)
    (h : (tokenize a).stream.tokens.map Token.value =
      (tokenize b).stream.tokens.map Token.value) :
    (parseTokens (tokenize a).stream).1.bare = (parseTokens (tokenize b).stream).1.bare ∧
      (parseTokens (tokenize a).stream).2.map (·.cause) =
        (parseTokens (tokenize b).stream).2.map (·.cause) := by
  have hpaired := Parser.paired_wholeTexts (value_startOf h)
  obtain ⟨file, s, -, hfile, -⟩ := Parser.sourceFile_total (startOf a)
  have hmirrors : Parser.Mirrors (Parser.wholeTexts a b) Parser.anywhere false SourceFile.bare
      (Parser.sourceFile Grammar.standard) (Parser.sourceFile Grammar.standard) :=
    Parser.mirrors_sourceFile (Parser.exact_wholeTexts a b)
  obtain ⟨file', s', hfile', halike, hs⟩ :=
    (hmirrors.run _ _ hpaired trivial).ok file s hfile (.inr (Nat.zero_le _))
  have hcauses : ∀ ds : List Diagnostic,
      ds.map (·.cause) = (ds.map (·.relocate unplaced)).map (·.cause) := by
    intro ds
    rw [List.map_map]
    rfl
  rw [parseTokens_tokenize hfile, parseTokens_tokenize hfile']
  refine ⟨halike.shown, ?_⟩
  rw [hcauses, hs.diagnostics.shown, ← hcauses]

/-- A struct and a function in which a semicolon is missing, with comments. -/
def wideText : String :=
  "struct P \x7b // fields\n  x: i32, \x7d\nfn f(): i32 \x7b let a: i32 = 1 /* one */\n" ++
    "  return a; \x7d // end"

/-- The same tokens, with other comments and a character that no token starts with. -/
def denseText : String :=
  "struct P\x7bx:i32,/* last */\x7dfn f():i32\x7blet a:i32=1 @ return a;\x7d"

theorem parseTokens_respaced_wideText :
    (tokenize wideText).stream.tokens.map Token.value =
        (tokenize denseText).stream.tokens.map Token.value ∧
      (parseTokens (tokenize wideText).stream).1.bare =
        (parseTokens (tokenize denseText).stream).1.bare ∧
      (parseTokens (tokenize wideText).stream).2.map (·.cause) =
        (parseTokens (tokenize denseText).stream).2.map (·.cause) := by
  have hvalue : (tokenize wideText).stream.tokens.map Token.value =
      (tokenize denseText).stream.tokens.map Token.value := by
    decide +kernel
  exact ⟨hvalue, parseTokens_respaced wideText denseText hvalue⟩

end FrontEnd
