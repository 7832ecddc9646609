/-
Lexing is a matter of single lines.

Two texts with a line feed between them are lexed each on its own.  An open literal, a
backslash at the end of a line, half an escape and half a block comment end with their line,
whatever comes behind it.  White space is the exception: it is joined across lines, and its
pieces are not looked at.

* `TokenStream.notable` — the comments and the characters without meaning;
* `tokenize_append_line` — tokens, problems and notable trivia of two lines are those of the
  first and, moved behind it, those of the second.
-/
import FrontEnd.Proofs.Token.Problems

namespace FrontEnd

/-- The trivia other than white space: the comments and the characters that belong to no
token. -/
def TokenStream.notable (s : TokenStream) : List Trivia :=
  s.trivia.filter (·.kind ≠ .whitespace)

/-- The trivia other than white space among pieces, the first of which stands at `p`. -/
def placedNotable (p : Position) (ls : List Lexeme) : List Trivia :=
  (placedTrivia p ls).filter (·.kind ≠ .whitespace)

/-- The trivia that a piece at its place is. -/
def Lexeme.triviaAt? (piece : Lexeme × Position) : Option Trivia :=
  match piece.1.kind with
  | .token _ => none
  | .trivia kind => some ⟨kind, String.ofList piece.1.text, piece.1.spanAt piece.2⟩

theorem placedNotable_eq_solids (p : Position) (ls : List Lexeme) :
    placedNotable p ls = (solids p ls).filterMap Lexeme.triviaAt? := by
  induction ls generalizing p with
  | nil => rfl
  | cons l ls ih =>
    unfold placedNotable at ih ⊢
    unfold placedTrivia solids
    split
    · next kind hkind =>
      rw [if_neg (by rw [hkind]; exact PieceKind.noConfusion), ih]
      simp [hkind, Lexeme.triviaAt?]
    · next kind hkind =>
      by_cases hwhite : kind = .whitespace
      · rw [if_pos (by rw [hkind, hwhite]), ← ih]
        simp [hwhite]
      · have hsolid : l.kind ≠ .trivia .whitespace := by simpa [hkind] using hwhite
        rw [if_neg hsolid, List.filter_cons_of_pos (by simp [hwhite]), ih]
        simp [Lexeme.triviaAt?, hkind]

theorem placedNotable_shift (δ : Shift) (p : Position) (ls : List Lexeme) :
    placedNotable (p.shift δ) ls = (placedNotable p ls).map (·.relocate (Position.shift δ)) := by
  unfold placedNotable
  rw [placedTrivia_shift, List.filter_map]
  rfl

/-- The notable trivia of a text behind a line are those of the line and, shifted, its own. -/
theorem placedNotable_behind (a b : List Char) :
    placedNotable Position.start (lexemes (a ++ '\n' :: b)) =
      placedNotable Position.start (lexemes a) ++
        (placedNotable Position.start (lexemes b)).map
          (·.relocate (Position.shift (.over (a ++ ['\n'])))) := by
  rw [← placedNotable_shift, ← start_behind]
  simp only [placedNotable_eq_solids, solids_append_line, List.filterMap_append]

/-- The end of the input behind a line is that of the text behind it, shifted. -/
theorem eofAt_behind (a b : List Char) :
    Token.eofAt (Position.start.after (a ++ '\n' :: b)) =
      (Token.eofAt (Position.start.after b)).relocate
        (Position.shift (.over (a ++ ['\n']))) := by
  have hstop : Position.start.after (a ++ '\n' :: b) =
      (Position.start.after b).shift (.over (a ++ ['\n'])) := by
    rw [Position.shift_after, ← start_behind, Position.after_append, Position.after_cons]
  rw [hstop]
  rfl

/-- The tokens of a text but for the end of the input. -/
theorem tokens_tokenize_without_eof (source : String) :
    (tokenize source).stream.tokens.filter (·.kind ≠ .eof) =
      placedTokens Position.start (lexemes source.toList) := by
  have hkeep : (placedTokens Position.start (lexemes source.toList)).filter (·.kind ≠ .eof) =
      placedTokens Position.start (lexemes source.toList) := by
    refine List.filter_eq_self.mpr fun t ht => ?_
    simpa using kind_ne_eof_of_mem_placedTokens ht
  rw [tokens_tokenize, List.filter_append, hkeep]
  simp [Token.eofAt]

/-- How far a text moves that is put on the line after `a`: by the bytes of `a` and of the line
feed, and by one line more than `a` has line feeds. -/
def Shift.behind (a : String) : Shift := ⟨byteLength a.toList + 1, a.toList.count '\n' + 1⟩

theorem Shift.over_eq_behind (a : String) : Shift.over (a.toList ++ ['\n']) = .behind a := by
  rw [Shift.over, byteLength_append, List.count_append]
  rfl

/-- **Lexing is line-local.**  With a line feed between two texts, the tokens, the problems and
the notable trivia are those of the first text without the end of its input, and behind them
those of the second, moved behind the first text and the line feed. -/
theorem tokenize_append_line (a b : String) :
    (tokenize (a ++ "\n" ++ b)).stream.tokens =
        (tokenize a).stream.tokens.filter (·.kind ≠ .eof) ++
          (tokenize b).stream.tokens.map (·.relocate (Position.shift (.behind a))) ∧
      (tokenize (a ++ "\n" ++ b)).diagnostics = (tokenize a).diagnostics ++
        (tokenize b).diagnostics.map (·.relocate (Position.shift (.behind a))) ∧
      (tokenize (a ++ "\n" ++ b)).stream.notable = (tokenize a).stream.notable ++
        (tokenize b).stream.notable.map (·.relocate (Position.shift (.behind a))) := by
  have htext : (a ++ "\n" ++ b).toList = a.toList ++ '\n' :: b.toList := by simp
  refine ⟨?_, ?_, ?_⟩
  · rw [tokens_tokenize_without_eof, tokens_tokenize, tokens_tokenize, htext,
      placedTokens_behind, eofAt_behind, Shift.over_eq_behind, List.map_append, List.append_assoc]
    rfl
  · simp only [tokenize, ofLexemes_eq, htext, ← Shift.over_eq_behind]
    exact placedProblems_behind a.toList b.toList
  · simp only [tokenize, ofLexemes_eq, htext, ← Shift.over_eq_behind, TokenStream.notable]
    exact placedNotable_behind a.toList b.toList

end FrontEnd
