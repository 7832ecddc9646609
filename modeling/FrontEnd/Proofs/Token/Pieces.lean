/-
Every piece of a text at its place.

The tokens, the trivia and the problems of a text are three views of one list: the pieces, in
the order in which they are cut off, each with the position where it starts.  A piece of that
list is the first piece of what is left of the text there.

* `piecesAt` — the pieces with their places;
* `exists_of_mem_piecesAt` — a piece is cut from the text at its place;
* `exists_token`, `exists_trivia`, `exists_problem` — so are the tokens, the trivia and what is
  wrong.
-/
import FrontEnd.Proofs.Token.Locality

namespace FrontEnd

/-- Pieces that stand one after the other, the first of them at `p`, each with its place. -/
def piecesAt (p : Position) : List Lexeme → List (Lexeme × Position)
  | [] => []
  | l :: ls => (l, p) :: piecesAt (p.after l.text) ls

theorem placedTokens_eq_pieces (p : Position) (ls : List Lexeme) :
    placedTokens p ls = (piecesAt p ls).filterMap Lexeme.tokenAt? := by
  induction ls generalizing p with
  | nil => rfl
  | cons l ls ih =>
    unfold placedTokens piecesAt
    split
    · next kind hkind => simp [Lexeme.tokenAt?, hkind, ih]
    · next kind hkind => simp [Lexeme.tokenAt?, hkind, ih]

theorem placedTrivia_eq_pieces (p : Position) (ls : List Lexeme) :
    placedTrivia p ls = (piecesAt p ls).filterMap Lexeme.triviaAt? := by
  induction ls generalizing p with
  | nil => rfl
  | cons l ls ih =>
    unfold placedTrivia piecesAt
    split
    · next kind hkind => simp [Lexeme.triviaAt?, hkind, ih]
    · next kind hkind => simp [Lexeme.triviaAt?, hkind, ih]

theorem placedProblems_eq_pieces (p : Position) (ls : List Lexeme) :
    placedProblems p ls = (piecesAt p ls).flatMap Lexeme.problemsAt := by
  induction ls generalizing p with
  | nil => rfl
  | cons l ls ih =>
    rw [placedProblems, ih]
    rfl

/-- A piece is the first one of what is left of the text at its place. -/
theorem exists_of_mem_piecesAt {p : Position} {text : List Char} {piece : Lexeme × Position}
    (h : piece ∈ piecesAt p (lexemes text)) :
    ∃ before c cs, text = before ++ c :: cs ∧ piece = (Lexeme.first c cs, p.after before) := by
  induction text using lexemes_induction generalizing p with
  | nil => simp [lexemes, piecesAt] at h
  | cons c cs rest htext hlex ih =>
    rw [hlex] at h
    rcases List.mem_cons.mp h with rfl | hmem
    · exact ⟨[], c, cs, rfl, rfl⟩
    · obtain ⟨before, d, ds, hrest, hpiece⟩ := ih hmem
      refine ⟨(Lexeme.first c cs).text ++ before, d, ds, ?_, ?_⟩
      · rw [List.append_assoc, ← hrest, htext]
      · rw [hpiece, Position.after_append]

/-- A token is the first piece of what is left of the text where it starts. -/
theorem exists_token {p : Position} {text : List Char} {t : Token}
    (h : t ∈ placedTokens p (lexemes text)) :
    ∃ before c cs, text = before ++ c :: cs ∧ (Lexeme.first c cs).kind = .token t.kind ∧
      t.text = String.ofList (Lexeme.first c cs).text ∧
      t.span = (Lexeme.first c cs).spanAt (p.after before) := by
  rw [placedTokens_eq_pieces] at h
  obtain ⟨piece, hpiece, ht⟩ := List.mem_filterMap.mp h
  obtain ⟨before, c, cs, htext, rfl⟩ := exists_of_mem_piecesAt hpiece
  refine ⟨before, c, cs, htext, ?_⟩
  unfold Lexeme.tokenAt? at ht
  split at ht
  · next kind hkind =>
    obtain rfl := Option.some.inj ht
    exact ⟨hkind, rfl, rfl⟩
  · exact absurd ht (by simp)

/-- Trivia are the first piece of what is left of the text where they start. -/
theorem exists_trivia {p : Position} {text : List Char} {t : Trivia}
    (h : t ∈ placedTrivia p (lexemes text)) :
    ∃ before c cs, text = before ++ c :: cs ∧ (Lexeme.first c cs).kind = .trivia t.kind ∧
      t.text = String.ofList (Lexeme.first c cs).text ∧
      t.span = (Lexeme.first c cs).spanAt (p.after before) := by
  rw [placedTrivia_eq_pieces] at h
  obtain ⟨piece, hpiece, ht⟩ := List.mem_filterMap.mp h
  obtain ⟨before, c, cs, htext, rfl⟩ := exists_of_mem_piecesAt hpiece
  refine ⟨before, c, cs, htext, ?_⟩
  unfold Lexeme.triviaAt? at ht
  split at ht
  · exact absurd ht (by simp)
  · next kind hkind =>
    obtain rfl := Option.some.inj ht
    exact ⟨hkind, rfl, rfl⟩

/-- What is wrong is wrong with the first piece of what is left of the text at some place. -/
theorem exists_problem {p : Position} {text : List Char} {d : Diagnostic}
    (h : d ∈ placedProblems p (lexemes text)) :
    ∃ before c cs, text = before ++ c :: cs ∧ ∃ problem ∈ (Lexeme.first c cs).problems,
      d = problem.locate (p.after before) (Lexeme.first c cs).text := by
  rw [placedProblems_eq_pieces] at h
  obtain ⟨piece, hpiece, hd⟩ := List.mem_flatMap.mp h
  obtain ⟨before, c, cs, htext, rfl⟩ := exists_of_mem_piecesAt hpiece
  obtain ⟨problem, hproblem, rfl⟩ := List.mem_map.mp hd
  exact ⟨before, c, cs, htext, problem, hproblem, rfl⟩

/-- The first piece of a text and what is left behind it. -/
theorem exists_behind_first {text before cs : List Char} {c : Char}
    (h : text = before ++ c :: cs) :
    ∃ rest, text = before ++ ((Lexeme.first c cs).text ++ rest) := by
  obtain ⟨-, rest, hrest⟩ := Lexeme.first_text c cs
  exact ⟨rest, by rw [hrest, h]⟩

end FrontEnd
