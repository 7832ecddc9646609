/-
What is wrong with the pieces of two lines.

White space has no problems, so that what is wrong with a text is wrong with its other pieces.
These are cut line by line.

* `placedProblems_behind` — what is wrong with two lines is wrong with the first or with the
  second, each as it is on its own;
* `offset_of_mem_placedProblems` — a problem starts within its text.
-/
import FrontEnd.Proofs.Token.Lines

namespace FrontEnd

namespace Position

theorem shift_ahead (δ : Shift) (p : Position) (n : Nat) (cs : List Char) :
    (p.ahead n cs).shift δ = (p.shift δ).ahead n cs := by
  fun_induction ahead p n cs with
  | case1 => rw [ahead]
  | case2 => rw [ahead]
  | case3 p n c cs ih => rw [ih, shift_next, ahead]

/-- A place ahead in a text lies within the text. -/
theorem offset_ahead (p : Position) (n : Nat) (cs : List Char) :
    p.offset ≤ (p.ahead n cs).offset ∧ (p.ahead n cs).offset ≤ (p.after cs).offset := by
  fun_induction ahead p n cs with
  | case1 p cs =>
    rw [offset_after]
    omega
  | case2 => exact ⟨Nat.le_refl _, Nat.le_refl _⟩
  | case3 p n c cs ih =>
    obtain ⟨hfirst, hlast⟩ := ih
    have hnext := offset_after p [c]
    rw [after_cons, after_nil] at hnext
    exact ⟨by omega, hlast⟩

end Position

/-- What is wrong with a piece at its place. -/
def Lexeme.problemsAt (piece : Lexeme × Position) : List Diagnostic :=
  piece.1.problems.map (·.locate piece.2 piece.1.text)

/-- Nothing is wrong with white space. -/
theorem problems_white {text : List Char} {l : Lexeme} (hl : l ∈ lexemes text)
    (hwhite : l.kind = .trivia .whitespace) : l.problems = [] := by
  induction text using lexemes_induction with
  | nil => simp [lexemes] at hl
  | cons c cs rest htext hlex ih =>
    rw [hlex] at hl
    rcases List.mem_cons.mp hl with rfl | hmem
    · unfold Lexeme.first at hwhite ⊢
      split at hwhite
      · exact absurd hwhite (by simp [Lexeme.skipped])
      · split at hwhite
        · rfl
        · rfl
        · rfl
        · rfl
        · rfl
        · exact absurd hwhite (by simp [Lexeme.stringLiteral])
        · exact absurd hwhite (by simp [Lexeme.charLiteral])
        · rfl
    · exact ih hmem

theorem placedProblems_eq_solids (p : Position) {ls : List Lexeme}
    (hwhite : ∀ l ∈ ls, l.kind = .trivia .whitespace → l.problems = []) :
    placedProblems p ls = (solids p ls).flatMap Lexeme.problemsAt := by
  induction ls generalizing p with
  | nil => rfl
  | cons l ls ih =>
    have hlater := ih (p.after l.text) fun l' hl' => hwhite l' (List.mem_cons_of_mem l hl')
    unfold placedProblems solids
    rw [hlater]
    split
    · next h => rw [hwhite l (by simp) h, List.map_nil, List.nil_append]
    · rfl

theorem placedProblems_shift (δ : Shift) (p : Position) (ls : List Lexeme) :
    placedProblems (p.shift δ) ls = (placedProblems p ls).map (·.relocate (Position.shift δ)) := by
  induction ls generalizing p with
  | nil => rfl
  | cons l ls ih =>
    have hlocate : ∀ problem : Problem, problem.locate (p.shift δ) l.text =
        (problem.locate p l.text).relocate (Position.shift δ) := by
      intro problem
      rw [Problem.locate, ← Position.shift_ahead, ← Position.shift_ahead]
      rfl
    simp only [placedProblems, ← Position.shift_after, ih, List.map_append, List.map_map]
    exact congrArg (· ++ _) (List.map_congr_left fun problem _ => hlocate problem)

/-- What is wrong with a text behind a line is wrong with the line or, shifted, with the text. -/
theorem placedProblems_behind (a b : List Char) :
    placedProblems Position.start (lexemes (a ++ '\n' :: b)) =
      placedProblems Position.start (lexemes a) ++
        (placedProblems Position.start (lexemes b)).map
          (·.relocate (Position.shift (.over (a ++ ['\n'])))) := by
  rw [← placedProblems_shift, ← start_behind,
    placedProblems_eq_solids _ fun _ => problems_white,
    placedProblems_eq_solids _ fun _ => problems_white,
    placedProblems_eq_solids _ fun _ => problems_white, solids_append_line, List.flatMap_append]

/-- A problem starts within its text. -/
theorem offset_of_mem_placedProblems {p : Position} {ls : List Lexeme} {d : Diagnostic}
    (h : d ∈ placedProblems p ls) :
    d.span.start.offset ≤ (p.after (lexemesText ls)).offset := by
  induction ls generalizing p with
  | nil => simp [placedProblems] at h
  | cons l ls ih =>
    rw [lexemesText_cons, Position.after_append]
    rcases List.mem_append.mp h with h | h
    · obtain ⟨problem, -, rfl⟩ := List.mem_map.mp h
      have hle := (p.offset_ahead problem.first l.text).2
      rw [Position.offset_after _ (lexemesText ls)]
      exact Nat.le_trans hle (Nat.le_add_right _ _)
    · exact ih h

end FrontEnd
