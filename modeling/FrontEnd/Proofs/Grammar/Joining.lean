/-
A text behind a line.

Behind the last token of a line reading goes on with the text that follows it.  Comments are
handed out across the line feed, so that the last ones of the line come together with the
first ones of the text; as soon as they have been handed out, the rest is read as the text is
read on its own.

* `shifted_behind` — the state behind the line is the start of the text behind a front;
* `FileFrom` — what is read from a state on, and `fileFrom_behind` — from behind the line on it
  is the last comments of the line, and what the text gives on its own.
-/
import FrontEnd.Proofs.Grammar.ShiftedFiles
import FrontEnd.Proofs.Parser.InPlace

namespace FrontEnd

/-- The tokens of a text stand one after the other. -/
theorem tokensAt_startOf (b : String) :
    TokensAt 0 (startOf b).rest (byteLength b.toList) := by
  have hproper : ∀ l ∈ lexemes b.toList, l.text ≠ [] := fun l hl => (lexeme_proper hl).1
  have htokens := tokensAt_placedTokens (p := Position.start) hproper
  rw [lexemesText_lexemes, Position.offset_after] at htokens
  show TokensAt 0 (placedTokens Position.start (lexemes b.toList)) _
  rwa [show Position.start.offset = 0 from rfl, Nat.zero_add] at htokens

section

variable (a b : String)

theorem toList_append_line : (a ++ "\n" ++ b).toList = a.toList ++ '\n' :: b.toList := by
  have hline : "\n".toList = ['\n'] := rfl
  rw [String.toList_append, String.toList_append, hline, List.append_assoc, List.singleton_append]

theorem toList_line : (a ++ "\n").toList = a.toList ++ ['\n'] := by
  have hline : "\n".toList = ['\n'] := rfl
  rw [String.toList_append, hline]

/-- The tokens of two texts with a line feed between them. -/
theorem rest_startOf_append_line :
    (startOf (a ++ "\n" ++ b)).rest = (startOf a).rest ++
      (startOf b).rest.map (·.relocate (Position.shift (.over (a.toList ++ ['\n'])))) := by
  show placedTokens Position.start (lexemes (a ++ "\n" ++ b).toList) = _
  rw [toList_append_line, placedTokens_behind]
  rfl

theorem eof_startOf_append_line :
    (startOf (a ++ "\n" ++ b)).eof =
      (startOf b).eof.relocate (Position.shift (.over (a.toList ++ ['\n']))) := by
  have hlast : Position.start.after (a ++ "\n" ++ b).toList =
      (Position.start.after b.toList).shift (.over (a.toList ++ ['\n'])) := by
    rw [toList_append_line, Position.shift_after, ← Position.start_after_lines,
      ← Position.after_append, List.append_assoc, List.singleton_append]
  show Token.eofAt _ = _
  rw [hlast]
  rfl

end

namespace Parser

/-- A state behind all tokens of a line, and in front of those of a text, is the start of the
text behind a front, as soon as comments have been handed out.  These are the comments of the
line that are left, and the first ones of the text. -/
theorem shifted_behind {a : List Char} {b : String} {t : State}
    (hrest : t.rest = (startOf b).rest.map (·.relocate (Position.shift (.over (a ++ ['\n'])))))
    (heof : t.eof = (startOf b).eof.relocate (Position.shift (.over (a ++ ['\n']))))
    (htrivia : t.trivia = placedTrivia Position.start (lexemes (a ++ '\n' :: b.toList)))
    (hdepth : t.depth = 0) (hfrom : t.commentsFrom ≤ byteLength a) :
    ∃ φ : Front, φ.shift = .over (a ++ ['\n']) ∧ φ.recorded = t.diagnostics.reported ∧
      t.comments =
        (Trivia.between t.commentsFrom (byteLength a)
          (placedTrivia Position.start (lexemes a))).filterMap Comment.ofTrivia? ++
        (startOf b).comments.map (·.relocate φ.move) ∧
      Shifted φ (startOf b).commented t.commented := by
  have hbytes := bytes_over_line a
  have hposition : t.position = (startOf b).position.shift (.over (a ++ ['\n'])) := by
    rw [State.position, State.current, State.peek, hrest, heof, State.position, State.current,
      State.peek]
    cases (startOf b).rest <;> rfl
  have hstart : (startOf b).commentsFrom = 0 := rfl
  refine ⟨⟨.over (a ++ ['\n']), t.consumed, t.diagnostics.reported⟩, rfl, rfl, ?_, ?_⟩
  · rw [State.comments, hposition, htrivia, Position.offset_shift]
    exact comments_across a b.toList hfrom _
  · have hcommented := (startOf b).commentsFrom_commented
    rw [hstart, Nat.max_eq_right (Nat.zero_le _)] at hcommented
    refine ⟨hrest, rfl, hdepth, ?_, ?_, heof, fun first last => ?_, (List.append_nil _).symm⟩
    · -- On both sides comments have been handed out up to the first token of the text.
      rw [hcommented, State.commentsFrom_commented, hposition, Position.offset_shift]
      exact Nat.max_eq_right (by omega)
    · rw [hcommented]
      show ∃ last, TokensAt _ (startOf b).rest last
      have htokens := tokensAt_startOf b
      cases hfirst : (startOf b).rest with
      | nil => exact ⟨_, Nat.le_refl _⟩
      | cons x xs =>
        rw [hfirst] at htokens
        have hposition : (startOf b).position = x.span.start :=
          congrArg (·.span.start) (current_of_rest hfirst)
        exact ⟨_, Nat.le_of_eq (congrArg (·.offset) hposition), htokens.2⟩
    · show (Trivia.between (first + (Shift.over (a ++ ['\n'])).bytes) _ t.trivia).filterMap _ = _
      rw [htrivia]
      exact comments_behind a b.toList (by omega) (fun n => by omega) last

/-- Behind tokens that end before an offset, comments have not been handed out beyond it. -/
theorem commentsFrom_le {t : State} {last : Nat}
    (hconsumed : ∀ x ∈ t.consumed, x.span.stop.offset ≤ last) (htaken : t.commentsTaken ≤ last) :
    t.commentsFrom ≤ last := by
  rw [commentsFrom_eq, State.reached]
  refine Nat.max_le.mpr ⟨?_, htaken⟩
  split
  · exact Nat.zero_le _
  · next x before hbefore => exact hconsumed x (by simp [hbefore])

/-! ### What is left of a file -/

/-- From the first state on, the comments before its next token first, the definitions are
read, and the second state is reached. -/
def FileFrom (s : State) (definitions : List Definition) (s' : State) : Prop :=
  ∃ items, manyWhile (· ≠ .eof) (fileItem Grammar.standard) s.commented = .ok items s' ∧
    definitions = s.comments.map Definition.comment ++ items.flatten

theorem FileFrom.run {s s' : State} {definitions : List Definition}
    (h : FileFrom s definitions s') :
    sourceFile Grammar.standard s =
      .ok ⟨definitions, ⟨Position.start, s'.current.span.stop⟩⟩ s' := by
  obtain ⟨items, hitems, rfl⟩ := h
  exact sourceFile_run hitems

/-- An item with the comments behind it, and what is left of the file. -/
theorem FileFrom.cons {s u s' : State} {item : Definition} {definitions : List Definition}
    (heof : s.current.kind ≠ .eof)
    (hitem : fileItem Grammar.standard s.commented = withFileComments item u)
    (h : FileFrom u definitions s') :
    FileFrom s (s.comments.map Definition.comment ++ item :: definitions) s' := by
  obtain ⟨items, hitems, rfl⟩ := h
  rw [withFileComments_run] at hitem
  exact ⟨_, manyWhile_cons (decide_eq_true heof) hitem (length_rest_fileItem heof hitem) hitems,
    by simp⟩

/-- Behind all tokens of a line the last comments of the line are left, and then what the text
behind the line gives on its own. -/
theorem fileFrom_behind {a : List Char} {b : String} {t : State}
    (hrest : t.rest = (startOf b).rest.map (·.relocate (Position.shift (.over (a ++ ['\n'])))))
    (heof : t.eof = (startOf b).eof.relocate (Position.shift (.over (a ++ ['\n']))))
    (htrivia : t.trivia = placedTrivia Position.start (lexemes (a ++ '\n' :: b.toList)))
    (hdepth : t.depth = 0) (hfrom : t.commentsFrom ≤ byteLength a) :
    ∃ (file : SourceFile) (s s' : State),
      sourceFile Grammar.standard (startOf b) = .ok file s ∧
      FileFrom t
        (((Trivia.between t.commentsFrom (byteLength a)
            (placedTrivia Position.start (lexemes a))).filterMap Comment.ofTrivia?).map .comment ++
          file.definitions.map (·.relocate (Position.shift (.over (a ++ ['\n']))))) s' ∧
      s'.diagnostics.reported = t.diagnostics.reported ++
        s.diagnostics.reported.map (·.relocate (Position.shift (.over (a ++ ['\n'])))) := by
  obtain ⟨φ, hshift, hrecorded, hcomments, hshifted⟩ :=
    shifted_behind hrest heof htrivia hdepth hfrom
  obtain ⟨items, s, s', hitems, hitems', hend⟩ := shifted_fileItems hshifted
  have hdiagnostics := hend.diagnostics
  rw [Front.move, hshift] at hcomments hitems' hdiagnostics
  rw [hrecorded] at hdiagnostics
  refine ⟨_, s, s', sourceFile_run hitems, ⟨_, hitems', ?_⟩, hdiagnostics⟩
  rw [hcomments]
  simp [List.map_flatten, Definition.relocate]

end Parser

end FrontEnd
