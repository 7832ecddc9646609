/-
Where skipping in a block stops.

Skipping starts where a statement has failed, perhaps inside braces that the statement has opened,
and what is skipped may open and close braces as deep as it likes.  A semicolon, a brace or a
reserved word ends skipping only at the depth of the block.  Skipping never falls below this depth,
so that it stops at the first of them, and the closing brace of the block is left for the block.

* `Parser.Stops` — what is skipped, and what skipping stops at;
* `Parser.Stops.step` — one more token is skipped first;
* `Parser.skipTokensInBlock_stops` — skipping stops so;
* `Parser.skipInBlock_stops` — and no token has to be skipped besides.
-/
import FrontEnd.Proofs.Grammar.Blocks
import FrontEnd.Token.Tokenize
import Mathlib.Logic.Function.Iterate

namespace FrontEnd.Parser

variable {depth start n : Nat} {s : State}

/-- Skipping from `s` on, in a block whose statements stand inside `depth` braces, stops behind
`n` tokens.  The token with the index `start` is where the statement began.  Each of the tokens is
told by the state in which it is the next one. -/
structure Stops (depth start : Nat) (s : State) (n : Nat) : Prop where
  /-- Every step consumes a token. -/
  moves : ∀ i ≤ n, (State.advance^[i] s).index = s.index + i
  /-- Skipping ends with the input, or with no more braces open than the block stands in. -/
  level : (State.advance^[n] s).current.kind = .eof ∨ (State.advance^[n] s).depth = depth
  /-- The closing brace of the block is not skipped. -/
  brace : ∀ i < n, (State.advance^[i] s).depth = depth →
    (State.advance^[i] s).current.kind ≠ .symbol .closeCurly
  /-- Unless the input ends, a semicolon of the block was skipped last, or a closing brace or a
  reserved word for a statement or a definition is next. -/
  ending : (State.advance^[n] s).current.kind ≠ .eof →
    (∃ i, n = i + 1 ∧ (State.advance^[i] s).depth = depth ∧
      (State.advance^[i] s).current.kind = .symbol .semicolon) ∨
    (State.advance^[n] s).current.kind = .symbol .closeCurly ∨
    ((State.advance^[n] s).current.kind.startsStatement ∨
      (State.advance^[n] s).current.kind.startsDefinition) ∧
      start < (State.advance^[n] s).index
  /-- Nothing before could have ended it, behind the first token of the statement. -/
  first : ∀ i, i + 1 < n → (State.advance^[i] s).depth = depth →
    start < (State.advance^[i] s).index →
    (State.advance^[i] s).current.kind ≠ .symbol .semicolon ∧
      ¬ (State.advance^[i] s).current.kind.startsStatement ∧
      ¬ (State.advance^[i] s).current.kind.startsDefinition

namespace Stops

/-- Nothing is skipped. -/
theorem zero (hdepth : s.current.kind = .eof ∨ s.depth = depth)
    (hending : s.current.kind ≠ .eof → s.current.kind = .symbol .closeCurly ∨
      (s.current.kind.startsStatement ∨ s.current.kind.startsDefinition) ∧ start < s.index) :
    Stops depth start s 0 where
  moves i hi := by
    obtain rfl := Nat.le_zero.mp hi
    rfl
  level := hdepth
  brace i hi := absurd hi (Nat.not_lt_zero i)
  ending h := .inr (hending h)
  first i hi := absurd hi (Nat.not_lt_zero _)

/-- A semicolon of the block is skipped, and nothing else. -/
theorem semicolon (hdepth : s.depth = depth) (hsemi : s.current.kind = .symbol .semicolon) :
    Stops depth start s 1 where
  moves i hi := by
    have heof : s.current.kind ≠ .eof := by simp [hsemi]
    match i, hi with
    | 0, _ => rfl
    | 1, _ => exact index_advance heof
  level := by
    refine .inr ?_
    show s.advance.depth = _
    refine depth_advance (by simp [hsemi]) ?_
    rw [hsemi, hdepth]
    rfl
  brace i hi _ := by
    obtain rfl := Nat.lt_one_iff.mp hi
    show s.current.kind ≠ _
    simp [hsemi]
  ending _ := .inl ⟨0, rfl, hdepth, hsemi⟩
  first i hi := absurd hi (by omega)

/-- One more token is skipped first, which does not end skipping. -/
theorem step (h : Stops depth start s.advance n) (heof : s.current.kind ≠ .eof)
    (hbrace : s.depth = depth → s.current.kind ≠ .symbol .closeCurly)
    (hfirst : s.depth = depth → start < s.index → s.current.kind ≠ .symbol .semicolon ∧
      ¬ s.current.kind.startsStatement ∧ ¬ s.current.kind.startsDefinition) :
    Stops depth start s (n + 1) where
  moves i hi := by
    cases i with
    | zero => rfl
    | succ i =>
      have hlater := h.moves i (by omega)
      rw [index_advance heof] at hlater
      rw [Function.iterate_succ_apply, hlater]
      omega
  level := h.level
  brace i hi := by
    cases i with
    | zero => exact hbrace
    | succ i => exact h.brace i (by omega)
  ending hend := by
    rcases h.ending hend with ⟨i, rfl, hsemi⟩ | hnext
    · exact .inl ⟨i + 1, rfl, hsemi⟩
    · exact .inr hnext
  first i hi := by
    cases i with
    | zero => exact hfirst
    | succ i => exact h.first i (by omega)

end Stops

/-- Skipping tokens, from inside the block on, stops. -/
theorem skipTokensInBlock_stops (start : Nat) (hdepth : depth ≤ s.depth) :
    ∃ n, skipTokensInBlock depth start s = .ok () (State.advance^[n] s) ∧
      Stops depth start s n := by
  induction hlen : s.rest.length using Nat.strong_induction_on generalizing s with
  | _ k ih =>
    rw [skipTokensInBlock_run]
    by_cases heof : s.current.kind = .eof
    · rw [if_pos (.inl heof)]
      exact ⟨0, rfl, .zero (.inl heof) (absurd heof)⟩
    rw [if_neg (not_or.mpr ⟨heof, by omega⟩)]
    split
    · next hsemi => exact ⟨1, rfl, .semicolon hsemi.1 hsemi.2⟩
    · next hsemi =>
      split
      · next hstop => exact ⟨0, rfl, .zero (.inr hstop.1) fun _ => hstop.2⟩
      · next hgo =>
        have hbrace : s.depth = depth → s.current.kind ≠ .symbol .closeCurly :=
          fun h hclose => hgo ⟨h, .inl hclose⟩
        -- What closes here was opened since, so that the depth stays that of the block or more.
        obtain ⟨m, hm⟩ := Nat.exists_eq_add_of_le hdepth
        obtain ⟨m', -, hdepth'⟩ := exists_depth_advance heof hm hbrace
        have hlt := length_rest_advance heof
        obtain ⟨n, hrun, hstops⟩ := ih _ (hlen ▸ hlt) (by omega) rfl
        refine ⟨n + 1, ?_, hstops.step heof hbrace fun h hlater => ?_⟩
        · rw [guarded, if_pos hlt]
          exact hrun
        · refine ⟨fun hk => hsemi ⟨h, hk⟩, fun hk => ?_, fun hk => ?_⟩
          · exact hgo ⟨h, .inr ⟨.inl hk, hlater⟩⟩
          · exact hgo ⟨h, .inr ⟨.inr hk, hlater⟩⟩

/-- **Where skipping stops.**  A failed statement is skipped from any state inside its block, and
the token that is skipped where nothing else has been is never needed. -/
theorem skipInBlock_stops (hdepth : depth ≤ s.depth) (hstart : start ≤ s.index) :
    ∃ n, skipInBlock depth start s = .ok () (State.advance^[n] s) ∧ Stops depth start s n := by
  obtain ⟨n, hrun, hstops⟩ := skipTokensInBlock_stops start hdepth
  refine ⟨n, skipInBlock_of_moved hrun ?_, hstops⟩
  by_cases heof : (State.advance^[n] s).current.kind = .eof
  · exact .inr (.inl heof)
  · rcases hstops.ending heof with ⟨i, rfl, -⟩ | hclose | ⟨-, hlater⟩
    · have hindex := hstops.moves (i + 1) (Nat.le_refl _)
      exact .inl (by omega)
    · exact .inr (.inr hclose)
    · exact .inl hlater

/-- A block in which a statement fails behind a brace of its own. -/
def bracedText : String := "\x7b x = \x7b let ; \x7d return 1; \x7d"

/-- The state behind `let` in that text, in which two braces are open. -/
def bracedState : State := State.advance^[5] (.ofStream (tokenize bracedText).stream)

theorem skipInBlock_stops_bracedState :
    bracedState.depth = 2 ∧ 1 ≤ bracedState.index ∧
      ∃ n, skipInBlock 1 1 bracedState = .ok () (State.advance^[n] bracedState) ∧
        Stops 1 1 bracedState n := by
  have hdepth : bracedState.depth = 2 := by decide +kernel
  have hindex : 1 ≤ bracedState.index := by decide +kernel
  exact ⟨hdepth, hindex, skipInBlock_stops (by omega) hindex⟩

end FrontEnd.Parser
