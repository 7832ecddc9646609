/-
Expressions and types are read, and nothing else happens.

Statements and definitions take comments, record what is wrong with them and go on behind it.
What they are made of does none of this: an expression, a first value, a match, a range, a type
or a generic clause moves along the tokens and counts braces, whether it is read to its end or
given up.  So an attempt that is given up can be taken back without a trace, and the failure that
it ends with is reported once, by the statement that it stands in.

* `State.Untouched` — all of the state but the place reached and the open braces is as it was,
  unless reading breaks off, which leaves no state that anything could be done with;
* `State.passed` — the tokens from where a run began up to the one where it stopped;
* `ReadsOnly` — a parser that leaves the rest of the state untouched, and fails about what it has
  passed;
* `reads_only` — this holds for each of these productions, from every state.
-/
import FrontEnd.Proofs.Grammar.Expressions
import FrontEnd.Proofs.Source.Safety

namespace FrontEnd.Parser

namespace State

/-- Tokens, trivia, diagnostics and the comments handed out are the same in both states.  What
breaks off is not compared: behind it there is no state to go on from. -/
structure Untouched (s s' : State) : Prop where
  tokens : s'.tokens = s.tokens
  trivia : s'.trivia = s.trivia
  diagnostics : s'.diagnostics = s.diagnostics
  commentsTaken : s'.commentsTaken = s.commentsTaken

/-- The tokens from the one at which the first state stands up to the one at which the second
does, this one included. -/
def passed (s s' : State) : List Token :=
  (s.tokens.drop s.index).take (s'.index - s.index + 1)

end State

/-- From every state, the parser leaves all but the place reached and the open braces untouched,
and does not go back; if it fails, it does so about a token that it has passed or stops at, or
about a type or a primary expression made of such tokens. -/
def ReadsOnly {α : Type} (p : Parser α) : Prop :=
  ∀ s, (∀ a s', p s = .ok a s' → s.Untouched s' ∧ s.index ≤ s'.index) ∧
    ∀ d s', p s = .error d s' →
      s.Untouched s' ∧ s.index ≤ s'.index ∧ Names (s.passed s') d.span

theorem Reads.untouched {s s' : State} {ts : List Token} (h : Reads s ts s') :
    s.Untouched s' where
  tokens := State.tokens_of_passes h.toPasses
  trivia := h.trivia
  diagnostics := h.diagnostics
  commentsTaken := h.commentsTaken

/-- The tokens between two states and the next one are cut out of all tokens by the two
indices. -/
theorem Passes.passed_eq {s s' : State} {ts : List Token} (h : Passes s ts s') :
    s.passed s' = ts ++ [s'.current] := by
  have hdrop : s.tokens.drop s.index = ts ++ (s'.rest ++ [s'.eof]) := by
    rw [State.tokens, State.index, ← List.length_reverse, List.drop_left, h.rest, h.eof,
      List.append_assoc]
  have hnext : (s'.rest ++ [s'.eof]).take 1 = [s'.current] := by
    rw [State.current, State.peek]
    cases s'.rest <;> rfl
  rw [State.passed, hdrop, h.index_eq, Nat.add_sub_cancel_left, List.take_length_add_append, hnext]

/-- What is read without a trace leaves everything else as it was. -/
theorem readsOnly_of_meets {α : Type} {p : Parser α} {V : α → List Token → Prop}
    (h : ∀ s, Meets [] s p V) : ReadsOnly p := by
  intro s
  refine ⟨fun a s' hrun => ?_, fun d s' hrun => ?_⟩
  · obtain ⟨ts, hread, -, -⟩ := (h s).of_ok hrun
    exact ⟨hread.untouched, by rw [hread.index_eq]; exact Nat.le_add_right _ _⟩
  · obtain ⟨ts, hread, -, hlocated⟩ := (h s).of_error hrun
    refine ⟨hread.untouched, by rw [hread.index_eq]; exact Nat.le_add_right _ _, ?_⟩
    rw [hread.passed_eq]
    exact hlocated.2.2

/-- **Expressions and types are only read.**  Reading an expression of any strength, a primary
expression, a first value, a match, a range, a type or a generic clause leaves the tokens, the
trivia, the diagnostics and the comments handed out as they are, also when it fails; and it fails
about something made of the tokens from where it began up to where it stopped. -/
theorem reads_only :
    (∀ power, ReadsOnly (expression Grammar.standard power)) ∧
    ReadsOnly (primary Grammar.standard) ∧ ReadsOnly (initializer Grammar.standard) ∧
    ReadsOnly (matchExpr Grammar.standard) ∧ ReadsOnly (range Grammar.standard) ∧
    ReadsOnly (typeExpr Grammar.standard) ∧ ReadsOnly (genericClause Grammar.standard) := by
  refine ⟨fun power => ?_, ?_, ?_, ?_, ?_, ?_, ?_⟩
  · exact readsOnly_of_meets fun _ => meets_expression
  · exact readsOnly_of_meets fun _ => meets_primary
  · exact readsOnly_of_meets fun _ => meets_initializer
  · exact readsOnly_of_meets fun _ => meets_matchExpr
  · exact readsOnly_of_meets fun _ => meets_range
  · exact readsOnly_of_meets fun _ => meets_typeExpr
  · exact readsOnly_of_meets fun _ => meets_genericClause

/-- A call whose second argument lacks an operand. -/
def openCall : State := State.ofStream (tokenize "f(a, 1 + ;").stream

theorem reads_only_openCall :
    ∃ d s', primary Grammar.standard openCall = .error d s' ∧ s'.index = 6 ∧
      s'.diagnostics.reported = [] ∧ Names (openCall.passed s') d.span := by
  have hindex : (match primary Grammar.standard openCall with
    | .ok _ _ => none
    | .error _ s' => some s'.index) = some 6 := by decide +kernel
  cases hrun : primary Grammar.standard openCall with
  | ok e s' => simp [hrun] at hindex
  | error d s' =>
    rw [hrun] at hindex
    obtain ⟨-, hprimary, -⟩ := reads_only
    obtain ⟨huntouched, -, hnames⟩ := (hprimary openCall).2 d s' hrun
    refine ⟨d, s', rfl, Option.some.inj hindex, ?_, hnames⟩
    rw [huntouched.diagnostics]
    decide +kernel

end FrontEnd.Parser
