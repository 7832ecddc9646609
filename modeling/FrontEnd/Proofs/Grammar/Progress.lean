/-
Every production goes forward.

Whatever the tokens are, a production that succeeds has consumed a token, one that fails has
not gone back, and none goes past the end of the input:

* `Production` — the productions of the language, most of which only read;
* `Production.progresses` — each of them goes forward;
* `blockItem_progress` — in a block a statement that fails is skipped with at least one
  token, at any number of open braces.

That skipping makes progress is not visible in the loops that skip: they stop before a word
that starts a statement, and at once if too few braces are open.  What is skipped in these
cases is the token that the statement started with (`recoverStatement_passes`).
-/
import FrontEnd.Proofs.Grammar.Definitions

namespace FrontEnd

theorem StartsWith.ne_nil {p : Span} {ts : List Token} (h : StartsWith p ts) : ts ≠ [] := by
  obtain ⟨t, us, rfl, -⟩ := h
  simp

theorem Expr.SpelledBy.ne_nil {e : Expr} {ts : List Token} (h : e.SpelledBy ts) : ts ≠ [] := by
  cases h with
  | primary h => exact h.startsWith.ne_nil
  | binary | typecast => simp

theorem MatchKey.SpelledBy.ne_nil {key : MatchKey} {ts : List Token} (h : key.SpelledBy ts) :
    ts ≠ [] := by
  cases h with
  | identifier => simp
  | constants h => cases h; simp
  | number h => exact h.startsWith.ne_nil
  | char h => cases h; simp
  | range h => cases h; simp

namespace Parser

variable {α : Type}

/-! ### Skipping makes progress -/

/-- Skipping in a block only reads. -/
theorem skipTokensInBlock_reads (depth start : Nat) (s : State) :
    ∃ ts s', skipTokensInBlock depth start s = .ok () s' ∧ Reads s ts s' := by
  induction hlen : s.rest.length using Nat.strong_induction_on generalizing s with
  | _ n ih =>
    rw [skipTokensInBlock_run]
    split
    · exact ⟨[], s, rfl, .refl s⟩
    · next hgo =>
      have heof : s.current.kind ≠ .eof := fun h => hgo (.inl h)
      have hread := reads_advance heof
      split
      · exact ⟨_, _, rfl, hread⟩
      · split
        · exact ⟨[], s, rfl, .refl s⟩
        · have hlt := length_rest_advance heof
          obtain ⟨ts, s', hrun, hread'⟩ := ih _ (hlen ▸ hlt) s.advance rfl
          refine ⟨[s.current] ++ ts, s', ?_, hread.append hread'⟩
          rw [guarded, if_pos hlt]
          exact hrun

/-- Skipping that stands still at the index `start` has come to the end of a block. -/
theorem skipInBlock_reads (depth start : Nat) (s : State) :
    ∃ ts s', skipInBlock depth start s = .ok () s' ∧ Reads s ts s' ∧
      (start ≤ s.index → start < s'.index ∨ s'.current.kind = .eof ∨
        s'.current.kind = .symbol .closeCurly) := by
  obtain ⟨ts, s₁, hrun, hread⟩ := skipTokensInBlock_reads depth start s
  have hgo : skipInBlock depth start s =
      (if s₁.index = start ∧ s₁.current.kind ≠ .eof ∧ s₁.current.kind ≠ .symbol .closeCurly then
        do let _ ← advance
      else pure () : Parser Unit) s₁ := bind_of_ok hrun
  rw [hgo]
  split
  · next hstill =>
    obtain ⟨hsame, heof, -⟩ := hstill
    refine ⟨ts ++ [s₁.current], s₁.advance, rfl, hread.append (reads_advance heof), fun _ => ?_⟩
    rw [index_advance heof]
    omega
  · next hmoved =>
    refine ⟨ts, s₁, rfl, hread, fun hstart => ?_⟩
    have hindex := hread.toPasses.index_eq
    by_cases hsame : s₁.index = start
    · right
      by_contra hneither
      rw [not_or] at hneither
      exact hmoved ⟨hsame, hneither.1, hneither.2⟩
    · left
      omega

/-- What becomes of a failed statement: a stretch from where it started up to where skipping
ends.  Once the failure has been recorded, skipping only reads. -/
theorem recoverStatement_reads (d : Diagnostic) (depth start : Nat) (p : Position) (s : State) :
    ∃ ts s', recoverStatement d depth start p s = .ok (.error (s'.spanFrom p)) s' ∧
      Reads { s with diagnostics := s.diagnostics.push d } ts s' ∧
      (start ≤ s.index → start < s'.index ∨ s'.current.kind = .eof ∨
        s'.current.kind = .symbol .closeCurly) := by
  rw [recoverStatement_run]
  split
  · next hsemi => exact ⟨[], _, rfl, .refl _, fun _ => .inl hsemi.2.1⟩
  · obtain ⟨ts, s', hrun, hread, hwhere⟩ :=
      skipInBlock_reads depth start { s with diagnostics := s.diagnostics.push d }
    exact ⟨ts, s', bind_of_ok hrun, hread, hwhere⟩

theorem recoverStatement_total (d : Diagnostic) (depth start : Nat) (p : Position) (s : State) :
    ∃ ts s', recoverStatement d depth start p s = .ok (.error (s'.spanFrom p)) s' ∧
      Passes s ts s' ∧ (start ≤ s.index → start < s'.index ∨ s'.current.kind = .eof ∨
        s'.current.kind = .symbol .closeCurly) := by
  have hnoted : Passes s [] { s with diagnostics := s.diagnostics.push d } :=
    (Passes.refl s).aside
  obtain ⟨ts, s', hrun, hread, hwhere⟩ := recoverStatement_reads d depth start p s
  exact ⟨ts, s', hrun, hnoted.append hread.toPasses, hwhere⟩

/-- A failed statement is skipped with at least one token, whatever the number of open
braces, since it does not start where a block ends. -/
theorem recoverStatement_passes {s₀ s : State} {ts : List Token} (h : Passes s₀ ts s)
    (heof : s₀.current.kind ≠ .eof) (hclose : s₀.current.kind ≠ .symbol .closeCurly)
    (d : Diagnostic) (depth : Nat) :
    ∃ us s', recoverStatement d depth s₀.index s₀.position s =
        .ok (.error (s'.spanFrom s₀.position)) s' ∧ Passes s₀ us s' ∧ us ≠ [] := by
  obtain ⟨us, s', hrun, hpass, hwhere⟩ := recoverStatement_total d depth s₀.index s₀.position s
  have hall := h.append hpass
  refine ⟨ts ++ us, s', hrun, hall, fun hnil => ?_⟩
  rw [hnil] at hall
  have hindex := hall.index_eq
  have hcurrent := hall.current_mem
  rw [List.nil_append, List.mem_singleton] at hcurrent
  rw [← hcurrent] at hwhere
  rcases hwhere (by rw [h.index_eq]; omega) with hlt | h' | h'
  · simp at hindex
    omega
  · exact heof h'
  · exact hclose h'

/-! ### Productions go forward -/

/-- Run on `s`, the parser goes forward over tokens none of which is the end of the input,
and over at least one if it succeeds. -/
def Progresses (s : State) (p : Parser α) : Prop :=
  match p s with
  | .ok _ s' => s.index < s'.index ∧ ∃ ts, Passes s ts s'
  | .error _ s' => s.index ≤ s'.index ∧ ∃ ts, Passes s ts s'

theorem Passes.commented {s s' : State} {ts : List Token} (h : Passes s ts s') :
    Passes s ts s'.commented := h.aside

theorem Passes.index_lt {s s' : State} {ts : List Token} (h : Passes s ts s') (hne : ts ≠ []) :
    s.index < s'.index := by
  have hpos := List.length_pos_iff.mpr hne
  rw [h.index_eq]
  omega

theorem Works.progresses {s : State} {p : Parser α} {A : α → List Token → Prop}
    (h : Works true s p A) : Progresses s p := by
  unfold Progresses
  cases hrun : p s with
  | ok a s' =>
    obtain ⟨ts, hcross, hne, -⟩ := h.of_ok hrun
    exact ⟨hcross.toPasses.index_lt (hne rfl), ts, hcross.toPasses⟩
  | error d s' =>
    obtain ⟨ts, n, hcross, -⟩ := h.of_error hrun
    have hindex := hcross.toPasses.index_eq
    exact ⟨by omega, ts, hcross.toPasses⟩

theorem meets_binary (left : Expr) (power : BindingPower) {s : State} :
    Meets [] s (binary Grammar.standard left power) fun _ ts => ts ≠ [] := by
  refine meets_kind ?_
  split
  · exact meets_unexpected _ _
  · next op hop =>
    have hkind := BinaryOperator.ofKind?_eq_some_iff.mp hop
    refine (meets_advance (by rw [hkind]; cases op <;> decide)).bind ?_
    rintro t _ s₁ - ⟨rfl, -⟩
    exact (meets_goal _).bind fun _ _ _ _ _ => meets_pure (by simp)

theorem meets_typecast (left : Expr) {s : State} :
    Meets [] s (typecastOf Grammar.standard left) fun _ ts => ts ≠ [] := by
  refine (meets_expect (by decide)).bind ?_
  rintro word _ s₁ - ⟨rfl, -⟩
  exact meets_castTarget.bind fun _ _ _ _ _ => meets_spanFrom (meets_pure (by simp))

/-- The productions that only read: those for types, expressions and statements without
blocks, and the parts of definitions. -/
inductive ReadingProduction : {α : Type} → Parser α → Prop
  | identifier (production : String) : ReadingProduction (identifier production)
  | number (production : String) : ReadingProduction (number production)
  | type : ReadingProduction (typeExpr Grammar.standard)
  | generic : ReadingProduction (genericClause Grammar.standard)
  | namedType : ReadingProduction (namedTypeOf (typeExpr Grammar.standard))
  | pointer : ReadingProduction (pointerTypeOf (typeExpr Grammar.standard))
  | reference : ReadingProduction (referenceTypeOf (typeExpr Grammar.standard))
  | doubleReference : ReadingProduction (doubleReferenceTypeOf (typeExpr Grammar.standard))
  | array : ReadingProduction (arrayTypeOf (typeExpr Grammar.standard))
  | string : ReadingProduction stringLiteral
  | char : ReadingProduction charLiteral
  | primary : ReadingProduction (primary Grammar.standard)
  | expression (power : BindingPower) : ReadingProduction (expression Grammar.standard power)
  | arguments : ReadingProduction (argumentsOf (goal Grammar.standard))
  | call (hasGeneric : Bool) :
    ReadingProduction (callOf Grammar.standard (goal Grammar.standard) hasGeneric)
  | fieldAccess : ReadingProduction (fieldAccess Grammar.standard)
  | arrayAccess : ReadingProduction (arrayAccess Grammar.standard)
  | binary (left : Expr) (power : BindingPower) :
    ReadingProduction (binary Grammar.standard left power)
  | typecast (left : Expr) : ReadingProduction (typecastOf Grammar.standard left)
  | matching : ReadingProduction (matchExpr Grammar.standard)
  | matchArm : ReadingProduction (matchArmOf (goal Grammar.standard))
  | matchKey : ReadingProduction (matchKeyOf (goal Grammar.standard))
  | constants : ReadingProduction constantList
  | range : ReadingProduction (range Grammar.standard)
  | fieldInit : ReadingProduction (fieldInit Grammar.standard)
  | structInit : ReadingProduction (structInit Grammar.standard)
  | initializer : ReadingProduction (initializer Grammar.standard)
  | returnStmt : ReadingProduction (returnStmt Grammar.standard)
  | declarationStmt : ReadingProduction (declarationStmt Grammar.standard)
  | namedStmt : ReadingProduction (namedStmt Grammar.standard)
  | matchStmt : ReadingProduction (matchStmt Grammar.standard)
  | breakStmt : ReadingProduction breakStmt
  | continueStmt : ReadingProduction continueStmt
  | iterable : ReadingProduction (iterable Grammar.standard)
  | parameter : ReadingProduction (parameter Grammar.standard)
  | parameters : ReadingProduction (parameterList Grammar.standard)
  | use : ReadingProduction useStatement
  | external : ReadingProduction (externalFunction Grammar.standard)

/-- The productions of the language. -/
inductive Production : {α : Type} → Parser α → Prop
  | reading {α : Type} {p : Parser α} (h : ReadingProduction p) : Production p
  | ifStmt : Production (ifStmt Grammar.standard)
  | whileStmt : Production (whileStmt Grammar.standard)
  | forStmt : Production (forStmt Grammar.standard)
  | statement : Production (statement Grammar.standard)
  | block : Production (block Grammar.standard)
  | function : Production (function Grammar.standard)
  | struct : Production (structDef Grammar.standard)
  | definition : Production (definition Grammar.standard)

/-- A production that only reads reads at least one token if it succeeds. -/
theorem ReadingProduction.meets {p : Parser α} (h : ReadingProduction p) (s : State) :
    Meets [] s p fun _ ts => ts ≠ [] := by
  have hgoal : ∀ goal seen s, Meets seen s (Parser.goal Grammar.standard goal) goal.SpelledBy :=
    fun goal _ _ => meets_goal goal
  have htype : ∀ seen s, Meets seen s (typeExpr Grammar.standard) TypeExpr.SpelledBy :=
    fun _ _ => meets_typeExpr
  cases h with
  | identifier => exact meets_identifier.mono fun _ _ h => by cases h; simp
  | number => exact meets_number.mono fun _ _ h => h.startsWith.ne_nil
  | type => exact meets_typeExpr.mono fun _ _ h => h.startsWith.ne_nil
  | generic => exact meets_genericClause.mono fun _ _ h => by cases h; simp
  | namedType => exact (meets_namedTypeOf htype).mono fun _ _ h => h.startsWith.ne_nil
  | pointer => exact (meets_pointerTypeOf htype).mono fun _ _ h => h.startsWith.ne_nil
  | reference => exact (meets_referenceTypeOf htype).mono fun _ _ h => h.startsWith.ne_nil
  | doubleReference =>
    exact (meets_doubleReferenceTypeOf htype).mono fun _ _ h => h.startsWith.ne_nil
  | array => exact (meets_arrayTypeOf htype).mono fun _ _ h => h.startsWith.ne_nil
  | string => exact meets_stringLiteral.mono fun _ _ h => by cases h; simp
  | char => exact meets_charLiteral.mono fun _ _ h => by cases h; simp
  | primary => exact meets_primary.mono fun _ _ h => h.startsWith.ne_nil
  | expression => exact meets_expression.mono fun _ _ h => h.ne_nil
  | arguments =>
    refine (meets_argumentsOf hgoal).mono ?_
    rintro _ _ ⟨o, us, c, rfl, -⟩
    simp
  | call => exact (meets_callOf hgoal).mono fun _ _ h => by cases h; simp
  | fieldAccess => exact (meets_fieldAccessOf hgoal).mono fun _ _ h => h.startsWith.ne_nil
  | arrayAccess => exact (meets_arrayAccessOf hgoal).mono fun _ _ h => h.startsWith.ne_nil
  | binary left power => exact meets_binary left power
  | typecast left => exact meets_typecast left
  | matching => exact meets_matchExpr.mono fun _ _ h => by cases h; simp
  | matchArm => exact (meets_matchArmOf hgoal).mono fun _ _ h => by cases h; simp
  | matchKey => exact (meets_matchKeyOf hgoal).mono fun _ _ h => h.ne_nil
  | constants => exact meets_constantList.mono fun _ _ h => by cases h; simp
  | range => exact meets_range.mono fun _ _ h => by cases h; simp
  | fieldInit => exact meets_fieldInit.mono fun _ _ h => by cases h; simp
  | structInit => exact meets_structInit.mono fun _ _ h => by cases h; simp
  | initializer =>
    refine meets_initializer.mono fun _ _ h => ?_
    cases h with
    | structInit h => cases h; simp
    | expression h => exact h.ne_nil
  | returnStmt => exact meets_returnStmt.mono fun _ _ h => h.ne_nil
  | declarationStmt => exact meets_declarationStmt.mono fun _ _ h => h.ne_nil
  | namedStmt => exact meets_namedStmt.mono fun _ _ h => h.ne_nil
  | matchStmt => exact meets_matchStmt.mono fun _ _ h => h.ne_nil
  | breakStmt => exact meets_breakStmt.mono fun _ _ h => h.ne_nil
  | continueStmt => exact meets_continueStmt.mono fun _ _ h => h.ne_nil
  | iterable =>
    refine meets_iterable.mono fun _ _ h => ?_
    cases h with
    | identifier => simp
    | range h => cases h; simp
  | parameter => exact meets_parameter.mono fun _ _ h => by cases h; simp
  | parameters => exact meets_parameterList.mono fun _ _ h => by cases h; simp
  | use => exact meets_useStatement.mono fun _ _ h => by cases h; simp
  | external => exact meets_externalFunction.mono fun _ _ h => by cases h; simp

theorem ReadingProduction.works {p : Parser α} (h : ReadingProduction p) (s : State) :
    Works true s p fun _ ts => ts ≠ [] := (h.meets s).works_of_ne_nil fun _ _ hne => hne

theorem Production.works {p : Parser α} (h : Production p) (s : State) :
    ∃ A : α → List Token → Prop, Works true s p A := by
  cases h with
  | reading h => exact ⟨_, h.works s⟩
  | ifStmt => exact ⟨_, works_ifStmtOf works_block s⟩
  | whileStmt => exact ⟨_, works_whileStmtOf works_block s⟩
  | forStmt => exact ⟨_, works_forStmtOf works_block s⟩
  | statement => exact ⟨_, works_statementOf works_block s⟩
  | block => exact ⟨_, works_block s⟩
  | function => exact ⟨_, works_function⟩
  | struct => exact ⟨_, works_structDef⟩
  | definition => exact ⟨_, works_definition⟩

theorem Production.progresses {p : Parser α} (h : Production p) (s : State) :
    Progresses s p := by
  obtain ⟨A, hworks⟩ := h.works s
  exact hworks.progresses

/-- In a block something is read or skipped, and at least one token goes, whatever the
number of open braces that the block is said to stand in. -/
theorem blockItem_progress (depth : Nat) {s : State} (hin : inBlock s.current.kind) :
    ∃ items s' ts, blockItemOf Grammar.standard (block Grammar.standard) depth s = .ok items s' ∧
      Passes s ts s' ∧ ts ≠ [] := by
  obtain ⟨hclose, hends⟩ := inBlock_iff.mp hin
  have heof : s.current.kind ≠ .eof := by
    intro h
    simp [h, Kind.endsBlocks] at hends
  have hstmt := works_statementOf works_block s
  cases hrun : statementOf Grammar.standard (block Grammar.standard) s with
  | ok stmt s₁ =>
    obtain ⟨ts, hcross, hne, -⟩ := hstmt.of_ok hrun
    exact ⟨_, _, ts, (blockItemOf_of_ok hrun).trans (withComments_run stmt s₁),
      hcross.commented.toPasses, hne rfl⟩
  | error d s₁ =>
    obtain ⟨ts, n, hcross, -⟩ := hstmt.of_error hrun
    obtain ⟨us, s₂, hrecover, hpass, hne⟩ :=
      recoverStatement_passes hcross.toPasses heof hclose d depth
    have hitem := (blockItemOf_of_error hrun).trans
      ((bind_of_ok hrecover).trans (withComments_run _ s₂))
    exact ⟨_, _, us, hitem, hpass.commented, hne⟩

end Parser

end FrontEnd
