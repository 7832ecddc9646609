/-
What a parser fails with.

A block that does not close is recorded and kept: of all that can be wrong, this alone spoils no
statement and no definition.  So no parser fails with it, and a failure that ends in a skipped
stretch is always about something else.

* `Cause.isOpenBlock` — a block lacks its closing brace;
* `Spares` — no failure of a parser is about that;
* `spares_statementOf`, `spares_definition` — nor is one of a statement or a definition.

The closing brace of a block is asked for in one place, and the failure is caught there.  All
else that can be missing has another name, so the lemmas of the grammar follow its productions
without a look at what they read.
-/
import FrontEnd.Definition.Parser
import FrontEnd.Proofs.Parser.Reading

namespace FrontEnd

/-- A block lacks its closing brace. -/
def Cause.isOpenBlock : Cause → Bool
  | .missing production expected _ => production == "block" && expected == .symbol .closeCurly
  | _ => false

namespace Parser

variable {α β : Type}

/-- No failure of the parser is about a block that does not close. -/
def Spares (p : Parser α) : Prop :=
  ∀ s d s', p s = .error d s' → d.cause.isOpenBlock = false

section

variable {p : Parser α} {f : α → Parser β}

theorem Spares.bind (hp : Spares p) (hf : ∀ a, Spares (f a)) : Spares (p >>= f) := by
  intro s d s' hrun
  cases hfirst : p s with
  | ok a s₁ => exact hf a s₁ d s' ((bind_of_ok hfirst).symm.trans hrun)
  | error e s₁ =>
    have hfail := (bind_of_error (f := f) hfirst).symm.trans hrun
    obtain ⟨rfl, rfl⟩ := EStateM.Result.error.inj hfail
    exact hp s _ _ hfirst

/-- A parser that always succeeds. -/
theorem spares_of_ok (h : ∀ s, ∃ a s', p s = .ok a s') : Spares p := by
  intro s d s' hrun
  obtain ⟨a, s₁, hok⟩ := h s
  exact nomatch hok.symm.trans hrun

theorem spares_pure (a : α) : Spares (pure a : Parser α) := spares_of_ok fun s => ⟨a, s, rfl⟩

theorem spares_throw {d : Diagnostic} (hd : d.cause.isOpenBlock = false) :
    Spares (throw d : Parser α) := by
  intro s e s' hrun
  obtain ⟨rfl, -⟩ := EStateM.Result.error.inj hrun
  exact hd

theorem spares_unexpected (production : String) (expected : List Kind) :
    Spares (unexpected production expected : Parser α) := by
  intro s d s' hrun
  obtain ⟨rfl, -⟩ := EStateM.Result.error.inj hrun
  rfl

theorem Spares.ite {c : Prop} [Decidable c] {q : Parser α} (hp : Spares p) (hq : Spares q) :
    Spares (if c then p else q) := by
  split
  · exact hp
  · exact hq

theorem spares_kind : Spares kind := spares_of_ok fun s => ⟨_, s, rfl⟩

theorem spares_peekKind (n : Nat) : Spares (peekKind n) := spares_of_ok fun s => ⟨_, s, rfl⟩

theorem spares_position : Spares position := spares_of_ok fun s => ⟨_, s, rfl⟩

theorem spares_spanFrom (start : Position) : Spares (spanFrom start) :=
  spares_of_ok fun s => ⟨_, s, rfl⟩

theorem spares_advance : Spares advance := spares_of_ok fun _ => ⟨_, _, rfl⟩

theorem spares_takeComments : Spares takeComments :=
  spares_of_ok fun s => ⟨_, _, takeComments_run s⟩

theorem spares_get : Spares (get : Parser State) := spares_of_ok fun s => ⟨s, s, rfl⟩

theorem spares_modify (f : State → State) : Spares (modify f : Parser Unit) :=
  spares_of_ok fun s => ⟨(), f s, rfl⟩

theorem spares_attempt (p : Parser α) : Spares (attempt p) := by
  refine spares_of_ok fun s => ?_
  unfold attempt
  split
  · exact ⟨_, _, rfl⟩
  · exact ⟨_, _, rfl⟩

theorem spares_speculate (p : Parser α) : Spares (speculate p) := by
  refine spares_of_ok fun s => ?_
  rw [speculate_run]
  split
  · exact ⟨_, _, rfl⟩
  · exact ⟨_, _, rfl⟩

/-- Only the closing brace of a block is asked for as such. -/
theorem spares_expect {expected : Kind} {production : String}
    (h : expected ≠ .symbol .closeCurly ∨ production ≠ "block") :
    Spares (expect expected production) := by
  intro s d s' hrun
  rw [expect_run] at hrun
  split at hrun
  · exact nomatch hrun
  · obtain ⟨rfl, -⟩ := EStateM.Result.error.inj hrun
    unfold State.notFound
    split <;> simp_all [State.notFound.missing, State.unexpected, Cause.isOpenBlock]

theorem spares_skip? (wanted : Kind) : Spares (skip? wanted) := by
  refine spares_kind.bind fun k => ?_
  split
  · exact spares_advance.bind fun _ => spares_pure _
  · exact spares_pure _

theorem Spares.map {g : α → β} (hp : Spares p) : Spares (g <$> p) := by
  intro s d s' hrun
  rw [map_run] at hrun
  exact hp.bind (fun _ => spares_pure _) s d s' hrun

/-- A recursive call does what it does, or it is made without progress. -/
theorem spares_guarded {n : Nat}
    (h : ∀ s d s', s.rest.length < n → p s = .error d s' → d.cause.isOpenBlock = false) :
    Spares (guarded n p) := by
  intro s d s' hrun
  unfold guarded at hrun
  split at hrun
  · next hlt => exact h s d s' hlt hrun
  · obtain ⟨rfl, -⟩ := EStateM.Result.error.inj hrun
    rfl

end

theorem spares_fix {body : (α → Parser β) → α → Parser β}
    (hbody : ∀ self, (∀ b, Spares (self b)) → ∀ a, Spares (body self a)) (a : α) :
    Spares (fix body a) := by
  intro s
  induction hn : s.rest.length using Nat.strong_induction_on generalizing a s with
  | _ n ih =>
    intro d s' hrun
    rw [fix_run] at hrun
    refine hbody _ (fun b => spares_guarded fun s₁ d₁ s₂ hlt hfail => ?_) a s d s' hrun
    exact ih _ (hn ▸ hlt) b s₁ rfl d₁ s₂ hfail

theorem spares_nest {body : Parser β → Parser β}
    (hbody : ∀ self, Spares self → Spares (body self)) : Spares (nest body) :=
  spares_fix (fun self hself _ => hbody (self ()) (hself ())) ()

theorem spares_manyWhile {wanted : Kind → Bool} {item : Parser α} (hitem : Spares item) :
    Spares (manyWhile wanted item) := by
  refine spares_nest fun more hmore => spares_kind.bind fun k => ?_
  split
  · exact hitem.bind fun _ => hmore.bind fun _ => spares_pure _
  · exact spares_pure _

/-- Something behind a mark, if the mark is next, and what comes after it. -/
theorem spares_skipThen {k : Kind} {p : Parser α} {f : Option α → Parser β} (hp : Spares p)
    (hf : ∀ o, Spares (f o)) :
    Spares (skip? k >>= fun found =>
      if found then (some <$> p) >>= f else pure none >>= f) := by
  refine (spares_skip? k).bind fun found => ?_
  split
  · exact hp.map.bind hf
  · exact (spares_pure _).bind hf

/-! ### Types -/

theorem spares_identifier (production : String) : Spares (identifier production) :=
  (spares_expect (.inl (by decide))).bind fun _ => spares_pure _

theorem spares_number (production : String) : Spares (number production) := by
  refine (spares_expect (.inl (by decide))).bind fun token => ?_
  split
  · split
    · exact spares_pure _
    · exact spares_throw rfl
  · exact spares_throw rfl

theorem spares_primitiveType : Spares primitiveType := by
  refine spares_advance.bind fun token => ?_
  split
  · exact spares_pure _
  · exact spares_throw rfl

theorem spares_stringType : Spares stringType :=
  (spares_expect (.inl (by decide))).bind fun _ => spares_pure _

section

variable {inner : Parser TypeExpr} (hinner : Spares inner)

include hinner

theorem spares_genericClauseOf : Spares (genericClauseOf inner) := by
  refine (spares_expect (.inl (by decide))).bind fun _ => hinner.bind fun argument => ?_
  split
  · exact (spares_expect (.inl (by decide))).bind fun _ => spares_pure _
  · exact spares_throw rfl

theorem spares_namedTypeOf : Spares (namedTypeOf inner) := by
  refine (spares_identifier _).bind fun name => spares_kind.bind fun k => ?_
  split
  · refine (spares_genericClauseOf hinner).bind fun _ => ?_
    exact (spares_spanFrom _).bind fun _ => spares_pure _
  · exact spares_pure _

theorem spares_pointerTypeOf : Spares (pointerTypeOf inner) :=
  (spares_expect (.inl (by decide))).bind fun _ => hinner.bind fun _ =>
    (spares_spanFrom _).bind fun _ => spares_pure _

theorem spares_referenceTypeOf : Spares (referenceTypeOf inner) :=
  (spares_expect (.inl (by decide))).bind fun _ => hinner.bind fun _ =>
    (spares_spanFrom _).bind fun _ => spares_pure _

theorem spares_doubleReferenceTypeOf : Spares (doubleReferenceTypeOf inner) :=
  (spares_expect (.inl (by decide))).bind fun _ => hinner.bind fun _ =>
    (spares_spanFrom _).bind fun _ => (spares_spanFrom _).bind fun _ => spares_pure _

theorem spares_arrayTypeOf : Spares (arrayTypeOf inner) := by
  refine (spares_expect (.inl (by decide))).bind fun _ => hinner.bind fun _ => ?_
  refine (spares_expect (.inl (by decide))).bind fun _ => (spares_number _).bind fun _ => ?_
  refine (spares_expect (.inl (by decide))).bind fun _ => ?_
  exact (spares_spanFrom _).bind fun _ => spares_pure _

end

variable (g : Grammar)

theorem spares_typeExpr : Spares (typeExpr g) := by
  refine spares_nest fun inner hinner => spares_kind.bind fun k => ?_
  split
  · exact spares_unexpected _ _
  · exact spares_pointerTypeOf hinner
  · exact spares_referenceTypeOf hinner
  · exact spares_doubleReferenceTypeOf hinner
  · exact spares_arrayTypeOf hinner
  · exact spares_stringType
  · exact spares_namedTypeOf hinner
  · exact spares_primitiveType

theorem spares_genericClause : Spares (genericClause g) :=
  spares_genericClauseOf (spares_typeExpr g)

theorem spares_genericClause? : Spares (genericClause? g) := by
  refine spares_kind.bind fun k => ?_
  split
  · exact (spares_genericClause g).bind fun _ => spares_pure _
  · exact spares_pure _

/-! ### Expressions -/

theorem spares_takeApart (t : Token) (quote : Char) : Spares (takeApart t quote) :=
  spares_of_ok fun s => ⟨_, _, takeApart_run t quote s⟩

theorem spares_stringLiteral : Spares stringLiteral :=
  (spares_expect (.inl (by decide))).bind fun _ =>
    (spares_takeApart _ _).bind fun _ => spares_pure _

theorem spares_charLiteral : Spares charLiteral :=
  (spares_expect (.inl (by decide))).bind fun _ =>
    (spares_takeApart _ _).bind fun _ => spares_pure _

theorem spares_constant : Spares constant := by
  refine spares_advance.bind fun token => ?_
  split
  · exact spares_pure _
  · exact spares_pure _
  · exact spares_pure _
  · exact spares_throw rfl

theorem spares_commaSeparated {item : Parser α} (hitem : Spares item) :
    Spares (commaSeparated item) :=
  hitem.bind fun _ => (spares_manyWhile (spares_advance.bind fun _ => hitem)).bind fun _ =>
    spares_pure _

theorem spares_genericThen (mark : Symbol) : Spares (genericThen g mark) :=
  (spares_speculate _).bind fun _ => spares_pure _

theorem spares_constantList : Spares constantList := by
  have hitem : Spares (do
      let value ← number "constant_list"
      let _ ← skip? Symbol.pipe
      return value) :=
    (spares_number _).bind fun _ => (spares_skip? _).bind fun _ => spares_pure _
  refine spares_position.bind fun _ => (spares_number _).bind fun _ => ?_
  refine (spares_expect (.inl (by decide))).bind fun _ => ?_
  exact (spares_manyWhile hitem).bind fun _ => (spares_spanFrom _).bind fun _ => spares_pure _

section

variable {inner : Goal → Parser Expr} (hinner : ∀ goal, Spares (inner goal))

include hinner

theorem spares_argumentsOf : Spares (argumentsOf inner) := by
  refine (spares_expect (.inl (by decide))).bind fun _ => spares_kind.bind fun k => ?_
  have hlast : ∀ arguments : List Expr, Spares (do
      let _ ← expect Symbol.closeParen "arglist"
      return arguments) :=
    fun _ => (spares_expect (.inl (by decide))).bind fun _ => spares_pure _
  split
  · exact (spares_pure _).bind hlast
  · exact (spares_commaSeparated (hinner _)).bind hlast

theorem spares_callOf (hasGeneric : Bool) : Spares (callOf g inner hasGeneric) := by
  have hlast : ∀ (function : Identifier) (generic : Option TypeExpr), Spares (do
      let arguments ← argumentsOf inner
      return (⟨function, generic, arguments, ← spanFrom function.span.start⟩ : Call)) :=
    fun _ _ => (spares_argumentsOf hinner).bind fun _ =>
      (spares_spanFrom _).bind fun _ => spares_pure _
  refine (spares_identifier _).bind fun function => ?_
  split
  · exact (spares_genericClause g).map.bind fun _ => hlast _ _
  · exact (spares_pure _).bind fun _ => hlast _ _

theorem spares_fieldAccessOf : Spares (fieldAccessOf inner) :=
  (spares_identifier _).bind fun _ => (spares_expect (.inl (by decide))).bind fun _ =>
    (hinner _).bind fun _ => (spares_spanFrom _).bind fun _ => spares_pure _

theorem spares_arrayAccessOf : Spares (arrayAccessOf inner) :=
  (spares_identifier _).bind fun _ => (spares_expect (.inl (by decide))).bind fun _ =>
    (hinner _).bind fun _ => (spares_expect (.inl (by decide))).bind fun _ =>
      (spares_spanFrom _).bind fun _ => spares_pure _

theorem spares_namedOf : Spares (namedOf g inner) := by
  refine (spares_peekKind 1).bind fun k => ?_
  split
  · exact (spares_callOf g hinner false).bind fun _ => spares_pure _
  · refine (spares_genericThen g _).bind fun found => ?_
    split
    · exact (spares_callOf g hinner true).bind fun _ => spares_pure _
    · exact (spares_identifier _).bind fun _ => spares_pure _
  · exact spares_fieldAccessOf hinner
  · exact spares_arrayAccessOf hinner
  · exact (spares_identifier _).bind fun _ => spares_pure _

theorem spares_rangeOf : Spares (rangeOf inner) :=
  (hinner _).bind fun _ => (spares_expect (.inl (by decide))).bind fun _ =>
    (spares_skip? _).bind fun _ => (hinner _).bind fun _ => spares_pure _

theorem spares_matchKeyOf : Spares (matchKeyOf inner) := by
  refine spares_kind.bind fun k => (spares_peekKind 1).bind fun k' => ?_
  split
  · exact (spares_identifier _).bind fun _ => spares_pure _
  · exact spares_constantList.bind fun _ => spares_pure _
  · exact (spares_number _).bind fun _ => spares_pure _
  · exact spares_charLiteral.bind fun _ => spares_pure _
  · exact (spares_rangeOf hinner).bind fun _ => spares_pure _

theorem spares_matchArmOf : Spares (matchArmOf inner) := by
  refine spares_position.bind fun _ => (spares_matchKeyOf hinner).bind fun _ => ?_
  refine (spares_expect (.inl (by decide))).bind fun _ => (hinner _).bind fun _ => ?_
  refine (spares_expect (.inl (by decide))).bind fun _ => ?_
  exact (spares_spanFrom _).bind fun _ => spares_pure _

theorem spares_matchOf : Spares (matchOf inner) := by
  refine (spares_expect (.inl (by decide))).bind fun _ => (hinner _).bind fun _ => ?_
  refine (spares_expect (.inl (by decide))).bind fun _ => ?_
  refine (spares_manyWhile (spares_matchArmOf hinner)).bind fun _ => ?_
  refine (spares_expect (.inr (by decide))).bind fun _ => ?_
  exact (spares_spanFrom _).bind fun _ => spares_pure _

theorem spares_primaryOf : Spares (primaryOf g inner) := by
  refine spares_kind.bind fun k => ?_
  split
  · exact spares_unexpected _ _
  · exact (spares_number _).bind fun _ => spares_pure _
  · exact spares_charLiteral.bind fun _ => spares_pure _
  · exact spares_stringLiteral.bind fun _ => spares_pure _
  · exact spares_constant
  · exact spares_namedOf g hinner
  · exact (spares_matchOf hinner).bind fun _ => spares_pure _

theorem spares_binaryOf (left : Expr) (power : BindingPower) :
    Spares (binaryOf inner left power) := by
  refine spares_kind.bind fun k => ?_
  split
  · exact spares_unexpected _ _
  · exact spares_advance.bind fun _ => (hinner _).bind fun _ => spares_pure _

omit hinner in
/-- The one failure that is passed on is about a generic argument. -/
theorem spares_castTarget : Spares (castTarget g) := by
  refine spares_kind.bind fun k => (spares_peekKind 1).bind fun k' => ?_
  split
  · refine spares_get.bind fun saved => (spares_attempt _).bind fun result => ?_
    split
    · exact spares_pure _
    · split
      · next hcause => exact spares_throw (by rw [hcause]; rfl)
      · exact (spares_modify _).bind fun _ => (spares_identifier _).bind fun _ => spares_pure _
  · exact spares_typeExpr g

omit hinner in
theorem spares_typecastOf (left : Expr) : Spares (typecastOf g left) :=
  (spares_expect (.inl (by decide))).bind fun _ => (spares_castTarget g).bind fun _ =>
    (spares_spanFrom _).bind fun _ => spares_pure _

theorem spares_operatorsOf (power : BindingPower) (left : Expr) :
    Spares (operatorsOf g inner power left) := by
  refine spares_fix (fun more hmore left => spares_kind.bind fun k => ?_) left
  split
  · exact spares_pure _
  · split
    · split
      · exact (spares_binaryOf hinner _ _).bind hmore
      · exact (spares_typecastOf g _).bind hmore
    · exact spares_pure _

end

theorem spares_goal (goal : Goal) : Spares (Parser.goal g goal) := by
  refine spares_fix (fun inner hinner goal => ?_) goal
  cases goal with
  | primary => exact spares_primaryOf g hinner
  | above power => exact (spares_primaryOf g hinner).bind (spares_operatorsOf g hinner power)

theorem spares_fieldInit : Spares (fieldInit g) := by
  refine (spares_identifier _).bind fun _ => (spares_expect (.inl (by decide))).bind fun _ => ?_
  refine (spares_goal g _).bind fun _ => (spares_skip? _).bind fun _ => ?_
  exact (spares_spanFrom _).bind fun _ => spares_pure _

theorem spares_structInit : Spares (structInit g) := by
  refine (spares_identifier _).bind fun _ => (spares_genericClause? g).bind fun _ => ?_
  refine (spares_expect (.inl (by decide))).bind fun _ => ?_
  refine (spares_manyWhile (spares_fieldInit g)).bind fun _ => ?_
  refine (spares_expect (.inr (by decide))).bind fun _ => ?_
  exact (spares_spanFrom _).bind fun _ => spares_pure _

theorem spares_structInitAhead : Spares (structInitAhead g) := by
  refine spares_kind.bind fun k => (spares_peekKind 1).bind fun k' => ?_
  split
  · exact spares_pure _
  · exact spares_genericThen g _
  · exact spares_pure _

theorem spares_initializer : Spares (initializer g) := by
  refine (spares_structInitAhead g).bind fun ahead => ?_
  split
  · exact (spares_structInit g).bind fun _ => spares_pure _
  · exact spares_goal g _

/-! ### Statements -/

theorem spares_breakStmt : Spares breakStmt :=
  (spares_expect (.inl (by decide))).bind fun _ => (spares_expect (.inl (by decide))).bind fun _ =>
    (spares_spanFrom _).bind fun _ => spares_pure _

theorem spares_continueStmt : Spares continueStmt :=
  (spares_expect (.inl (by decide))).bind fun _ => (spares_expect (.inl (by decide))).bind fun _ =>
    (spares_spanFrom _).bind fun _ => spares_pure _

theorem spares_mutMarker? : Spares mutMarker? := by
  refine spares_kind.bind fun k => ?_
  split
  · exact spares_advance.bind fun _ => spares_pure _
  · exact spares_pure _

theorem spares_assignmentTo (target value : Expr) (start : Position) :
    Spares (assignmentTo target value start) := by
  refine (spares_expect (.inl (by decide))).bind fun _ => (spares_spanFrom _).bind fun _ => ?_
  split
  · exact spares_pure _
  · split
    · exact spares_pure _
    · exact spares_pure _
    · exact spares_throw rfl
  · exact spares_pure _
  · exact spares_throw rfl

theorem spares_returnStmt : Spares (returnStmt g) := by
  refine (spares_expect (.inl (by decide))).bind fun _ => (spares_goal g _).bind fun _ => ?_
  refine (spares_expect (.inl (by decide))).bind fun _ => ?_
  exact (spares_spanFrom _).bind fun _ => spares_pure _

theorem spares_declarationStmt : Spares (declarationStmt g) := by
  refine (spares_expect (.inl (by decide))).bind fun _ => spares_mutMarker?.bind fun _ => ?_
  refine (spares_identifier _).bind fun _ => (spares_expect (.inl (by decide))).bind fun _ => ?_
  refine (spares_typeExpr g).bind fun _ => ?_
  refine spares_skipThen (spares_initializer g) fun _ => ?_
  refine (spares_expect (.inl (by decide))).bind fun _ => ?_
  exact (spares_spanFrom _).bind fun _ => spares_pure _

theorem spares_namedStmt : Spares (namedStmt g) := by
  refine spares_position.bind fun start => (spares_goal g _).bind fun target => ?_
  refine spares_kind.bind fun k => ?_
  split
  · refine spares_advance.bind fun _ => (spares_goal g _).bind fun _ => ?_
    exact spares_assignmentTo _ _ _
  · refine spares_advance.bind fun _ => (spares_goal g _).bind fun _ => ?_
    refine (spares_expect (.inl (by decide))).bind fun _ => ?_
    refine (spares_expect (.inl (by decide))).bind fun _ => (spares_goal g _).bind fun _ => ?_
    refine (spares_expect (.inl (by decide))).bind fun _ => ?_
    exact (spares_spanFrom _).bind fun _ => spares_pure _
  · split
    · refine (spares_expect (.inl (by decide))).bind fun _ => ?_
      exact (spares_spanFrom _).bind fun _ => spares_pure _
    · exact spares_unexpected _ _

theorem spares_matchStmt : Spares (matchStmt g) := by
  refine spares_position.bind fun _ => (spares_matchOf (spares_goal g)).bind fun _ => ?_
  refine (spares_expect (.inl (by decide))).bind fun _ => ?_
  exact (spares_spanFrom _).bind fun _ => spares_pure _

theorem spares_iterable : Spares (iterable g) := by
  refine spares_kind.bind fun k => (spares_peekKind 1).bind fun k' => ?_
  split
  · exact (spares_identifier _).bind fun _ => spares_pure _
  · exact (spares_rangeOf (spares_goal g)).bind fun _ => spares_pure _

section

variable {inner : Parser Block} (hinner : Spares inner)

include hinner

theorem spares_ifStmtOf : Spares (ifStmtOf g inner) := by
  refine (spares_expect (.inl (by decide))).bind fun _ => (spares_goal g _).bind fun _ => ?_
  refine hinner.bind fun _ => spares_skipThen hinner fun _ => ?_
  exact (spares_spanFrom _).bind fun _ => spares_pure _

theorem spares_whileStmtOf : Spares (whileStmtOf g inner) := by
  refine (spares_expect (.inl (by decide))).bind fun _ => (spares_goal g _).bind fun _ => ?_
  exact hinner.bind fun _ => (spares_spanFrom _).bind fun _ => spares_pure _

theorem spares_forStmtOf : Spares (forStmtOf g inner) := by
  refine (spares_expect (.inl (by decide))).bind fun _ => (spares_skip? _).bind fun _ => ?_
  refine (spares_identifier _).bind fun _ => (spares_expect (.inl (by decide))).bind fun _ => ?_
  refine (spares_iterable g).bind fun _ => hinner.bind fun _ => ?_
  exact (spares_spanFrom _).bind fun _ => spares_pure _

/-- No statement fails for want of the closing brace of a block. -/
theorem spares_statementOf : Spares (statementOf g inner) := by
  refine spares_kind.bind fun k => ?_
  split
  · exact spares_unexpected _ _
  · exact spares_returnStmt g
  · exact spares_declarationStmt g
  · exact spares_ifStmtOf g hinner
  · exact spares_whileStmtOf g hinner
  · exact spares_forStmtOf g hinner
  · exact spares_breakStmt
  · exact spares_continueStmt
  · exact spares_matchStmt g
  · exact spares_namedStmt g

end

/-! ### Blocks -/

theorem spares_skipTokensInBlock (depth start : Nat) : Spares (skipTokensInBlock depth start) := by
  refine spares_nest fun more hmore => spares_get.bind fun s => ?_
  refine (spares_pure _).ite (.ite (spares_advance.bind fun _ => spares_pure _) ?_)
  exact (spares_pure _).ite (spares_advance.bind fun _ => hmore)

theorem spares_skipInBlock (depth start : Nat) : Spares (skipInBlock depth start) := by
  refine (spares_skipTokensInBlock depth start).bind fun _ => spares_get.bind fun s => ?_
  split
  · exact spares_advance.bind fun _ => spares_pure _
  · exact spares_pure _

theorem spares_recoverStatement (d : Diagnostic) (depth start : Nat) (position : Position) :
    Spares (recoverStatement d depth start position) := by
  have hspan : Spares (do return Stmt.error (← spanFrom position)) :=
    (spares_spanFrom _).bind fun _ => spares_pure _
  refine spares_get.bind fun s => (spares_modify _).bind fun _ => ?_
  exact hspan.ite ((spares_skipInBlock depth start).bind fun _ => hspan)

theorem spares_blockItemOf (inner : Parser Block) (depth : Nat) :
    Spares (blockItemOf g inner depth) := by
  refine spares_get.bind fun s => (spares_attempt _).bind fun result => ?_
  split
  · refine (spares_pure _).bind fun _ => spares_takeComments.bind fun _ => spares_pure _
  · refine (spares_recoverStatement _ _ _ _).bind fun _ => ?_
    exact spares_takeComments.bind fun _ => spares_pure _

/-- The closing brace is asked for under a catch. -/
theorem spares_block : Spares (block g) := by
  refine spares_nest fun inner _ => (spares_expect (.inl (by decide))).bind fun brace => ?_
  refine spares_get.bind fun s => spares_takeComments.bind fun leading => ?_
  refine (spares_manyWhile (spares_blockItemOf g inner _)).bind fun items => ?_
  refine (spares_attempt _).bind fun result => ?_
  split
  · exact (spares_spanFrom _).bind fun _ => spares_pure _
  · refine (spares_modify _).bind fun _ => (spares_modify _).bind fun _ => ?_
    exact (spares_spanFrom _).bind fun _ => spares_pure _

/-! ### Definitions -/

theorem spares_useStatement : Spares useStatement := by
  refine (spares_expect (.inl (by decide))).bind fun _ =>
    (spares_manyWhile ?_).bind fun _ => ?_
  · refine (spares_identifier _).bind fun name => spares_kind.bind fun k => ?_
    split
    · exact spares_advance.bind fun _ => spares_pure _
    · exact spares_advance.bind fun _ => spares_pure _
    · exact spares_pure _
  · refine (spares_expect (.inl (by decide))).bind fun _ => ?_
    exact (spares_spanFrom _).bind fun _ => spares_pure _

theorem spares_parameter : Spares (parameter g) := by
  refine (spares_identifier _).bind fun _ => (spares_expect (.inl (by decide))).bind fun _ => ?_
  refine spares_mutMarker?.bind fun _ => (spares_typeExpr g).bind fun _ => ?_
  refine (spares_spanFrom _).bind fun _ => (spares_skip? _).bind fun _ => spares_pure _

theorem spares_parameterList : Spares (parameterList g) := by
  refine (spares_expect (.inl (by decide))).bind fun _ => ?_
  refine (spares_manyWhile (spares_parameter g)).bind fun _ => ?_
  exact (spares_expect (.inl (by decide))).bind fun _ => spares_pure _

theorem spares_returnType? : Spares (returnType? g) := by
  refine (spares_skip? _).bind fun found => ?_
  split
  · exact (spares_typeExpr g).map
  · exact spares_pure _

theorem spares_function : Spares (function g) := by
  refine (spares_expect (.inl (by decide))).bind fun _ => (spares_identifier _).bind fun _ => ?_
  refine (spares_genericClause? g).bind fun _ => (spares_parameterList g).bind fun _ => ?_
  refine (spares_returnType? g).bind fun _ => (spares_block g).bind fun _ => ?_
  exact (spares_spanFrom _).bind fun _ => spares_pure _

theorem spares_externalFunction : Spares (externalFunction g) := by
  refine (spares_expect (.inl (by decide))).bind fun _ => ?_
  refine (spares_expect (.inl (by decide))).bind fun _ => (spares_identifier _).bind fun _ => ?_
  refine (spares_parameterList g).bind fun _ => (spares_returnType? g).bind fun _ => ?_
  refine (spares_expect (.inl (by decide))).bind fun _ => ?_
  exact (spares_spanFrom _).bind fun _ => spares_pure _

theorem spares_membersWhile {wanted : Kind → Bool} {member : Parser α} (hmember : Spares member) :
    Spares (membersWhile wanted member) := by
  have hitem : Spares (do
      let m ← member
      return (m, ← takeComments)) :=
    hmember.bind fun _ => spares_takeComments.bind fun _ => spares_pure _
  exact spares_takeComments.bind fun _ => (spares_manyWhile hitem).bind fun _ => spares_pure _

theorem spares_structDef : Spares (structDef g) := by
  refine (spares_expect (.inl (by decide))).bind fun _ => (spares_identifier _).bind fun _ => ?_
  refine (spares_genericClause? g).bind fun _ => ?_
  refine (spares_expect (.inl (by decide))).bind fun _ => ?_
  refine (spares_membersWhile (spares_parameter g)).bind fun fields => ?_
  refine (spares_membersWhile (spares_function g)).bind fun methods => spares_kind.bind fun k => ?_
  split
  · exact spares_advance.bind fun _ => (spares_spanFrom _).bind fun _ => spares_pure _
  · exact spares_unexpected _ _

/-- No definition fails for want of the closing brace of a block. -/
theorem spares_definition : Spares (definition g) := by
  refine spares_kind.bind fun k => ?_
  split
  · exact spares_unexpected _ _
  · exact spares_useStatement.bind fun _ => spares_pure _
  · exact (spares_function g).bind fun _ => spares_pure _
  · exact (spares_externalFunction g).bind fun _ => spares_pure _
  · exact (spares_structDef g).bind fun _ => spares_pure _

end Parser

end FrontEnd
