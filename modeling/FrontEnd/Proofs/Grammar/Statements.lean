/-
Statements without blocks are read by their productions.

Besides the statements, the parts of definitions that hold no block are here: parameters,
types of results, external functions and uses.  An assignment is read as an expression
first; `meets_assignmentTo` takes that expression apart.
-/
import FrontEnd.Definition.Parser
import FrontEnd.Proofs.Grammar.Expressions

namespace FrontEnd.Parser

variable {seen : List Token} {s : State}

/-! ### Simple statements -/

theorem meets_breakStmt : Meets seen s breakStmt Stmt.SpelledBy := by
  refine (meets_expect (by decide)).bind ?_
  rintro word _ s₁ h₁ ⟨rfl, hword⟩
  refine (meets_expect (by decide)).bind ?_
  rintro semi _ s₂ h₂ ⟨rfl, hsemi⟩
  refine meets_spanFrom (meets_pure ?_)
  rw [(h₁.append h₂).spanFrom (by simp)]
  exact .breakLoop hword hsemi

theorem meets_continueStmt : Meets seen s continueStmt Stmt.SpelledBy := by
  refine (meets_expect (by decide)).bind ?_
  rintro word _ s₁ h₁ ⟨rfl, hword⟩
  refine (meets_expect (by decide)).bind ?_
  rintro semi _ s₂ h₂ ⟨rfl, hsemi⟩
  refine meets_spanFrom (meets_pure ?_)
  rw [(h₁.append h₂).spanFrom (by simp)]
  exact .continueLoop hword hsemi

theorem meets_returnStmt : Meets seen s (returnStmt Grammar.standard) Stmt.SpelledBy := by
  refine (meets_expect (by decide)).bind ?_
  rintro word _ s₁ h₁ ⟨rfl, hword⟩
  refine meets_expression.bind fun value vs s₂ h₂ hvalue => ?_
  refine (meets_expect (by decide)).bind ?_
  rintro semi _ s₃ h₃ ⟨rfl, hsemi⟩
  refine meets_spanFrom (meets_pure ?_)
  rw [(h₁.append (h₂.append h₃)).spanFrom (by simp)]
  simpa [covering_cons] using Stmt.SpelledBy.returning hword hvalue hsemi

theorem meets_matchStmt : Meets seen s (matchStmt Grammar.standard) Stmt.SpelledBy := by
  refine meets_position ?_
  refine meets_matchExpr.bind fun m ms s₁ h₁ hm => ?_
  refine (meets_expect (by decide)).bind ?_
  rintro semi _ s₂ h₂ ⟨rfl, hsemi⟩
  refine meets_spanFrom (meets_pure ?_)
  rw [(h₁.append h₂).covering (by simp)]
  simpa using Stmt.SpelledBy.matching hm hsemi

theorem meets_mutMarker? : Meets seen s mutMarker? MutMarker := by
  refine meets_kind ?_
  split
  · next hmut =>
    refine (meets_advance (by rw [hmut]; decide)).bind ?_
    rintro t _ s₁ - ⟨rfl, rfl⟩
    exact meets_pure (.present hmut)
  · exact meets_pure .absent

theorem meets_declarationStmt :
    Meets seen s (declarationStmt Grammar.standard) Stmt.SpelledBy := by
  refine (meets_expect (by decide)).bind ?_
  rintro word _ s₁ h₁ ⟨rfl, hword⟩
  refine meets_mutMarker?.bind fun mutability ms s₂ h₂ hmut => ?_
  refine meets_identifier.bind ?_
  rintro name _ s₃ h₃ ⟨⟩
  refine (meets_expect (by decide)).bind ?_
  rintro colon _ s₄ h₄ ⟨rfl, hcolon⟩
  refine meets_typeExpr.bind fun type ts s₅ h₅ htype => ?_
  refine meets_skipThen (by decide) (fun _ _ => meets_initializer) fun value vs s₆ h₆ hvalue => ?_
  refine (meets_expect (by decide)).bind ?_
  rintro semi _ s₇ h₇ ⟨rfl, hsemi⟩
  have hall := h₁.append (h₂.append (h₃.append (h₄.append (h₅.append (h₆.append h₇)))))
  refine meets_spanFrom (meets_pure ?_)
  rw [hall.spanFrom (by simp)]
  simpa [covering_cons] using Stmt.SpelledBy.declaration name hword hmut hcolon htype hvalue hsemi

theorem meets_iterable : Meets seen s (iterable Grammar.standard) IterableBy := by
  refine meets_kind (meets_peekKind ?_)
  split
  · refine meets_identifier.bind ?_
    rintro name _ s₁ - ⟨⟩
    exact meets_pure (.identifier name)
  · refine meets_range.bind fun r ts s₁ _ hr => meets_pure ?_
    simpa using IterableBy.range hr

/-! ### Assignments and calls -/

/-- The semicolon behind an assignment, whose target `ts` has been read as an expression and
is now taken apart. -/
theorem meets_assignmentTo {s₀ : State} {target value : Expr} {ts vs : List Token} {eq : Token}
    (htarget : target.PrimaryBy ts) (heq : eq.kind = .symbol .assignment)
    (hvalue : value.SpelledBy vs) (hbefore : Passes s₀ (ts ++ eq :: vs) s)
    (hseen : ts <:+: seen) :
    Meets seen s (assignmentTo target value s₀.position) fun stmt us =>
      stmt.SpelledBy (ts ++ eq :: (vs ++ us)) := by
  refine (meets_expect (by decide)).bind ?_
  rintro semi _ s₁ h₁ ⟨rfl, hsemi⟩
  have hspan : s₁.spanFrom s₀.position = covering (ts ++ eq :: (vs ++ [semi])) := by
    rw [(hbefore.append h₁.toPasses).covering (by simp)]
    simp
  -- A target that is refused is made of some of the tokens of the whole target.
  have hrefused : ∀ {e : Expr} {production : String} {es : List Token},
      e.PrimaryBy es → es <:+: ts →
      Located (invalidTarget e production) (seen ++ [semi]) s₁ := by
    intro e production es he hes
    obtain ⟨t, ht, hd⟩ := he.startsWith.exists_mem
    have hin : es <:+: seen ++ [semi] :=
      (hes.trans hseen).trans (List.prefix_append _ _).isInfix
    exact located_of_mem (hin.subset ht) rfl hd (.primary he hin) s₁
  have hwhole := htarget
  refine meets_spanFrom ?_
  rw [hspan]
  -- The forms that can be assigned to become statements, all others are refused.
  cases htarget with
  | identifier name =>
    exact meets_pure (by simpa using Stmt.SpelledBy.assignment name heq hvalue hsemi)
  | @fieldAccess object dot member ms hdot hmember =>
    have hmembers : ms <:+: object.token :: dot :: ms :=
      (List.suffix_append [object.token, dot] ms).isInfix
    by_cases hform : member.isMember
    · have hstmt := Stmt.SpelledBy.fieldAssignment object hdot hmember hform heq hvalue hsemi
      cases member with
      | identifier | arrayAccess => exact meets_pure (by simpa using hstmt)
      | _ => exact absurd hform (by simp [Expr.isMember])
    · cases member with
      | identifier | arrayAccess => exact absurd rfl hform
      | _ => exact meets_fail rfl (hrefused hmember hmembers)
  | arrayAccess base ho hindex hc =>
    have hstmt := Stmt.SpelledBy.arrayAssignment (.identifier base) ho hindex hc heq hvalue hsemi
    exact meets_pure (by simpa using hstmt)
  | _ => exact meets_fail rfl (hrefused hwhole (List.infix_refl _))

theorem meets_namedStmt : Meets seen s (namedStmt Grammar.standard) Stmt.SpelledBy := by
  refine meets_position ?_
  refine meets_primary.bind fun target ts s₁ h₁ htarget => ?_
  refine meets_kind ?_
  split
  · next heq =>
    refine (meets_advance (by rw [heq]; decide)).bind ?_
    rintro eq _ s₂ h₂ ⟨rfl, rfl⟩
    refine meets_expression.bind fun value vs s₃ h₃ hvalue => ?_
    have hbefore := h₁.append (h₂.append h₃)
    have hseen : ts <:+: seen ++ ts ++ [s₁.current] ++ vs := by
      rw [List.append_assoc (seen ++ ts)]
      exact List.infix_append _ _ _
    refine (meets_assignmentTo htarget heq hvalue hbefore.toPasses hseen).mono ?_
    intro stmt us hstmt
    simpa using hstmt
  · -- An index behind the target: the target itself was read without it.
    next ho =>
    refine (meets_advance (by rw [ho]; decide)).bind ?_
    rintro o _ s₂ h₂ ⟨rfl, rfl⟩
    refine meets_primary.bind fun index is s₃ h₃ hindex => ?_
    refine (meets_expect (by decide)).bind ?_
    rintro c _ s₄ h₄ ⟨rfl, hc⟩
    refine (meets_expect (by decide)).bind ?_
    rintro eq _ s₅ h₅ ⟨rfl, heq⟩
    refine meets_expression.bind fun value vs s₆ h₆ hvalue => ?_
    refine (meets_expect (by decide)).bind ?_
    rintro semi _ s₇ h₇ ⟨rfl, hsemi⟩
    have hall := h₁.append (h₂.append (h₃.append (h₄.append (h₅.append (h₆.append h₇)))))
    refine meets_spanFrom (meets_pure ?_)
    rw [hall.covering (by simp)]
    simpa using Stmt.SpelledBy.arrayAssignment htarget ho hindex hc heq hvalue hsemi
  · cases htarget with
    | call hcall =>
      refine (meets_expect (by decide)).bind ?_
      rintro semi _ s₂ h₂ ⟨rfl, hsemi⟩
      refine meets_spanFrom (meets_pure ?_)
      rw [(h₁.append h₂).covering (by simp)]
      simpa using Stmt.SpelledBy.call hcall hsemi
    | _ => exact meets_unexpected _ _

/-! ### Parts of definitions -/

theorem meets_parameter : Meets seen s (parameter Grammar.standard) Parameter.SpelledBy := by
  refine meets_identifier.bind ?_
  rintro name _ s₁ h₁ ⟨⟩
  refine (meets_expect (by decide)).bind ?_
  rintro colon _ s₂ h₂ ⟨rfl, hcolon⟩
  refine meets_mutMarker?.bind fun mutability ms s₃ h₃ hmut => ?_
  refine meets_typeExpr.bind fun type ts s₄ h₄ htype => ?_
  refine meets_spanFrom ?_
  rw [(h₁.append (h₂.append (h₃.append h₄))).spanFrom (by simp)]
  refine (meets_skip? (by decide)).bind fun b cs s₅ _ hcomma => meets_pure ?_
  simpa [covering_cons] using Parameter.SpelledBy.mk name hcolon hmut htype hcomma

theorem meets_parameterList : Meets seen s (parameterList Grammar.standard) ParameterList := by
  refine (meets_expect (by decide)).bind ?_
  rintro o _ s₁ - ⟨rfl, ho⟩
  refine (meets_manyWhile (fun _ _ _ => meets_parameter) _ s₁).bind ?_
  intro parameters ts s₂ _ hparameters
  refine (meets_expect (by decide)).bind ?_
  rintro c _ s₃ - ⟨rfl, hc⟩
  exact meets_pure (by simpa using ParameterList.mk ho hparameters hc)

theorem meets_returnType? : Meets seen s (returnType? Grammar.standard) ReturnTypeBy := by
  refine (meets_skip? (by decide)).bind fun b ts s₁ _ hb => ?_
  cases hb with
  | absent => exact meets_pure .none
  | present hcolon => exact meets_typeExpr.map fun type us htype => .some (.mk hcolon htype)

theorem meets_externalFunction :
    Meets seen s (externalFunction Grammar.standard) ExternalFunction.SpelledBy := by
  refine (meets_expect (by decide)).bind ?_
  rintro word _ s₁ h₁ ⟨rfl, hword⟩
  refine (meets_expect (by decide)).bind ?_
  rintro fn _ s₂ h₂ ⟨rfl, hfn⟩
  refine meets_identifier.bind ?_
  rintro name _ s₃ h₃ ⟨⟩
  refine meets_parameterList.bind fun parameters ps s₄ h₄ hparameters => ?_
  refine meets_returnType?.bind fun returnType rs s₅ h₅ hreturn => ?_
  refine (meets_expect (by decide)).bind ?_
  rintro semi _ s₆ h₆ ⟨rfl, hsemi⟩
  have hall := h₁.append (h₂.append (h₃.append (h₄.append (h₅.append h₆))))
  refine meets_spanFrom (meets_pure ?_)
  rw [hall.spanFrom (by simp)]
  simpa [covering_cons] using
    ExternalFunction.SpelledBy.mk name hword hfn hparameters hreturn hsemi

theorem meets_useStatement : Meets seen s useStatement UseStatement.SpelledBy := by
  refine (meets_expect (by decide)).bind ?_
  rintro word _ s₁ h₁ ⟨rfl, hword⟩
  refine (meets_manyWhile (V := PathName) (fun seen s _ => ?_) _ s₁).bind ?_
  · refine meets_identifier.bind ?_
    rintro name _ s₂ - ⟨⟩
    -- Both separators are taken with the name before them.
    have hmark : s₂.current.kind = .symbol .colonColon ∨ s₂.current.kind = .symbol .dot →
        ∀ {seen}, Meets seen s₂ (do let _ ← advance; return name) fun n ts =>
          PathName n ([name.token] ++ ts) := by
      intro hmark seen
      refine (meets_advance (by rcases hmark with h | h <;> rw [h] <;> decide)).bind ?_
      rintro mark _ s₃ - ⟨rfl, rfl⟩
      exact meets_pure (.marked name hmark)
    refine meets_kind ?_
    split
    · next h => exact hmark (.inl h)
    · next h => exact hmark (.inr h)
    · exact meets_pure (.bare name)
  · intro path ps s₂ h₂ hpath
    refine (meets_expect (by decide)).bind ?_
    rintro semi _ s₃ h₃ ⟨rfl, hsemi⟩
    refine meets_spanFrom (meets_pure ?_)
    rw [(h₁.append (h₂.append h₃)).spanFrom (by simp)]
    simpa [covering_cons] using UseStatement.SpelledBy.mk hword hpath hsemi

end FrontEnd.Parser
