/-
Expressions are read by their productions.

* `meets_goal` — reading what is asked for reads a spelling of it: an expression without
  operators, or any expression;
* `meets_initializer` — the same for the first value of a variable.

The operators that follow an expression are read one by one, each of them with the
expression before it as its left operand; so what they are a spelling of depends on that
expression (`Continues`).  Looking ahead for a generic argument leaves the state as it is.
-/
import FrontEnd.Proofs.Grammar.Types

namespace FrontEnd

/-! ### Where an expression starts -/

theorem Expr.PrimaryBy.startsWith {e : Expr} {ts : List Token} (h : e.PrimaryBy ts) :
    StartsWith e.span ts := by
  cases h with
  | number h => exact h.startsWith
  | char h => cases h; exact ⟨_, [], rfl, rfl⟩
  | string h => cases h; exact ⟨_, [], rfl, rfl⟩
  | null | true | false | identifier => exact ⟨_, [], rfl, rfl⟩
  | call h => cases h; exact startsWith_covering _ _
  | fieldAccess | arrayAccess => exact startsWith_covering _ _
  | matching h => cases h; exact startsWith_covering _ _

namespace Parser

variable {α β : Type} {seen : List Token} {s : State}

/-! ### Literals and lists -/

/-- A literal is consumed and taken apart. -/
theorem literal_run {k : Kind} (h : s.current.kind = k) (quote : Char) (production : String)
    (g : Token → List LiteralPart → α) :
    (do
      let token ← expect k production
      return g token (← takeApart token quote) : Parser α) s =
      .ok (g s.current (literalParts s.current quote)) (s.advance.apart s.current quote) := by
  have hexpect : expect k production s = .ok s.current s.advance := by rw [expect_run, if_pos h]
  rw [bind_of_ok hexpect, bind_of_ok (takeApart_run s.current quote s.advance)]
  rfl

/-- What is made of a literal token and its parts. -/
theorem meets_literal {k : Kind} {quote : Char} (hquotes : k.Quotes quote) {production : String}
    (g : Token → List LiteralPart → α) :
    Meets seen s
      (do
        let token ← expect k production
        return g token (← takeApart token quote))
      fun a ts => ∃ t, ts = [t] ∧ t.kind = k ∧ a = g t (literalParts t quote) := by
  by_cases h : s.current.kind = k
  · obtain ⟨hbrace, hnumber, heof⟩ := Kind.isPlain_iff.mp (show s.current.kind.isPlain by
      rw [h]
      cases hquotes <;> rfl)
    exact meets_ok (literal_run h quote production g) (reads_apart heof (h ▸ hquotes))
      (balanced_singleton hbrace) (inRange_of_ne_number hnumber) ⟨s.current, rfl, h, rfl⟩
  · refine meets_fail (bind_of_error (by rw [expect_run, if_neg h])) ?_
    exact located_notFound s production k seen

theorem meets_stringLiteral : Meets seen s stringLiteral StringLiteral.SpelledBy := by
  refine (meets_literal .string fun t parts => StringLiteral.mk parts t.span).mono ?_
  rintro _ _ ⟨t, rfl, ht, rfl⟩
  exact .mk ht

theorem meets_charLiteral : Meets seen s charLiteral CharLiteral.SpelledBy := by
  refine (meets_literal .char fun t parts => CharLiteral.mk parts t.span).mono ?_
  rintro _ _ ⟨t, rfl, ht, rfl⟩
  exact .mk ht

theorem meets_constant (h : Grammar.standard.primary? s.current.kind = some .constant) :
    Meets seen s constant Expr.PrimaryBy := by
  have hword : s.current.kind = .keyword .nullKw ∨ s.current.kind = .keyword .trueKw ∨
      s.current.kind = .keyword .falseKw := by
    simp only [Grammar.standard] at h
    split at h <;> simp_all
  refine (meets_advance (by rcases hword with h | h | h <;> rw [h] <;> decide)).bind ?_
  rintro t _ s' - ⟨rfl, rfl⟩
  rcases hword with hword | hword | hword
  · simp only [hword]
    exact meets_pure (.null hword)
  · simp only [hword]
    exact meets_pure (.true hword)
  · simp only [hword]
    exact meets_pure (.false hword)

theorem meets_commaSeparated {item : Parser α} {V : α → List Token → Prop}
    (hitem : ∀ seen s, Meets seen s item V) :
    Meets seen s (commaSeparated item) (Separated (.symbol .comma) V) := by
  refine (hitem seen s).bind fun first ts s₁ _ hfirst => ?_
  have hothers : ∀ seen s, decide (s.current.kind = .symbol .comma) →
      Meets seen s (do let _ ← advance; item) fun a us =>
        ∃ sep vs, us = sep :: vs ∧ sep.kind = .symbol .comma ∧ V a vs := by
    intro seen s hcomma
    have hcomma := of_decide_eq_true hcomma
    refine (meets_advance (by rw [hcomma]; decide)).bind ?_
    rintro sep _ s' - ⟨rfl, rfl⟩
    exact (hitem _ s').mono fun a vs ha => ⟨_, vs, rfl, hcomma, ha⟩
  refine (meets_manyWhile hothers _ s₁).bind fun others us s₂ _ hothers => meets_pure ?_
  simpa using Separated.of_each hfirst hothers

/-! ### Looking ahead -/

/-- The parser gives a value and leaves the state as it is. -/
def Looks (s : State) (p : Parser α) : Prop := ∃ a, p s = .ok a s

theorem Looks.meets {p : Parser α} {f : α → Parser β} {V : β → List Token → Prop}
    (hp : Looks s p) (hf : ∀ a, Meets seen s (f a) V) : Meets seen s (p >>= f) V := by
  obtain ⟨a, ha⟩ := hp
  exact Meets.congr (bind_of_ok ha) (hf a)

theorem looks_kind {f : Kind → Parser β} (h : Looks s (f s.current.kind)) :
    Looks s (kind >>= f) := h

theorem looks_peekKind {n : Nat} {f : Kind → Parser β} (h : Looks s (f (s.peek n).kind)) :
    Looks s (peekKind n >>= f) := h

/-- A parser that only reads, and does not break off, can be tried without leaving a trace. -/
theorem looks_speculate {p : Parser α} {V : α → List Token → Prop} (h : Meets [] s p V)
    (hfaultless : Faultless p) : Looks s (speculate p) := by
  unfold Looks
  rw [speculate_run]
  cases hrun : p s with
  | ok a s' =>
    obtain ⟨ts, hread, -⟩ := h.of_ok hrun
    exact ⟨some a, congrArg _ (hread.restore (hfaultless.of_ok hrun))⟩
  | error d s' =>
    obtain ⟨ts, hread, -⟩ := h.of_error hrun
    exact ⟨none, congrArg _ (hread.restore (hfaultless.of_error hrun))⟩

theorem looks_genericThen (hname : s.current.kind = .identifier) (mark : Symbol) :
    Looks s (genericThen Grammar.standard mark) := by
  have hclause : Meets [] s
      (do
        let _ ← advance
        let _ ← genericClause Grammar.standard
        return (← kind) == .symbol mark) fun _ _ => True := by
    refine (meets_advance (by rw [hname]; decide)).bind fun _ _ s₁ _ _ => ?_
    exact meets_genericClause.bind fun _ _ s₂ _ _ => meets_kind (meets_pure trivial)
  obtain ⟨result, hrun⟩ := looks_speculate hclause <| faultless_advance.bind fun _ =>
    faultless_genericClause.bind fun _ => faultless_get fun _ => faultless_pure _
  exact ⟨result == some true, bind_of_ok hrun⟩

/-! ### Expressions without operators -/

/-- What is asked for is spelled by the tokens. -/
def Goal.SpelledBy : Goal → Expr → List Token → Prop
  | .primary => Expr.PrimaryBy
  | .above _ => Expr.SpelledBy

theorem meets_constantList : Meets seen s constantList ConstantList.SpelledBy := by
  refine meets_position ?_
  refine meets_number.bind fun first fs s₁ h₁ hfirst => ?_
  refine (meets_expect (by decide)).bind ?_
  rintro bar _ s₂ h₂ ⟨rfl, hbar⟩
  have hitem : ∀ seen s, decide (s.current.kind = .number) →
      Meets seen s (do
        let value ← number "constant_list"
        let _ ← skip? Symbol.pipe
        return value) fun n ts => ∃ ns b bs, ts = ns ++ bs ∧ n.SpelledBy ns ∧
          Optional (.symbol .pipe) b bs := by
    intro seen s _
    refine meets_number.bind fun n ns s₁ _ hn => ?_
    refine (meets_skip? (by decide)).bind fun b bs s₂ _ hb => meets_pure ?_
    exact ⟨ns, b, bs, by simp, hn, hb⟩
  refine (meets_manyWhile hitem _ s₂).bind fun others os s₃ h₃ hothers => ?_
  refine meets_spanFrom (meets_pure ?_)
  rw [(h₁.append (h₂.append h₃)).covering (by simp)]
  simpa using ConstantList.SpelledBy.mk hfirst hbar hothers

section

-- The expressions inside an expression are read by their productions.
variable {inner : Goal → Parser Expr}
  (hinner : ∀ goal seen s, Meets seen s (inner goal) goal.SpelledBy)

include hinner

theorem meets_argumentsOf :
    Meets seen s (argumentsOf inner) fun arguments ts => ∃ o us c, ts = o :: (us ++ [c]) ∧
      o.kind = .symbol .openParen ∧ Separated (.symbol .comma) Expr.SpelledBy arguments us ∧
        c.kind = .symbol .closeParen := by
  refine (meets_expect (by decide)).bind ?_
  rintro o _ s₁ - ⟨rfl, ho⟩
  -- With and without arguments the list ends in the same way.
  have hclose : ∀ {p : Parser (List Expr)},
      (∀ seen, Meets seen s₁ p (Separated (.symbol .comma) Expr.SpelledBy)) →
      Meets (seen ++ [o]) s₁
        (do
          let arguments ← p
          let _ ← expect Symbol.closeParen "arglist"
          return arguments)
        fun arguments ts => ∃ o' us c, [o] ++ ts = o' :: (us ++ [c]) ∧
          o'.kind = .symbol .openParen ∧
            Separated (.symbol .comma) Expr.SpelledBy arguments us ∧
              c.kind = .symbol .closeParen := by
    intro p hp
    refine (hp _).bind fun arguments us s₂ _ harguments => ?_
    refine (meets_expect (by decide)).bind ?_
    rintro c _ s₃ - ⟨rfl, hc⟩
    exact meets_pure ⟨o, us, c, by simp, ho, harguments, hc⟩
  refine meets_kind ?_
  split
  · exact hclose fun _ => meets_pure .nil
  · exact hclose fun _ => meets_commaSeparated (hinner (.above .default))

theorem meets_callOf {hasGeneric : Bool} :
    Meets seen s (callOf Grammar.standard inner hasGeneric) Call.SpelledBy := by
  refine meets_identifier.bind ?_
  rintro function _ s₁ h₁ ⟨⟩
  have hcall : ∀ {p : Parser (Option TypeExpr)},
      (∀ seen, Meets seen s₁ p (Perhaps GenericClause)) →
      Meets (seen ++ [function.token]) s₁
        (do
          let generic ← p
          let arguments ← argumentsOf inner
          return (⟨function, generic, arguments, ← spanFrom function.span.start⟩ : Call))
        fun c ts => c.SpelledBy ([function.token] ++ ts) := by
    intro p hp
    refine (hp _).bind fun generic gs s₂ h₂ hgeneric => ?_
    refine (meets_argumentsOf hinner).bind ?_
    rintro arguments _ s₃ h₃ ⟨o, us, c, rfl, ho, harguments, hc⟩
    refine meets_spanFrom (meets_pure ?_)
    rw [(h₁.append (h₂.append h₃)).spanFrom (by simp)]
    simpa [covering_cons] using Call.SpelledBy.mk function hgeneric ho harguments hc
  cases hasGeneric with
  | false => exact hcall fun _ => meets_pure .none
  | true => exact hcall fun _ => meets_genericClause.map fun _ _ h => .some h

theorem meets_fieldAccessOf : Meets seen s (fieldAccessOf inner) Expr.PrimaryBy := by
  refine meets_identifier.bind ?_
  rintro object _ s₁ h₁ ⟨⟩
  refine (meets_expect (by decide)).bind ?_
  rintro dot _ s₂ h₂ ⟨rfl, hdot⟩
  refine (hinner .primary _ s₂).bind fun member ts s₃ h₃ hmember => ?_
  refine meets_spanFrom (meets_pure ?_)
  rw [(h₁.append (h₂.append h₃)).spanFrom (by simp)]
  simpa [covering_cons] using Expr.PrimaryBy.fieldAccess object hdot hmember

theorem meets_arrayAccessOf : Meets seen s (arrayAccessOf inner) Expr.PrimaryBy := by
  refine meets_identifier.bind ?_
  rintro base _ s₁ h₁ ⟨⟩
  refine (meets_expect (by decide)).bind ?_
  rintro o _ s₂ h₂ ⟨rfl, ho⟩
  refine (hinner .primary _ s₂).bind fun index ts s₃ h₃ hindex => ?_
  refine (meets_expect (by decide)).bind ?_
  rintro c _ s₄ h₄ ⟨rfl, hc⟩
  refine meets_spanFrom (meets_pure ?_)
  rw [(h₁.append (h₂.append (h₃.append h₄))).spanFrom (by simp)]
  simpa [covering_cons] using Expr.PrimaryBy.arrayAccess base ho hindex hc

theorem meets_namedOf (hname : s.current.kind = .identifier) :
    Meets seen s (namedOf Grammar.standard inner) Expr.PrimaryBy := by
  have hcall : ∀ hasGeneric, Meets seen s
      (do return .call (← callOf Grammar.standard inner hasGeneric)) Expr.PrimaryBy := by
    intro hasGeneric
    refine (meets_callOf hinner).bind fun c ts s₁ _ hc => meets_pure ?_
    simpa using Expr.PrimaryBy.call hc
  have hidentifier : Meets seen s (do return .identifier (← identifier "identifier"))
      Expr.PrimaryBy := by
    refine meets_identifier.bind ?_
    rintro name _ s₁ - ⟨⟩
    exact meets_pure (.identifier name)
  refine meets_peekKind ?_
  split
  · exact hcall false
  · refine (looks_genericThen hname .openParen).meets fun found => ?_
    split
    · exact hcall true
    · exact hidentifier
  · exact meets_fieldAccessOf hinner
  · exact meets_arrayAccessOf hinner
  · exact hidentifier

theorem meets_rangeOf : Meets seen s (rangeOf inner) Range.SpelledBy := by
  refine (hinner (.above .default) seen s).bind fun first fs s₁ _ hfirst => ?_
  refine (meets_expect (by decide)).bind ?_
  rintro dots _ s₂ - ⟨rfl, hdots⟩
  refine (meets_skip? (by decide)).bind fun inclusive es s₃ _ hinclusive => ?_
  refine (hinner (.above .default) _ s₃).bind fun last ls s₄ _ hlast => meets_pure ?_
  simpa using Range.SpelledBy.mk hfirst hdots hinclusive hlast

theorem meets_matchKeyOf : Meets seen s (matchKeyOf inner) MatchKey.SpelledBy := by
  refine meets_kind (meets_peekKind ?_)
  split
  · refine meets_identifier.bind ?_
    rintro name _ s₁ - ⟨⟩
    exact meets_pure (.identifier name)
  · refine meets_constantList.bind fun l ts s₁ _ hl => meets_pure ?_
    simpa using MatchKey.SpelledBy.constants hl
  · refine meets_number.bind fun n ts s₁ _ hn => meets_pure ?_
    simpa using MatchKey.SpelledBy.number hn
  · refine meets_charLiteral.bind fun l ts s₁ _ hl => meets_pure ?_
    simpa using MatchKey.SpelledBy.char hl
  · refine (meets_rangeOf hinner).bind fun r ts s₁ _ hr => meets_pure ?_
    simpa using MatchKey.SpelledBy.range hr

theorem meets_matchArmOf : Meets seen s (matchArmOf inner) MatchArm.SpelledBy := by
  refine meets_position ?_
  refine (meets_matchKeyOf hinner).bind fun key ks s₁ h₁ hkey => ?_
  refine (meets_expect (by decide)).bind ?_
  rintro arrow _ s₂ h₂ ⟨rfl, harrow⟩
  refine (hinner (.above .default) _ s₂).bind fun value vs s₃ h₃ hvalue => ?_
  refine (meets_expect (by decide)).bind ?_
  rintro comma _ s₄ h₄ ⟨rfl, hcomma⟩
  refine meets_spanFrom (meets_pure ?_)
  rw [(h₁.append (h₂.append (h₃.append h₄))).covering (by simp)]
  simpa using MatchArm.SpelledBy.mk hkey harrow hvalue hcomma

theorem meets_matchOf : Meets seen s (matchOf inner) Match.SpelledBy := by
  refine (meets_expect (by decide)).bind ?_
  rintro word _ s₁ h₁ ⟨rfl, hword⟩
  refine (hinner (.above .default) _ s₁).bind fun value vs s₂ h₂ hvalue => ?_
  refine Meets.braced (meets_manyWhile fun _ _ _ => meets_matchArmOf hinner) ?_
  intro arms o ts c s₃ h₃ ho harms hc
  refine ⟨_, rfl, ?_⟩
  rw [(h₁.append (h₂.append h₃)).spanFrom (by simp)]
  simpa [covering_cons] using Match.SpelledBy.mk hword hvalue ho harms hc

theorem meets_primaryOf :
    Meets seen s (primaryOf Grammar.standard inner) Expr.PrimaryBy := by
  refine meets_kind ?_
  split
  · exact meets_unexpected _ _
  · refine meets_number.bind fun n ts s₁ _ hn => meets_pure ?_
    simpa using Expr.PrimaryBy.number hn
  · refine meets_charLiteral.bind fun l ts s₁ _ hl => meets_pure ?_
    simpa using Expr.PrimaryBy.char hl
  · refine meets_stringLiteral.bind fun l ts s₁ _ hl => meets_pure ?_
    simpa using Expr.PrimaryBy.string hl
  · next hform => exact meets_constant hform
  · next hform =>
    -- Only a name starts this form.
    refine meets_namedOf hinner ?_
    simp only [Grammar.standard] at hform
    split at hform <;> simp_all
  · refine (meets_matchOf hinner).bind fun m ts s₁ _ hm => meets_pure ?_
    simpa using Expr.PrimaryBy.matching hm

/-! ### Operators -/

/-- The tokens go on with the expression `left`: behind a spelling of `left` they make a
spelling of the whole. -/
def Continues (left whole : Expr) (ts : List Token) : Prop :=
  ∀ ls, left.SpelledBy ls → whole.SpelledBy (ls ++ ts)

theorem meets_binaryOf {left : Expr} {power : BindingPower} :
    Meets seen s (binaryOf inner left power) (Continues left) := by
  refine meets_kind ?_
  split
  · exact meets_unexpected _ _
  · next op hop =>
    have hkind := BinaryOperator.ofKind?_eq_some_iff.mp hop
    refine (meets_advance (by rw [hkind]; cases op <;> decide)).bind ?_
    rintro t _ s₁ - ⟨rfl, rfl⟩
    refine (hinner (.above power) _ s₁).bind fun right rs s₂ _ hright => meets_pure ?_
    intro ls hleft
    simpa using Expr.SpelledBy.binary hleft hkind hright

omit hinner in
/-- Trying a type and undoing all failures but those about a generic argument. -/
theorem castTarget_run (g : Grammar) (s : State) :
    castTarget g s =
      if s.current.kind = .identifier ∧ (s.peek 1).kind = .symbol .less then
        match typeExpr g s with
        | .ok target s' => .ok target s'
        | .error d s' =>
          match d.cause with
          | .malformedGeneric _ => .error d s'
          | _ => (identifier "type" >>= fun name => pure (.named name))
            (s'.restore s.toTokenCursor)
      else typeExpr g s := by
  show (if s.current.kind = .identifier ∧ (s.peek 1).kind = .symbol .less then _ else _ :
    Parser TypeExpr) s = _
  split
  · show (attempt (typeExpr g) >>= _) s = _
    rw [bind_run]
    unfold attempt
    cases typeExpr g s with
    | ok target s' => rfl
    | error d s' =>
      obtain ⟨cause, span⟩ := d
      cases cause <;> rfl
  · rfl

omit hinner in
theorem meets_castTarget : Meets seen s (castTarget Grammar.standard) TypeExpr.SpelledBy := by
  have hgo := castTarget_run Grammar.standard s
  by_cases hahead : s.current.kind = .identifier ∧ (s.peek 1).kind = .symbol .less
  · rw [if_pos hahead] at hgo
    have htype : Meets seen s (typeExpr Grammar.standard) TypeExpr.SpelledBy := meets_typeExpr
    cases hrun : typeExpr Grammar.standard s with
    | ok target s' =>
      obtain ⟨ts, hread, hbal, hrange, htarget⟩ := htype.inRange_of_ok hrun
      rw [hrun] at hgo
      exact meets_ok hgo hread hbal hrange htarget
    | error d s' =>
      obtain ⟨ts, hread, hopen, hheeds, hd⟩ := htype.heeds_of_error hrun
      have hname : Meets seen s (identifier "type" >>= fun name => pure (.named name))
          TypeExpr.SpelledBy := by
        refine meets_identifier.bind ?_
        rintro name _ s₁ - ⟨⟩
        exact meets_pure (.named name)
      rw [hrun] at hgo
      -- Reading a type leaves no trace, so that coming back to the name is coming back to `s`.
      simp only [hread.restore (faultless_typeExpr.of_error hrun)] at hgo
      obtain ⟨cause, span⟩ := d
      cases cause with
      | malformedGeneric => exact meets_error hgo hread hopen hheeds hd
      | _ => exact Meets.congr hgo hname
  · rw [if_neg hahead] at hgo
    exact Meets.congr hgo meets_typeExpr

omit hinner in
theorem meets_typecastOf {left : Expr} :
    Meets seen s (typecastOf Grammar.standard left) (Continues left) := by
  refine (meets_expect (by decide)).bind ?_
  rintro word _ s₁ h₁ ⟨rfl, hword⟩
  refine meets_castTarget.bind fun target ts s₂ h₂ htarget => ?_
  refine meets_spanFrom (meets_pure ?_)
  intro ls hleft
  rw [(h₁.append h₂).spanFrom (by simp), ← spanning_append _ ls _ (by simp)]
  simpa using Expr.SpelledBy.typecast hleft hword htarget

theorem meets_operatorsOf {power : BindingPower} {left : Expr} :
    Meets seen s (operatorsOf Grammar.standard inner power left) (Continues left) := by
  refine meets_fix (V := Continues) ?_ left seen s
  intro more hmore left seen s
  refine meets_kind ?_
  split
  · exact meets_pure fun ls hleft => by simpa using hleft
  · split
    · -- What one operator makes of `left` is what the loop goes on with.
      have hgo : ∀ {p : Parser Expr}, Meets seen s p (Continues left) →
          Meets seen s (p >>= more) (Continues left) := by
        intro p hp
        refine hp.bind fun whole ts s₁ _ hwhole => ?_
        refine (hmore whole _ s₁).mono fun e us he ls hleft => ?_
        rw [← List.append_assoc]
        exact he _ (hwhole ls hleft)
      split
      · exact hgo (meets_binaryOf hinner)
      · exact hgo meets_typecastOf
    · exact meets_pure fun ls hleft => by simpa using hleft

theorem meets_goalOf (goal : Goal) :
    Meets seen s (goalOf Grammar.standard inner goal) goal.SpelledBy := by
  cases goal with
  | primary => exact meets_primaryOf hinner
  | above power =>
    refine (meets_primaryOf hinner).bind fun e ts s₁ _ he => ?_
    exact (meets_operatorsOf hinner).mono fun whole us hwhole => hwhole ts (.primary he)

end

/-- Reading what is asked for reads a spelling of it. -/
theorem meets_goal (goal : Goal) :
    Meets seen s (Parser.goal Grammar.standard goal) goal.SpelledBy :=
  meets_fix (fun _ hself goal _ _ => meets_goalOf hself goal) goal seen s

theorem meets_expression {power : BindingPower} :
    Meets seen s (expression Grammar.standard power) Expr.SpelledBy :=
  meets_goal (.above power)

theorem meets_primary : Meets seen s (primary Grammar.standard) Expr.PrimaryBy :=
  meets_goal .primary

theorem meets_matchExpr : Meets seen s (matchExpr Grammar.standard) Match.SpelledBy :=
  meets_matchOf fun goal _ _ => meets_goal goal

theorem meets_range : Meets seen s (range Grammar.standard) Range.SpelledBy :=
  meets_rangeOf fun goal _ _ => meets_goal goal

/-! ### First values -/

theorem meets_fieldInit : Meets seen s (fieldInit Grammar.standard) FieldInit.SpelledBy := by
  refine meets_identifier.bind ?_
  rintro name _ s₁ h₁ ⟨⟩
  refine (meets_expect (by decide)).bind ?_
  rintro colon _ s₂ h₂ ⟨rfl, hcolon⟩
  refine meets_expression.bind fun value vs s₃ h₃ hvalue => ?_
  refine (meets_skip? (by decide)).bind fun b ss s₄ h₄ hsemi => ?_
  refine meets_spanFrom (meets_pure ?_)
  rw [(h₁.append (h₂.append (h₃.append h₄))).spanFrom (by simp)]
  simpa [covering_cons] using FieldInit.SpelledBy.mk name hcolon hvalue hsemi

theorem meets_structInit : Meets seen s (structInit Grammar.standard) StructInit.SpelledBy := by
  refine meets_identifier.bind ?_
  rintro name _ s₁ h₁ ⟨⟩
  refine meets_genericClause?.bind fun generic gs s₂ h₂ hgeneric => ?_
  refine Meets.braced (meets_manyWhile fun _ _ _ => meets_fieldInit) ?_
  intro fields o ts c s₃ h₃ ho hfields hc
  refine ⟨_, rfl, ?_⟩
  rw [(h₁.append (h₂.append h₃)).spanFrom (by simp)]
  simpa [covering_cons] using StructInit.SpelledBy.mk name hgeneric ho hfields hc

theorem looks_structInitAhead : Looks s (structInitAhead Grammar.standard) := by
  refine looks_kind (looks_peekKind ?_)
  split
  · exact ⟨true, rfl⟩
  · next hname _ => exact looks_genericThen hname .openCurly
  · exact ⟨false, rfl⟩

theorem meets_initializer : Meets seen s (initializer Grammar.standard) InitializerBy := by
  refine looks_structInitAhead.meets fun found => ?_
  split
  · refine meets_structInit.bind fun init ts s₁ _ hinit => meets_pure ?_
    simpa using InitializerBy.structInit hinit
  · exact meets_expression.mono fun e ts he => .expression he

end Parser

end FrontEnd
