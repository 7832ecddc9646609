/-
Comparing what has been cast.

Behind `as` and a name an angle bracket is either a generic clause or a comparison.  The
clause is tried; where it does not close, the bracket is a comparison, and `v as T < e` is
`(v as T) < e`.  Not every clause that does not close is given up, though:

* one whose argument is a type that cannot be an argument, as `a<b>` in `v as T < a<b>(c)`,
  is reported and not given up;
* behind a star or an ampersand no clause is given up, so that `v as *T < e` cannot be read.

`cast_compared` says exactly which of the two happens, for any operand `e` that is read with
the power of a comparison; `cast_not_compared` has a text for each of the exceptions.
-/
import FrontEnd.Proofs.Expr.Lookahead
import FrontEnd.Proofs.Expr.Precedence
import FrontEnd.Proofs.Grammar.Recursion

namespace FrontEnd.Parser

variable {s s' : State}

/-! ### Clauses that do not close -/

/-- What is next is no argument for a generic clause: a type that is not plain, or one whose
own argument is not. -/
def Malformed (s : State) : Prop :=
  (∃ type s', typeExpr Grammar.standard s = .ok type s' ∧ type.isPlain = false) ∨
    ∃ d s' text, typeExpr Grammar.standard s = .error d s' ∧ d.cause = .malformedGeneric text

/-- What is next is not a type with a closing angle bracket behind it. -/
def Unclosed (s : State) : Prop :=
  ∀ type s', typeExpr Grammar.standard s = .ok type s' → s'.current.kind ≠ .symbol .greater

theorem malformed_iff_of_ok {type : TypeExpr} (h : typeExpr Grammar.standard s = .ok type s') :
    Malformed s ↔ type.isPlain = false := by
  constructor
  · rintro (⟨type', s'', h', hplain⟩ | ⟨d, s'', text, h', -⟩)
    · obtain ⟨rfl, -⟩ := EStateM.Result.ok.inj (h.symm.trans h')
      exact hplain
    · exact absurd (h.symm.trans h') (by simp)
  · intro hplain
    exact .inl ⟨type, s', h, hplain⟩

theorem malformed_iff_of_error {d : Diagnostic} (h : typeExpr Grammar.standard s = .error d s') :
    Malformed s ↔ ∃ text, d.cause = .malformedGeneric text := by
  constructor
  · rintro (⟨type, s'', h', -⟩ | ⟨d', s'', text, h', htext⟩)
    · exact absurd (h.symm.trans h') (by simp)
    · obtain ⟨rfl, -⟩ := EStateM.Result.error.inj (h.symm.trans h')
      exact ⟨text, htext⟩
  · rintro ⟨text, htext⟩
    exact .inr ⟨d, s', text, h, htext⟩

/-- A clause is read as its argument is. -/
theorem genericClause_run (h : s.current.kind = .symbol .less) :
    genericClause Grammar.standard s =
      match typeExpr Grammar.standard s.advance with
      | .ok type s₁ =>
        if type.isPlain then
          if s₁.current.kind = .symbol .greater then .ok type s₁.advance
          else .error (s₁.notFound "generic" Symbol.greater) s₁
        else .error ⟨.malformedGeneric type.nodeKind.name, type.span⟩ s₁
      | .error d s₁ => .error d s₁ := by
  have hopen : expect Symbol.less "generic" s = .ok s.current s.advance := by
    rw [expect_run, if_pos h]
  unfold genericClause genericClauseOf
  rw [bind_of_ok hopen]
  cases htype : typeExpr Grammar.standard s.advance with
  | error d s₁ => exact bind_of_error htype
  | ok type s₁ =>
    rw [bind_of_ok htype]
    cases hplain : type.isPlain with
    | false => simp only [hplain]; rfl
    | true =>
      simp only [hplain, if_true]
      rw [bind_run, expect_run]
      split <;> rfl

/-- A clause that does not close fails, and says why: it is the argument that is wrong exactly
if the argument is malformed. -/
theorem genericClause_of_unclosed (hless : s.current.kind = .symbol .less)
    (h : Unclosed s.advance) :
    ∃ d s', genericClause Grammar.standard s = .error d s' ∧
      ((∃ text, d.cause = .malformedGeneric text) ↔ Malformed s.advance) := by
  rw [genericClause_run hless]
  cases htype : typeExpr Grammar.standard s.advance with
  | error d s₁ => exact ⟨d, s₁, rfl, (malformed_iff_of_error htype).symm⟩
  | ok type s₁ =>
    rw [malformed_iff_of_ok htype]
    cases hplain : type.isPlain with
    | true =>
      -- A plain argument is not closed by the next token, and it is that token that is reported.
      simp only [hplain, if_true, if_neg (h type s₁ htype)]
      refine ⟨_, s₁, rfl, iff_of_false ?_ (by simp)⟩
      simp [State.notFound, State.notFound.missing]
    | false => exact ⟨_, s₁, by simp only [hplain]; rfl, iff_of_true ⟨_, rfl⟩ rfl⟩

/-! ### Targets that end in a name -/

/-- In `s'` a name with an angle bracket behind it is next, and `n` marks of pointers and
references stand between `s` and `s'`. -/
inductive Marked : Nat → State → State → Prop
  | name {s : State} (hname : s.current.kind = .identifier)
      (hless : (s.peek 1).kind = .symbol .less) : Marked 0 s s
  | mark {n : Nat} {s s' : State}
      (hmark : s.current.kind ∈ [Symbol.star, .ampersand, .and].map Kind.symbol)
      (h : Marked n s.advance s') : Marked (n + 1) s s'

/-- A type is read as its first token says. -/
theorem typeExpr_run {k : Kind} (h : s.current.kind = k) :
    typeExpr Grammar.standard s =
      (match Grammar.standard.type? k with
        | none => unexpected "type" typeStart
        | some .pointer => pointerTypeOf (typeExpr Grammar.standard)
        | some .reference => referenceTypeOf (typeExpr Grammar.standard)
        | some .doubleReference => doubleReferenceTypeOf (typeExpr Grammar.standard)
        | some .array => arrayTypeOf (typeExpr Grammar.standard)
        | some .string => stringType
        | some .named => namedTypeOf (typeExpr Grammar.standard)
        | some .primitive => primitiveType : Parser TypeExpr) s := by
  have hbody : typeExpr Grammar.standard =
      typeExprOf Grammar.standard (typeExpr Grammar.standard) := Recursion.type.eq_body ()
  have hkind : kind s = .ok k s := by
    rw [← h]
    rfl
  exact (congrFun hbody s).trans (bind_of_ok hkind)

/-- A type that starts with a name is the name, or has an argument. -/
theorem typeExpr_of_name (h : s.current.kind = .identifier) :
    typeExpr Grammar.standard s =
      if s.advance.current.kind = .symbol .less then
        match genericClause Grammar.standard s.advance with
        | .ok argument s₁ =>
          .ok (.generic ⟨s.current.text, s.current.span⟩ argument
            (s₁.spanFrom s.current.span.start)) s₁
        | .error d s₁ => .error d s₁
      else .ok (.named ⟨s.current.text, s.current.span⟩) s.advance := by
  rw [typeExpr_run h]
  show namedTypeOf (typeExpr Grammar.standard) s = _
  rw [namedTypeOf, bind_of_ok (identifier_of_kind h _), kind_bind_run]
  split
  · show (genericClause Grammar.standard >>= _) s.advance = _
    rw [bind_run]
    cases genericClause Grammar.standard s.advance <;> rfl
  · rfl

/-- A name cannot be read as a type if the clause behind it cannot be read. -/
theorem typeExpr_of_less {d : Diagnostic} (hname : s.current.kind = .identifier)
    (hless : (s.peek 1).kind = .symbol .less)
    (hclause : genericClause Grammar.standard s.advance = .error d s') :
    typeExpr Grammar.standard s = .error d s' := by
  have hnext : s.advance.current.kind = .symbol .less := by
    rw [current_advance (by rw [hname]; simp), hless]
  rw [typeExpr_of_name hname, if_pos hnext, hclause]

/-- Nor can what a mark stands before be read if it cannot be read without the mark. -/
theorem typeExpr_of_mark {d : Diagnostic}
    (hmark : s.current.kind ∈ [Symbol.star, .ampersand, .and].map Kind.symbol)
    (herror : typeExpr Grammar.standard s.advance = .error d s') :
    typeExpr Grammar.standard s = .error d s' := by
  have hexpect : ∀ symbol production, s.current.kind = .symbol symbol →
      expect (.symbol symbol) production s = .ok s.current s.advance := by
    intro symbol production hkind
    rw [expect_run, if_pos hkind]
  simp only [List.map_cons, List.map_nil, List.mem_cons, List.not_mem_nil, or_false] at hmark
  rcases hmark with hmark | hmark | hmark
  · rw [typeExpr_run hmark]
    exact (bind_of_ok (hexpect .star _ hmark)).trans (bind_of_error herror)
  · rw [typeExpr_run hmark]
    exact (bind_of_ok (hexpect .ampersand _ hmark)).trans (bind_of_error herror)
  · rw [typeExpr_run hmark]
    exact (bind_of_ok (hexpect .and _ hmark)).trans (bind_of_error herror)

theorem Marked.name_less {n : Nat} (h : Marked n s s') :
    s'.current.kind = .identifier ∧ (s'.peek 1).kind = .symbol .less := by
  induction h with
  | name hname hless => exact ⟨hname, hless⟩
  | mark _ _ ih => exact ih

/-- A target that ends in a name cannot be read if the clause behind the name cannot. -/
theorem Marked.typeExpr {n : Nat} (h : Marked n s s') {d : Diagnostic} {s'' : State}
    (hclause : genericClause Grammar.standard s'.advance = .error d s'') :
    Parser.typeExpr Grammar.standard s = .error d s'' := by
  induction h with
  | name hname hless => exact typeExpr_of_less hname hless hclause
  | mark hmark _ ih => exact typeExpr_of_mark hmark (ih hclause)

/-! ### The target of a cast -/

/-- A type that can be read is what an expression is cast to. -/
theorem castTarget_of_ok {target : TypeExpr} (h : typeExpr Grammar.standard s = .ok target s') :
    castTarget Grammar.standard s = .ok target s' := by
  rw [castTarget_run, h]
  split <;> rfl

/-- If a name with a bracket behind it cannot be read as a type, it is the target itself, unless
an argument is malformed. -/
theorem castTarget_of_error {d : Diagnostic} (hname : s.current.kind = .identifier)
    (hless : (s.peek 1).kind = .symbol .less) (herror : typeExpr Grammar.standard s = .error d s')
    (hcause : ¬ ∃ text, d.cause = .malformedGeneric text) :
    castTarget Grammar.standard s =
      .ok (.named ⟨s.current.text, s.current.span⟩) s.advance := by
  have hmeets : Meets [] s (typeExpr Grammar.standard) TypeExpr.SpelledBy := meets_typeExpr
  obtain ⟨ts, hread, -, -⟩ := hmeets.of_error herror
  rw [castTarget_run, if_pos ⟨hname, hless⟩, herror]
  -- The failure is undone, and reading a type leaves no trace.
  simp only [hread.restore (faultless_typeExpr.of_error herror)]
  split
  · next text htext => exact absurd ⟨text, htext⟩ hcause
  · exact bind_of_ok (identifier_of_kind hname _)

/-- Nothing else is a target. -/
theorem castTarget_eq_ok {target : TypeExpr} (h : castTarget Grammar.standard s = .ok target s') :
    typeExpr Grammar.standard s = .ok target s' ∨
      (s.current.kind = .identifier ∧ (s.peek 1).kind = .symbol .less) ∧
        (∃ d s₁, typeExpr Grammar.standard s = .error d s₁ ∧
          ¬ ∃ text, d.cause = .malformedGeneric text) ∧
        target = .named ⟨s.current.text, s.current.span⟩ ∧ s' = s.advance := by
  cases htype : typeExpr Grammar.standard s with
  | ok type s₁ => exact .inl ((castTarget_of_ok htype).symm.trans h)
  | error d s₁ =>
    by_cases hahead : s.current.kind = .identifier ∧ (s.peek 1).kind = .symbol .less
    · by_cases hcause : ∃ text, d.cause = .malformedGeneric text
      · obtain ⟨text, htext⟩ := hcause
        rw [castTarget_run, if_pos hahead, htype] at h
        simp only [htext] at h
        cases h
      · obtain ⟨rfl, rfl⟩ := EStateM.Result.ok.inj
          (h.symm.trans (castTarget_of_error hahead.1 hahead.2 htype hcause))
        exact .inr ⟨hahead, ⟨d, s₁, rfl, hcause⟩, rfl, rfl⟩
    · rw [castTarget_run, if_neg hahead, htype] at h
      cases h

/-- A name whose clause does not close is the target, unless its argument is malformed. -/
theorem castTarget_of_name (hname : s.current.kind = .identifier)
    (hless : (s.peek 1).kind = .symbol .less) (hopen : Unclosed s.advance.advance)
    (hformed : ¬ Malformed s.advance.advance) :
    castTarget Grammar.standard s =
      .ok (.named ⟨s.current.text, s.current.span⟩) s.advance := by
  have hnext : s.advance.current.kind = .symbol .less := by
    rw [current_advance (by rw [hname]; simp), hless]
  obtain ⟨d, s', hclause, hcause⟩ := genericClause_of_unclosed hnext hopen
  exact castTarget_of_error hname hless (typeExpr_of_less hname hless hclause)
    fun h => hformed (hcause.mp h)

/-- A clause with a malformed argument is reported as such. -/
theorem castTarget_of_malformed (hname : s.current.kind = .identifier)
    (hless : (s.peek 1).kind = .symbol .less) (hopen : Unclosed s.advance.advance)
    (hmalformed : Malformed s.advance.advance) :
    ∃ d s' text, castTarget Grammar.standard s = .error d s' ∧
      d.cause = .malformedGeneric text := by
  have hnext : s.advance.current.kind = .symbol .less := by
    rw [current_advance (by rw [hname]; simp), hless]
  obtain ⟨d, s', hclause, hcause⟩ := genericClause_of_unclosed hnext hopen
  obtain ⟨text, htext⟩ := hcause.mpr hmalformed
  refine ⟨d, s', text, ?_, htext⟩
  rw [castTarget_run, if_pos ⟨hname, hless⟩, typeExpr_of_less hname hless hclause]
  simp only [htext]

/-- Behind a mark a clause that does not close is not given up. -/
theorem castTarget_of_marked {n : Nat} (h : Marked (n + 1) s s')
    (hopen : Unclosed s'.advance.advance) :
    ∃ d s'', castTarget Grammar.standard s = .error d s'' := by
  obtain ⟨hname, hless⟩ := h.name_less
  have hnext : s'.advance.current.kind = .symbol .less := by
    rw [current_advance (by rw [hname]; simp), hless]
  obtain ⟨d, s'', hclause, -⟩ := genericClause_of_unclosed hnext hopen
  refine ⟨d, s'', ?_⟩
  rw [castTarget_run, if_neg, h.typeExpr hclause]
  rintro ⟨hidentifier, -⟩
  cases h with
  | mark hmark _ => simp [hidentifier] at hmark

/-! ### The operators behind an expression -/

/-- An expression is one without operators and the operators behind it. -/
theorem expression_eq (power : BindingPower) :
    expression Grammar.standard power =
      primary Grammar.standard >>= operatorsOf Grammar.standard (goal Grammar.standard) power := by
  have hprimary : primary Grammar.standard = primaryOf Grammar.standard (goal Grammar.standard) :=
    Recursion.expression.eq_body .primary
  rw [hprimary]
  exact Recursion.expression.eq_body (.above power)

section

variable {power : BindingPower} {left e : Expr}

/-- A cast goes on with an expression. -/
theorem operatorsOf_of_cast (hpower : BindingPower.cast.tighter power)
    (hkind : s.current.kind = .keyword .asKw) :
    operatorsOf Grammar.standard (goal Grammar.standard) power left s =
      (typecastOf Grammar.standard left >>=
        operatorsOf Grammar.standard (goal Grammar.standard) power) s := by
  have hnext : kind s = .ok (.keyword .asKw) s := by
    rw [← hkind]
    rfl
  rw [(Recursion.operators power).eq_body left, operatorsStep, bind_of_ok hnext]
  show (if BindingPower.cast.tighter power then _ else _ : Parser Expr) s = _
  rw [if_pos hpower]

/-- A comparison goes on with an expression. -/
theorem operatorsOf_of_less (hpower : BindingPower.comparison.tighter power)
    (hkind : s.current.kind = .symbol .less)
    (hright : expression Grammar.standard .comparison s.advance = .ok e s') :
    operatorsOf Grammar.standard (goal Grammar.standard) power left s =
      operatorsOf Grammar.standard (goal Grammar.standard) power
        (Chain.join left ⟨.less, s.current.span⟩ e) s' := by
  have hnext : kind s = .ok (.symbol .less) s := by
    rw [← hkind]
    rfl
  have hadvance : advance s = .ok s.current s.advance := rfl
  have hbinary : binaryOf (goal Grammar.standard) left .comparison s =
      .ok (Chain.join left ⟨.less, s.current.span⟩ e) s' := by
    rw [binaryOf, bind_of_ok hnext]
    show (advance >>= _) s = _
    rw [bind_of_ok hadvance]
    exact bind_of_ok hright
  rw [(Recursion.operators power).eq_body left, operatorsStep, bind_of_ok hnext]
  show (if BindingPower.comparison.tighter power then _ else _ : Parser Expr) s = _
  rw [if_pos hpower]
  exact bind_of_ok hbinary

/-- An operator that does not bind tighter is left alone. -/
theorem operatorsOf_of_not_tighter
    (h : (Grammar.standard.bindingPower s.current.kind).tighter power = false) :
    operatorsOf Grammar.standard (goal Grammar.standard) power left s = .ok left s := by
  rw [operatorsOf_run]
  unfold Grammar.bindingPower at h
  split
  · rfl
  · next next form hop =>
    rw [hop] at h
    exact if_neg (by simpa using h)

end

/-! ### Comparing what has been cast -/

/-- The comparison of `v`, cast to the name that is next in `s`, with `e`. -/
def compared (v : Expr) (s : State) (e : Expr) : Expr :=
  Chain.join
    (.typecast v (.named ⟨s.current.text, s.current.span⟩) (s.advance.spanFrom v.span.start))
    ⟨.less, (s.peek 1).span⟩ e

/-- In `s` an expression `v` without operators stands before `as`, before `n` marks of pointers
and references, before the name that is next in `s₁`, before `<` and before `e`, an operand of
a comparison, which ends at `s₂` and does not start with a type that is closed by `>`. -/
structure CastBefore (s : State) (v : Expr) (n : Nat) (s₁ : State) (e : Expr) (s₂ : State) :
    Prop where
  value : ∃ s₀, primary Grammar.standard s = .ok v s₀ ∧ s₀.current.kind = .keyword .asKw ∧
    Marked n s₀.advance s₁
  operand : expression Grammar.standard .comparison s₁.advance.advance = .ok e s₂
  unclosed : Unclosed s₁.advance.advance

/-- **A cast can be compared.**  Let a cast to a name, or to a name behind marks of pointers and
references, stand before `<` and an operand that does not start with a type closed by `>`.

* To a name alone, `<` compares the cast with the operand, unless the operand starts with a
  type that cannot be a generic argument; the expression ends there if what follows does not
  bind tighter than asked for.
* In the excepted case the type is reported.
* With marks before the name the whole cannot be read. -/
theorem cast_compared {power : BindingPower} {v e : Expr} {n : Nat} {s s₁ s₂ : State}
    (h : CastBefore s v n s₁ e s₂) (hpower : BindingPower.comparison.tighter power) :
    (n = 0 → ¬ Malformed s₁.advance.advance →
      expression Grammar.standard power s =
        operatorsOf Grammar.standard (goal Grammar.standard) power (compared v s₁ e) s₂ ∧
      ((Grammar.standard.bindingPower s₂.current.kind).tighter power = false →
        expression Grammar.standard power s = .ok (compared v s₁ e) s₂)) ∧
    (n = 0 → Malformed s₁.advance.advance → ∃ d s' text,
      expression Grammar.standard power s = .error d s' ∧ d.cause = .malformedGeneric text) ∧
    (0 < n → ∃ d s', expression Grammar.standard power s = .error d s') := by
  obtain ⟨⟨s₀, hv, has, htarget⟩, he, hopen⟩ := h
  have hcast : BindingPower.cast.tighter power := by
    cases power <;> first | rfl | exact absurd hpower (by decide)
  obtain ⟨hname, hless⟩ := htarget.name_less
  have hword : expect Keyword.asKw "typecast" s₀ = .ok s₀.current s₀.advance := by
    rw [expect_run, if_pos has]
  -- The cast is what the expression goes on with, so that its failure is that of the whole.
  have hgo : expression Grammar.standard power s =
      (typecastOf Grammar.standard v >>=
        operatorsOf Grammar.standard (goal Grammar.standard) power) s₀ := by
    rw [expression_eq, bind_of_ok hv, operatorsOf_of_cast hcast has]
  have hfails : ∀ {d s'}, castTarget Grammar.standard s₀.advance = .error d s' →
      expression Grammar.standard power s = .error d s' := by
    intro d s' herror
    rw [hgo]
    refine bind_of_error ?_
    rw [typecastOf, bind_of_ok hword, bind_of_error herror]
  refine ⟨?_, ?_, ?_⟩
  · rintro rfl hformed
    cases htarget with
    | name _ _ =>
      have htyped : typecastOf Grammar.standard v s₀ =
          .ok (.typecast v (.named ⟨s₀.advance.current.text, s₀.advance.current.span⟩)
            (s₀.advance.advance.spanFrom v.span.start)) s₀.advance.advance := by
        rw [typecastOf, bind_of_ok hword, bind_of_ok (castTarget_of_name hname hless hopen hformed)]
        rfl
      have hnext := current_advance (s := s₀.advance) (by rw [hname]; simp)
      have hcompared : expression Grammar.standard power s =
          operatorsOf Grammar.standard (goal Grammar.standard) power
            (compared v s₀.advance e) s₂ := by
        rw [hgo, bind_of_ok htyped, operatorsOf_of_less hpower (by rw [hnext, hless]) he, hnext]
        rfl
      exact ⟨hcompared, fun hweaker => hcompared.trans (operatorsOf_of_not_tighter hweaker)⟩
  · rintro rfl hmalformed
    cases htarget with
    | name _ _ =>
      obtain ⟨d, s', text, herror, htext⟩ := castTarget_of_malformed hname hless hopen hmalformed
      exact ⟨d, s', text, hfails herror, htext⟩
  · intro hpos
    obtain ⟨m, rfl⟩ := Nat.exists_eq_add_of_lt hpos
    obtain ⟨d, s', herror⟩ := castTarget_of_marked (n := m) (by simpa using htarget) hopen
    exact ⟨d, s', hfails herror⟩

/-! ### Texts -/

/-- The parser succeeds, and what it gives passes the check. -/
def succeeds {α : Type} (p : Parser α) (s : State) (check : α → State → Bool) : Bool :=
  match p s with
  | .ok a s' => check a s'
  | .error _ _ => false

theorem exists_of_succeeds {α : Type} {p : Parser α} {check : α → State → Bool}
    (h : succeeds p s check = true) : ∃ a s', p s = .ok a s' ∧ check a s' = true := by
  unfold succeeds at h
  cases hrun : p s with
  | ok a s' => exact ⟨a, s', rfl, by simpa [hrun] using h⟩
  | error d s' => simp [hrun] at h

theorem exists_error_of_not_succeeds {α : Type} {p : Parser α}
    (h : succeeds p s (fun _ _ => true) = false) : ∃ d s', p s = .error d s' := by
  unfold succeeds at h
  cases hrun : p s with
  | ok a s' => simp [hrun] at h
  | error d s' => exact ⟨d, s', rfl⟩

/-- The state in which a name with an angle bracket behind it is next, behind `n` marks. -/
def marked? : Nat → State → Option State
  | 0, s => if s.current.kind = .identifier ∧ (s.peek 1).kind = .symbol .less then some s else none
  | n + 1, s =>
    if s.current.kind ∈ [Symbol.star, .ampersand, .and].map Kind.symbol then marked? n s.advance
    else none

theorem marked_of_marked? {n : Nat} (h : marked? n s = some s') : Marked n s s' := by
  induction n generalizing s with
  | zero =>
    obtain ⟨⟨hname, hless⟩, hs⟩ := Option.ite_none_right_eq_some.mp h
    obtain rfl := Option.some.inj hs
    exact .name hname hless
  | succ n ih =>
    obtain ⟨hmark, hmore⟩ := Option.ite_none_right_eq_some.mp h
    exact .mark hmark (ih hmore)

/-- A cast to a name behind `n` marks stands before `<` and an operand; the operand starts with
a type that is not closed by `>` and is plain or not, as asked for. -/
def castBefore? (n : Nat) (plain : Bool) (s : State) : Bool :=
  succeeds (primary Grammar.standard) s fun _ s₀ =>
    s₀.current.kind == .keyword .asKw &&
      (marked? n s₀.advance).any fun s₁ =>
        succeeds (typeExpr Grammar.standard) s₁.advance.advance (fun type s' =>
          type.isPlain == plain && s'.current.kind != .symbol .greater) &&
        succeeds (expression Grammar.standard .comparison) s₁.advance.advance fun _ _ => true

theorem exists_castBefore (n : Nat) (plain : Bool) (s : State) (h : castBefore? n plain s = true) :
    ∃ v s₁ e s₂, CastBefore s v n s₁ e s₂ ∧ (Malformed s₁.advance.advance ↔ plain = false) := by
  obtain ⟨v, s₀, hv, h⟩ := exists_of_succeeds h
  obtain ⟨has, h⟩ := (Bool.and_eq_true _ _).mp h
  obtain ⟨s₁, hmarked, h⟩ := (Option.any_eq_true _ _).mp h
  obtain ⟨htype, hoperand⟩ := (Bool.and_eq_true _ _).mp h
  obtain ⟨type, s', hread, hchecks⟩ := exists_of_succeeds htype
  obtain ⟨hplain, hnext⟩ := (Bool.and_eq_true _ _).mp hchecks
  obtain ⟨e, s₂, he, -⟩ := exists_of_succeeds hoperand
  refine ⟨v, s₁, e, s₂, ⟨⟨s₀, hv, eq_of_beq has, marked_of_marked? hmarked⟩, he, ?_⟩, ?_⟩
  · intro type' s'' hread'
    obtain ⟨-, rfl⟩ := EStateM.Result.ok.inj (hread.symm.trans hread')
    exact bne_iff_ne.mp hnext
  · rw [malformed_iff_of_ok hread, eq_of_beq hplain]

/-- The operand of a comparison may start with a name: `v as T < e + f`. -/
theorem cast_compared_sum :
    ∃ v s₁ e s₂,
      CastBefore (State.ofStream (tokenize "v as T < e + f;").stream) v 0 s₁ e s₂ ∧
      ¬ Malformed s₁.advance.advance ∧
      expression Grammar.standard .default (State.ofStream (tokenize "v as T < e + f;").stream) =
        operatorsOf Grammar.standard (goal Grammar.standard) .default (compared v s₁ e) s₂ := by
  obtain ⟨v, s₁, e, s₂, hbefore, hmalformed⟩ :=
    exists_castBefore 0 true (State.ofStream (tokenize "v as T < e + f;").stream)
      (by decide +kernel)
  have hformed : ¬ Malformed s₁.advance.advance := fun h => absurd (hmalformed.mp h) (by simp)
  exact ⟨v, s₁, e, s₂, hbefore, hformed, ((cast_compared hbefore rfl).1 rfl hformed).1⟩

/-- Neither `v as *T < e` nor `v as T < a<b>(c)` is read as a comparison, although in both a
cast to a name, or to a name behind a mark, stands before `<` and an operand. -/
theorem cast_not_compared :
    (∃ v s₁ e s₂, CastBefore (State.ofStream (tokenize "v as *T < e;").stream) v 1 s₁ e s₂ ∧
      ∃ d s', expression Grammar.standard .default
        (State.ofStream (tokenize "v as *T < e;").stream) = .error d s') ∧
    ∃ v s₁ e s₂, CastBefore (State.ofStream (tokenize "v as T < a<b>(c);").stream) v 0 s₁ e s₂ ∧
      ∃ d s', expression Grammar.standard .default
        (State.ofStream (tokenize "v as T < a<b>(c);").stream) = .error d s' := by
  constructor
  · obtain ⟨v, s₁, e, s₂, hbefore, -⟩ :=
      exists_castBefore 1 true (State.ofStream (tokenize "v as *T < e;").stream)
        (by decide +kernel)
    exact ⟨v, s₁, e, s₂, hbefore, exists_error_of_not_succeeds (by decide +kernel)⟩
  · obtain ⟨v, s₁, e, s₂, hbefore, -⟩ :=
      exists_castBefore 0 false (State.ofStream (tokenize "v as T < a<b>(c);").stream)
        (by decide +kernel)
    exact ⟨v, s₁, e, s₂, hbefore, exists_error_of_not_succeeds (by decide +kernel)⟩

end FrontEnd.Parser
