/-
The shape of an expression is the precedence of its operators.

An expression is a chain: operands with operators between them, which is what is left of
the tree when its binary spine is laid flat (`Expr.chain`).  Conversely a chain has one
tree in which tighter operators stand deeper and equal ones group to the left
(`Chain.tree`): it splits at the rightmost of the weakest operators, and so on in both
halves.

* `splitWeakest_append` — where a chain splits;
* `Pending` — what the loop over operators keeps, `Pending.join` for an operator and
  `Pending.of_typecastOf` for a cast;
* `operatorsOf_ordered` — so the loop ends with the tree of the chain it has read;
* `expression_eq_tree` — every expression that is read is the tree of its chain.
-/
import FrontEnd.Proofs.Grammar.Expressions
import FrontEnd.Token.Tokenize

namespace FrontEnd

/-- The place of an operator in the order of binding powers. -/
def BinaryOperator.rank (op : BinaryOperator) : Nat :=
  (Grammar.standard.bindingPower (.symbol op.symbol)).rank

/-- Operands with operators between them: the first operand, and every other one with the
operator before it. -/
structure Chain where
  first : Expr
  more : List (Operator × Expr)

namespace Chain

/-- The operands, in order. -/
def operands (c : Chain) : List Expr := c.first :: c.more.map (·.2)

/-- The operators, in order. -/
def operators (c : Chain) : List Operator := c.more.map (·.1)

/-- Splits at the rightmost of the weakest operators. -/
def splitWeakest : List (Operator × Expr) →
    Option (List (Operator × Expr) × (Operator × Expr) × List (Operator × Expr))
  | [] => none
  | x :: xs =>
    match splitWeakest xs with
    | none => some ([], x, [])
    | some (before, y, after) =>
      if y.1.op.rank ≤ x.1.op.rank then some (x :: before, y, after) else some ([], x, xs)

/-- A chain with an operator splits somewhere. -/
theorem eq_nil_of_splitWeakest {xs : List (Operator × Expr)} (h : splitWeakest xs = none) :
    xs = [] := by
  cases xs with
  | nil => rfl
  | cons x xs =>
    unfold splitWeakest at h
    split at h
    · exact absurd h (by simp)
    · split at h <;> exact absurd h (by simp)

theorem append_of_splitWeakest {xs before after : List (Operator × Expr)} {y : Operator × Expr}
    (h : splitWeakest xs = some (before, y, after)) : xs = before ++ y :: after := by
  induction xs generalizing before y after with
  | nil => exact absurd h (by simp [splitWeakest])
  | cons x xs ih =>
    unfold splitWeakest at h
    split at h
    · next hnone =>
      obtain ⟨rfl, rfl, rfl⟩ : [] = before ∧ x = y ∧ [] = after := by simpa using h
      rw [eq_nil_of_splitWeakest hnone, List.nil_append]
    · next before' y' after' hsome =>
      have hxs := ih hsome
      split at h
      · obtain ⟨rfl, rfl, rfl⟩ : x :: before' = before ∧ y' = y ∧ after' = after := by
          simpa using h
        rw [hxs, List.cons_append]
      · obtain ⟨rfl, rfl, rfl⟩ : [] = before ∧ x = y ∧ xs = after := by simpa using h
        rfl

/-- The tree of two trees with an operator between them. -/
def join (left : Expr) (o : Operator) (right : Expr) : Expr :=
  .binary left o right ⟨left.span.start, right.span.stop⟩

/-- The tree of a chain: the weakest operator on top, of equal ones the rightmost. -/
def treeOf (first : Expr) (more : List (Operator × Expr)) : Expr :=
  match _h : splitWeakest more with
  | none => first
  | some (before, (o, x), after) => join (treeOf first before) o (treeOf x after)
termination_by more.length
decreasing_by
  all_goals
    rw [append_of_splitWeakest _h, List.length_append, List.length_cons]
    omega

/-- The tree of a chain. -/
def tree (c : Chain) : Expr := treeOf c.first c.more

end Chain

/-- The binary spine of an expression, laid flat. -/
def Expr.chain : Expr → Chain
  | .binary left o right _ =>
    ⟨left.chain.first, left.chain.more ++ (o, right.chain.first) :: right.chain.more⟩
  | e => ⟨e, []⟩

/-- An expression without operators that is cast any number of times. -/
def Expr.isOperand : Expr → Bool
  | .typecast value _ _ => value.isOperand
  | .binary .. | .range _ | .structInit _ => false
  | _ => true

/-! ### Where a chain splits -/

namespace Chain

/-- A chain splits at an operator that is no tighter than those before it and weaker than
those behind it. -/
theorem splitWeakest_append {before after : List (Operator × Expr)} {y : Operator × Expr}
    (hbefore : ∀ x ∈ before, y.1.op.rank ≤ x.1.op.rank)
    (hafter : ∀ x ∈ after, y.1.op.rank < x.1.op.rank) :
    splitWeakest (before ++ y :: after) = some (before, y, after) := by
  induction before with
  | nil =>
    rw [List.nil_append, splitWeakest]
    cases hsplit : splitWeakest after with
    | none => rw [eq_nil_of_splitWeakest hsplit]
    | some split =>
      obtain ⟨before', z, after'⟩ := split
      -- The weakest operator behind `y` is tighter than `y`.
      have hz : z ∈ after := by
        rw [append_of_splitWeakest hsplit]
        simp
      have hlt := hafter z hz
      show (if z.1.op.rank ≤ y.1.op.rank then _ else _) = _
      rw [if_neg (by omega)]
  | cons x before ih =>
    have hx := hbefore x (by simp)
    rw [List.cons_append, splitWeakest, ih fun x' hx' => hbefore x' (by simp [hx'])]
    show (if y.1.op.rank ≤ x.1.op.rank then _ else _) = _
    rw [if_pos hx]

@[simp] theorem treeOf_nil (first : Expr) : treeOf first [] = first := by
  rw [treeOf]
  rfl

theorem treeOf_append {first x : Expr} {o : Operator} {before after : List (Operator × Expr)}
    (hbefore : ∀ y ∈ before, o.op.rank ≤ y.1.op.rank)
    (hafter : ∀ y ∈ after, o.op.rank < y.1.op.rank) :
    treeOf first (before ++ (o, x) :: after) =
      join (treeOf first before) o (treeOf x after) := by
  rw [treeOf]
  have hsplit : splitWeakest (before ++ (o, x) :: after) = some (before, (o, x), after) :=
    splitWeakest_append hbefore hafter
  split
  · next hnone => exact absurd (hnone.symm.trans hsplit) (by simp)
  · next before' o' x' after' hsome =>
    obtain ⟨rfl, ⟨rfl, rfl⟩, rfl⟩ : before' = before ∧ (o' = o ∧ x' = x) ∧ after' = after := by
      simpa using hsome.symm.trans hsplit
    rfl

end Chain

/-! ### The chain of an expression -/

theorem Expr.chain_of_isOperand {e : Expr} (h : e.isOperand) : e.chain = ⟨e, []⟩ := by
  cases e with
  | binary => exact absurd h (by simp [Expr.isOperand])
  | _ => rfl

theorem Expr.PrimaryBy.isOperand {e : Expr} {ts : List Token} (h : e.PrimaryBy ts) :
    e.isOperand := by
  cases h <;> rfl

/-- The tokens of an operand: an expression without operators, and any number of casts. -/
inductive Expr.OperandBy : Expr → List Token → Prop
  | primary {e : Expr} {ts : List Token} (h : e.PrimaryBy ts) : Expr.OperandBy e ts
  | typecast {value : Expr} {vs : List Token} {word : Token} {target : TypeExpr}
    {ts : List Token} (hvalue : value.OperandBy vs) (hword : word.kind = .keyword .asKw)
    (htarget : target.SpelledBy ts) :
    Expr.OperandBy (.typecast value target (spanning value.span.start (vs ++ word :: ts)))
      (vs ++ word :: ts)

/-- The tokens of an operator and of the operand behind it. -/
inductive OperationBy : Operator × Expr → List Token → Prop
  | mk {op : BinaryOperator} {t : Token} {x : Expr} {ts : List Token}
    (hop : t.kind = .symbol op.symbol) (hx : x.OperandBy ts) :
    OperationBy (⟨op, t.span⟩, x) (t :: ts)

/-- The tokens of a chain: those of its operands, with its operators between them. -/
inductive Chain.SpelledBy : Chain → List Token → Prop
  | mk {first : Expr} {fs : List Token} {more : List (Operator × Expr)} {ms : List Token}
    (hfirst : first.OperandBy fs) (hmore : Each OperationBy more ms) :
    Chain.SpelledBy ⟨first, more⟩ (fs ++ ms)

theorem Expr.SpelledBy.operandBy {e : Expr} {ts : List Token} (h : e.SpelledBy ts)
    (hoperand : e.isOperand) : e.OperandBy ts := by
  cases h with
  | primary h => exact .primary h
  | binary => exact absurd hoperand (by simp [Expr.isOperand])
  | typecast hvalue hword htarget =>
    exact .typecast (operandBy hvalue hoperand) hword htarget
termination_by sizeOf e

/-- The tokens of an expression are those of its chain. -/
theorem Expr.SpelledBy.chain {e : Expr} {ts : List Token} (h : e.SpelledBy ts)
    (hoperands : ∀ x ∈ e.chain.operands, x.isOperand) : e.chain.SpelledBy ts := by
  cases h with
  | primary h =>
    rw [chain_of_isOperand h.isOperand]
    simpa using Chain.SpelledBy.mk (.primary h) .nil
  | @typecast value vs word target ts hvalue hword htarget =>
    have hcast := Expr.SpelledBy.typecast hvalue hword htarget
    have hoperand : (Expr.typecast value target _).isOperand := hoperands _ List.mem_cons_self
    rw [chain_of_isOperand hoperand]
    simpa using Chain.SpelledBy.mk (hcast.operandBy hoperand) .nil
  | @binary left right ls rs op t hleft hop hright =>
    -- Both halves are chains of operands, and the operator stands between them.
    have hboth : (∀ x ∈ left.chain.operands, x.isOperand) ∧
        ∀ x ∈ right.chain.operands, x.isOperand := by
      constructor
      · intro x hx
        refine hoperands x ?_
        simp only [Chain.operands, Expr.chain, List.mem_cons, List.map_append] at hx ⊢
        rcases hx with hx | hx
        · exact .inl hx
        · exact .inr (List.mem_append_left _ hx)
      · intro x hx
        refine hoperands x ?_
        simp only [Chain.operands, Expr.chain, List.mem_cons, List.map_append, List.map_cons,
          List.mem_append] at hx ⊢
        exact .inr (.inr hx)
    have hl := chain hleft hboth.1
    have hr := chain hright hboth.2
    rw [Expr.chain]
    generalize left.chain = l at hl
    generalize right.chain = r at hr
    obtain ⟨hfirst, hmore⟩ := hl
    obtain ⟨hfirst', hmore'⟩ := hr
    simpa using Chain.SpelledBy.mk hfirst (hmore.append (.cons (.mk hop hfirst') hmore'))
termination_by sizeOf e

/-! ### Reading keeps the tree of the chain -/

/-- The operands of the expression are operands, and it is the tree of its chain. -/
structure Expr.Ordered (e : Expr) : Prop where
  operands : ∀ x ∈ e.chain.operands, x.isOperand
  tree : e = e.chain.tree

theorem Expr.ordered_of_isOperand {e : Expr} (h : e.isOperand) : e.Ordered := by
  have hchain := chain_of_isOperand h
  constructor
  · rw [hchain]
    simpa [Chain.operands] using h
  · rw [hchain, Chain.tree, Chain.treeOf_nil]

/-- Two ordered expressions with an operator between them that is no tighter than those of
the first and weaker than those of the second. -/
theorem Expr.Ordered.binary {left right : Expr} {o : Operator} (hleft : left.Ordered)
    (hright : right.Ordered) (hbefore : ∀ y ∈ left.chain.operators, o.op.rank ≤ y.op.rank)
    (hafter : ∀ y ∈ right.chain.operators, o.op.rank < y.op.rank) :
    (Chain.join left o right).Ordered := by
  constructor
  · intro x hx
    simp only [Chain.join, Expr.chain, Chain.operands, List.map_append, List.map_cons,
      List.mem_cons, List.mem_append] at hx
    rcases hx with hx | hx | hx | hx
    · exact hleft.operands x (List.mem_cons.mpr (.inl hx))
    · exact hleft.operands x (List.mem_cons.mpr (.inr hx))
    · exact hright.operands x (List.mem_cons.mpr (.inl hx))
    · exact hright.operands x (List.mem_cons.mpr (.inr hx))
  · -- The chain of the whole splits at the operator that joins the two.
    have hsplit := @Chain.treeOf_append left.chain.first right.chain.first o left.chain.more
      right.chain.more (fun y hy => hbefore y.1 (List.mem_map_of_mem hy))
      (fun y hy => hafter y.1 (List.mem_map_of_mem hy))
    show _ = Chain.treeOf left.chain.first
      (left.chain.more ++ (o, right.chain.first) :: right.chain.more)
    have hl : left = Chain.treeOf left.chain.first left.chain.more := hleft.tree
    have hr : right = Chain.treeOf right.chain.first right.chain.more := hright.tree
    rw [hsplit, ← hl, ← hr]

namespace Parser

/-- How tightly the next token holds the expression before it. -/
def State.nextRank (s : State) : Nat := (Grammar.standard.bindingPower s.current.kind).rank

/-- What reading an expression of a power leaves: an ordered expression whose operators are
all tighter than the power, in front of a token that is not. -/
structure Reached (power : BindingPower) (e : Expr) (s : State) : Prop extends e.Ordered where
  tighter : ∀ o ∈ e.chain.operators, power.rank < o.op.rank
  next : s.nextRank ≤ power.rank

/-- The invariant of the loop over operators.  The next token is never tighter than an
operator of the expression read so far: this is what makes the operator that it is the
weakest. -/
structure Pending (power : BindingPower) (e : Expr) (s : State) : Prop extends e.Ordered where
  tighter : ∀ o ∈ e.chain.operators, power.rank < o.op.rank
  next : ∀ o ∈ e.chain.operators, s.nextRank ≤ o.op.rank

theorem pending_of_isOperand {power : BindingPower} {e : Expr} {s : State} (h : e.isOperand) :
    Pending power e s := by
  have hnone : e.chain.operators = [] := by
    rw [Expr.chain_of_isOperand h]
    rfl
  refine ⟨Expr.ordered_of_isOperand h, ?_, ?_⟩
  · simp [hnone]
  · simp [hnone]

/-- The loop ends before a token that is not tighter than the power. -/
theorem Pending.reached {power : BindingPower} {e : Expr} {s : State} (h : Pending power e s)
    (hnext : s.nextRank ≤ power.rank) : Reached power e s := ⟨h.toOrdered, h.tighter, hnext⟩

/-- The next operator joins what is read so far with what is read behind it, all of whose
operators are tighter. -/
theorem Pending.join {power next : BindingPower} {left right : Expr} {o : Operator}
    {s s' : State} (hleft : Pending power left s) (hright : Reached next right s')
    (hop : o.op.rank = s.nextRank) (hnext : next.rank = s.nextRank)
    (hlt : power.rank < next.rank) : Pending power (Chain.join left o right) s' := by
  have hbefore : ∀ y ∈ left.chain.operators, o.op.rank ≤ y.op.rank := by
    intro y hy
    have := hleft.next y hy
    omega
  have hafter : ∀ y ∈ right.chain.operators, o.op.rank < y.op.rank := by
    intro y hy
    have := hright.tighter y hy
    omega
  have hall : ∀ y ∈ (Chain.join left o right).chain.operators, o.op.rank ≤ y.op.rank := by
    intro y hy
    simp only [Chain.join, Expr.chain, Chain.operators, List.map_append, List.map_cons,
      List.mem_append, List.mem_cons] at hy
    rcases hy with hy | rfl | hy
    · exact hbefore y hy
    · exact Nat.le_refl _
    · exact Nat.le_of_lt (hafter y hy)
  refine ⟨hleft.toOrdered.binary hright.toOrdered hbefore hafter, ?_, ?_⟩
  · intro y hy
    have := hall y hy
    omega
  · intro y hy
    have := hall y hy
    have := hright.next
    omega

theorem rank_le_nine (op : BinaryOperator) : op.rank ≤ 9 := by
  cases op <;> decide

theorem operatorsOf_run (g : Grammar) (inner : Goal → Parser Expr) (power : BindingPower)
    (left : Expr) (s : State) :
    operatorsOf g inner power left s =
      match g.operator? s.current.kind with
      | none => .ok left s
      | some (next, form) =>
        if next.tighter power then
          ((match form with
            | .binary => binaryOf inner left next
            | .typecast => typecastOf g left) >>= fun e =>
              guarded s.rest.length (operatorsOf g inner power e)) s
        else .ok left s := by
  rw [operatorsOf, fix_run]
  show (match g.operator? s.current.kind with
    | none => _
    | some (next, form) => _ : Parser Expr) s = _
  generalize g.operator? s.current.kind = entry
  cases entry with
  | none => rfl
  | some entry =>
    obtain ⟨next, form⟩ := entry
    by_cases htighter : next.tighter power
    · simp only [htighter, if_true]
      cases form <;> rfl
    · simp only [htighter]
      rfl

/-- An operation that is read joins the left operand with what is read behind it. -/
theorem binaryOf_eq_ok {inner : Goal → Parser Expr} {left e : Expr} {power : BindingPower}
    {s s' : State} (h : binaryOf inner left power s = .ok e s') :
    ∃ op right, s.current.kind = .symbol op.symbol ∧
      inner (.above power) s.advance = .ok right s' ∧
      e = Chain.join left ⟨op, s.current.span⟩ right := by
  obtain ⟨k, s₀, hkind, h⟩ := bind_eq_ok h
  obtain ⟨rfl, rfl⟩ : s.current.kind = k ∧ s = s₀ := EStateM.Result.ok.inj hkind
  cases hop : BinaryOperator.ofKind? s.current.kind with
  | none =>
    rw [hop] at h
    exact absurd (show EStateM.Result.error _ _ = EStateM.Result.ok e s' from h) (by simp)
  | some op =>
    rw [hop] at h
    obtain ⟨token, s₀, htoken, h⟩ := bind_eq_ok h
    obtain ⟨rfl, rfl⟩ : s.current = token ∧ s.advance = s₀ := EStateM.Result.ok.inj htoken
    obtain ⟨right, s₁, hright, h⟩ := bind_eq_ok h
    obtain ⟨rfl, rfl⟩ : Chain.join left ⟨op, s.current.span⟩ right = e ∧ s₁ = s' :=
      EStateM.Result.ok.inj h
    exact ⟨op, right, BinaryOperator.ofKind?_eq_some_iff.mp hop, hright, rfl⟩

theorem typecastOf_eq_ok {g : Grammar} {left e : Expr} {s s' : State}
    (h : typecastOf g left s = .ok e s') :
    s.current.kind = .keyword .asKw ∧ ∃ target span, e = .typecast left target span := by
  obtain ⟨word, s₁, hword, h⟩ := bind_eq_ok h
  obtain ⟨target, s₂, -, h⟩ := bind_eq_ok h
  have heq : Expr.typecast left target (s₂.spanFrom left.span.start) = e ∧ s₂ = s' :=
    EStateM.Result.ok.inj h
  refine ⟨?_, target, _, heq.1.symm⟩
  by_contra hkind
  rw [expect_run, if_neg hkind] at hword
  exact absurd hword (by simp)

/-- No operator is as tight as a cast, so that what stands before `as` has none. -/
theorem Pending.isOperand {power : BindingPower} {left : Expr} {s : State}
    (hleft : Pending power left s) (has : s.current.kind = .keyword .asKw) : left.isOperand := by
  have hrank : s.nextRank = 10 := by
    rw [State.nextRank, has]
    rfl
  have hmore : left.chain.more = [] := by
    cases hchain : left.chain.more with
    | nil => rfl
    | cons x xs =>
      have hle := hleft.next x.1 (by simp [Chain.operators, hchain])
      have := rank_le_nine x.1.op
      omega
  have htree : left = left.chain.first := by
    have := hleft.tree
    rwa [Chain.tree, hmore, Chain.treeOf_nil] at this
  rw [htree]
  exact hleft.operands _ List.mem_cons_self

theorem Pending.of_typecastOf {power : BindingPower} {left e : Expr} {s s' : State}
    (hleft : Pending power left s)
    (h : typecastOf Grammar.standard left s = .ok e s') : Pending power e s' := by
  obtain ⟨has, target, span, rfl⟩ := typecastOf_eq_ok h
  refine pending_of_isOperand ?_
  rw [Expr.isOperand]
  exact hleft.isOperand has

section

-- What is read inside an expression is ordered.
variable {inner : Goal → Parser Expr}
  (hinner : ∀ power s e s', inner (.above power) s = .ok e s' → Reached power e s')

include hinner

theorem Pending.of_binaryOf {power next : BindingPower} {left e : Expr} {s s' : State}
    (hleft : Pending power left s) (hnext : s.nextRank = next.rank)
    (hlt : power.rank < next.rank) (h : binaryOf inner left next s = .ok e s') :
    Pending power e s' := by
  obtain ⟨op, right, hkind, hright, rfl⟩ := binaryOf_eq_ok h
  have hop : op.rank = s.nextRank := by
    rw [BinaryOperator.rank, ← hkind]
    rfl
  exact hleft.join (hinner next _ _ _ hright) hop hnext.symm hlt

/-- The loop over operators ends with an ordered expression. -/
theorem operatorsOf_ordered {power : BindingPower} {left e : Expr} {s s' : State}
    (hleft : Pending power left s)
    (h : operatorsOf Grammar.standard inner power left s = .ok e s') : Reached power e s' := by
  induction hlen : s.rest.length using Nat.strong_induction_on generalizing left s with
  | _ n ih =>
    rw [operatorsOf_run] at h
    cases hop : Grammar.standard.operator? s.current.kind with
    | none =>
      rw [hop] at h
      obtain ⟨rfl, rfl⟩ := EStateM.Result.ok.inj h
      have hrank : s.nextRank = 0 := by
        rw [State.nextRank, Grammar.bindingPower, hop]
        rfl
      exact hleft.reached (by omega)
    | some entry =>
      obtain ⟨next, form⟩ := entry
      have hrank : s.nextRank = next.rank := by
        rw [State.nextRank, Grammar.bindingPower, hop]
      rw [hop] at h
      by_cases hgo : next.tighter power
      · simp only [hgo, if_true] at h
        have hlt : power.rank < next.rank := of_decide_eq_true hgo
        -- What the next operator makes of the expression, and the loop from there on.
        obtain ⟨e', s₁, hstep, hmore⟩ := bind_eq_ok h
        obtain ⟨hshort, hmore⟩ := guarded_eq_ok hmore
        have hpending : Pending power e' s₁ := by
          cases form with
          | binary => exact hleft.of_binaryOf hinner hrank hlt hstep
          | typecast => exact hleft.of_typecastOf hstep
        exact ih _ (hlen ▸ hshort) hpending hmore rfl
      · simp only [hgo] at h
        obtain ⟨rfl, rfl⟩ := EStateM.Result.ok.inj h
        have hle : next.rank ≤ power.rank := by
          by_contra hlt
          exact hgo (decide_eq_true (by omega))
        exact hleft.reached (by omega)

end

/-- Every expression that is read is ordered, and its operators and the next token stand on
the two sides of the power asked for. -/
theorem expression_reached {power : BindingPower} {e : Expr} {s s' : State}
    (h : expression Grammar.standard power s = .ok e s') : Reached power e s' := by
  induction hlen : s.rest.length using Nat.strong_induction_on generalizing power e s s' with
  | _ n ih =>
    rw [expression, goal, fix_run] at h
    obtain ⟨first, s₁, hfirst, hmore⟩ := bind_eq_ok h
    -- What the loop starts with has no operators of its own.
    have hprimary : Meets [] s (primaryOf Grammar.standard fun goal =>
        guarded s.rest.length (fix (goalOf Grammar.standard) goal)) Expr.PrimaryBy :=
      meets_primaryOf fun goal _ _ => meets_guarded fun _ => meets_goal goal
    obtain ⟨ts, -, -, hspelled⟩ := hprimary.of_ok hfirst
    refine operatorsOf_ordered ?_ (pending_of_isOperand hspelled.isOperand) hmore
    intro power' s₂ e' s₃ hinner
    obtain ⟨hshort, hinner⟩ := guarded_eq_ok hinner
    exact ih _ (hlen ▸ hshort) hinner rfl

/-- **Precedence and associativity.**  Lay the binary spine of an expression that is read
flat: its operands are expressions without operators, cast any number of times; with the
operators between them they are what was consumed, in order; all operators bind tighter
than the power asked for, and the next token does not; and the expression is the tree of
this chain. -/
theorem expression_eq_tree {power : BindingPower} {e : Expr} {s s' : State}
    (h : expression Grammar.standard power s = .ok e s') :
    (∀ x ∈ e.chain.operands, x.isOperand) ∧
      (∃ ts, Reads s ts s' ∧ e.chain.SpelledBy ts) ∧
      (∀ o ∈ e.chain.operators,
        (Grammar.standard.bindingPower (.symbol o.op.symbol)).tighter power = true) ∧
      (Grammar.standard.bindingPower s'.current.kind).tighter power = false ∧
      e = e.chain.tree := by
  have hreached := expression_reached h
  have hmeets : Meets [] s (expression Grammar.standard power) Expr.SpelledBy := meets_expression
  obtain ⟨ts, hread, -, hspelled⟩ := hmeets.of_ok h
  refine ⟨hreached.operands, ⟨ts, hread, hspelled.chain hreached.operands⟩, ?_, ?_, hreached.tree⟩
  · intro o ho
    exact decide_eq_true (hreached.tighter o ho)
  · have hle : s'.nextRank ≤ power.rank := hreached.next
    exact decide_eq_false (Nat.not_lt.mpr hle)

/-- Three levels, a cast and equal operators: `a - b * c as u8 - d < e`, and what the next
token is. -/
theorem expression_eq_tree_chain :
    ∃ e s', expression Grammar.standard .default
        (State.ofStream (tokenize "a - b * c as u8 - d < e;").stream) = .ok e s' ∧
      (∀ x ∈ e.chain.operands, x.isOperand) ∧
      (∃ ts, Reads (State.ofStream (tokenize "a - b * c as u8 - d < e;").stream) ts s' ∧
        e.chain.SpelledBy ts) ∧
      (∀ o ∈ e.chain.operators,
        (Grammar.standard.bindingPower (.symbol o.op.symbol)).tighter .default = true) ∧
      (Grammar.standard.bindingPower s'.current.kind).tighter .default = false ∧
      e = e.chain.tree := by
  cases h : expression Grammar.standard .default
      (State.ofStream (tokenize "a - b * c as u8 - d < e;").stream) with
  | ok e s' => exact ⟨e, s', rfl, expression_eq_tree h⟩
  | error d s' =>
    have hok : (match expression Grammar.standard .default
        (State.ofStream (tokenize "a - b * c as u8 - d < e;").stream) with
      | .ok .. => true
      | .error .. => false) = true := by decide +kernel
    rw [h] at hok
    exact absurd hok (by simp)

end Parser

end FrontEnd
