/-
Types are read in the same way among other tokens.

A type that has been read is read back wherever its tokens come next, unless it ends in a name and
an angle bracket follows.  Where it was read first, none follows (`typeExpr_not_less`).

An angle bracket behind a name is tried as the start of a generic argument.  What comes of the
trial is told by a settled template, whatever marks are left out (`agreeing_genericClause`): an
operand that is no name is no type, and a name is one that another bracket, a closing bracket or
something else follows, which is part of the template in the first two cases.
-/
import FrontEnd.Proofs.Parser.Template
import FrontEnd.Proofs.TypeExpr.Spelling

namespace FrontEnd.Parser

variable {s s' u : State}

/-- Behind a mark a type is read up to where it ends without the mark. -/
theorem typeExpr_of_marked {k : Kind} {production : String} {type inner : TypeExpr}
    {make : Token → TypeExpr → Parser TypeExpr}
    (hrun : (expect k production >>= fun mark => typeExpr Grammar.standard >>= make mark) s =
      .ok type s')
    (hmake : ∀ {mark type₁ s₁}, make mark type₁ s₁ = .ok type s' → type₁ = inner ∧ s₁ = s') :
    typeExpr Grammar.standard s.advance = .ok inner s' := by
  obtain ⟨mark, s₁, hexpect, hrun⟩ := bind_eq_ok hrun
  obtain ⟨-, -, rfl⟩ := expect_eq_ok hexpect
  obtain ⟨type₁, s₂, htype, hrun⟩ := bind_eq_ok hrun
  obtain ⟨rfl, rfl⟩ := hmake hrun
  exact htype

/-- Behind a type that ends in a name no angle bracket stands: it would belong to the type. -/
theorem typeExpr_not_less {type : TypeExpr} {ts : List Token} (h : type.SpelledBy ts)
    (hrest : s.rest = ts ++ s'.rest) (hrun : typeExpr Grammar.standard s = .ok type s')
    (hlast : ∃ t ∈ ts.getLast?, t.kind = .identifier) : s'.current.kind ≠ .symbol .less := by
  -- Of a mark and a type the last token is that of the type.
  have hbehind : ∀ {type : TypeExpr} {ts : List Token} {t : Token}, type.SpelledBy ts →
      (∃ u ∈ (t :: ts).getLast?, u.kind = .identifier) →
      ∃ u ∈ ts.getLast?, u.kind = .identifier := by
    intro type ts t htype hlast
    rwa [List.getLast?_cons_of_ne_nil htype.startsWith.ne_nil] at hlast
  induction h generalizing s with
  | primitive ht | string ht => simp [ht] at hlast
  | array _ _ _ _ hc _ | generic _ _ _ _ hc _ => simp [List.getLast?_cons, hc] at hlast
  | named name =>
    have hname : s.current.kind = .identifier := by
      rw [current_of_rest hrest]
      rfl
    rw [typeExpr_of_name hname] at hrun
    split at hrun
    · -- A name with an argument is not the name alone.
      split at hrun <;> cases hrun
    · next hless =>
      obtain ⟨-, rfl⟩ := EStateM.Result.ok.inj hrun
      exact hless
  | pointer hstar hpointee ih =>
    rw [typeExpr_run (current_of_rest hrest ▸ hstar)] at hrun
    refine ih (rest_advance hrest (by simp [hstar])) ?_ (hbehind hpointee hlast)
    refine typeExpr_of_marked hrun fun hmake => ?_
    obtain ⟨heq, rfl⟩ := EStateM.Result.ok.inj hmake
    exact ⟨(TypeExpr.pointer.inj heq).1, rfl⟩
  | reference hmark hreferent ih =>
    rw [typeExpr_run (current_of_rest hrest ▸ hmark)] at hrun
    refine ih (rest_advance hrest (by simp [hmark])) ?_ (hbehind hreferent hlast)
    refine typeExpr_of_marked hrun fun hmake => ?_
    obtain ⟨heq, rfl⟩ := EStateM.Result.ok.inj hmake
    exact ⟨(TypeExpr.reference.inj heq).1, rfl⟩
  | doubleReference hmarks hreferent ih =>
    rw [typeExpr_run (current_of_rest hrest ▸ hmarks)] at hrun
    refine ih (rest_advance hrest (by simp [hmarks])) ?_ (hbehind hreferent hlast)
    refine typeExpr_of_marked hrun fun hmake => ?_
    obtain ⟨heq, rfl⟩ := EStateM.Result.ok.inj hmake
    exact ⟨(TypeExpr.reference.inj (TypeExpr.reference.inj heq).1).1, rfl⟩

/-! ### Trying a generic argument -/

/-- Two trials come to the same: both succeed and stand before what is written from one settled
template, or both fail, and for the same reason as far as it matters. -/
inductive Agreeing {α : Type} : Outcome α → Outcome α → Prop
  | ok {tidy : Prop} {a b : α} {s u : State} {p q : Position} {cells : List Cell}
    (hcells : Settled cells) (hs : Written False p cells s.rest) (hu : Written tidy q cells u.rest) :
    Agreeing (.ok a s) (.ok b u)
  | error {d d' : Diagnostic} {s u : State}
    (h : (∃ text, d.cause = .malformedGeneric text) ↔ ∃ text, d'.cause = .malformedGeneric text) :
    Agreeing (.error d s) (.error d' u)

theorem Agreeing.exists_error {α : Type} {d : Diagnostic} {v : State} {r : Outcome α}
    (h : Agreeing (.error d v) r) : ∃ d' v', r = .error d' v' ∧
      ((∃ text, d.cause = .malformedGeneric text) ↔ ∃ text, d'.cause = .malformedGeneric text) := by
  cases h with
  | error hsame => exact ⟨_, _, rfl, hsame⟩

theorem type?_eq_none {k : Kind} (h : (Grammar.standard.primary? k).isSome)
    (hk : k ≠ .identifier) : Grammar.standard.type? k = none := by
  cases k with
  | symbol s => cases s <;> first | rfl | cases h
  | keyword kw => cases kw <;> first | rfl | cases h
  | identifier => exact absurd rfl hk
  | eof | number | string | char => rfl

/-- A bracket and what is no type are no argument, which is not the argument's fault. -/
theorem agreeing_unexpected {P Q : String} {ks ks' : List Kind} {v v' : State} {α : Type} :
    Agreeing (α := α) (.error (s.unexpected P ks) v) (.error (u.unexpected Q ks') v') :=
  .error (by simp [State.unexpected])

theorem agreeing_notFound {v v' : State} {α : Type} :
    Agreeing (α := α) (.error (s.notFound "generic" Symbol.greater) v)
      (.error (u.notFound "generic" Symbol.greater) v') :=
  .error (by simp [State.notFound, State.notFound.missing])

/-- What a trial of a generic argument comes to does not depend on marks that are left out. -/
theorem agreeing_genericClause {tidy : Prop} {o : Token} {cells : List Cell} {p q : Position}
    (ho : o.kind = .symbol .less) (hcells : Settled (.token o :: cells))
    (hs : Written False p (.token o :: cells) s.rest)
    (hu : Written tidy q (.token o :: cells) u.rest) :
    Agreeing (genericClause Grammar.standard s) (genericClause Grammar.standard u) := by
  induction hn : cells.length using Nat.strong_induction_on generalizing o cells p q s u with
  | _ n ih =>
    rcases hcells.less_cases ho with ⟨t, cells', rfl, ht, hcells'⟩ |
      ⟨type, cs, cells', hclause, heq, hcells'⟩
    · have hproper : o.kind ≠ .eof := by simp [ho]
      have hs₁ := hs.advance hproper
      have hu₁ := hu.advance hproper
      have hst : s.advance.current.kind = t.kind := congrArg Token.kind hs₁.current
      have hut : u.advance.current.kind = t.kind := congrArg Token.kind hu₁.current
      rw [genericClause_run (hs.current ▸ ho), genericClause_run (hu.current ▸ ho)]
      by_cases hname : t.kind = .identifier
      case neg =>
        rw [typeExpr_run hst, typeExpr_run hut, type?_eq_none ht hname]
        exact agreeing_unexpected
      have hcells'' : Settled cells' := hcells'.token_inv (by simp [hname])
      have hs₂ := hs₁.advance (by simp [hname])
      have hu₂ := hu₁.advance (by simp [hname])
      have hkind : ∀ k, k ∉ seams → (s.advance.advance.current.kind = k ↔
          u.advance.advance.current.kind = k) := by
        intro k hk
        rw [State.kind_current, State.kind_current]
        exact hcells''.headKind_eq_iff hk hs₂ hu₂
      have htoken : ∀ k, k ∉ seams → s.advance.advance.current.kind = k →
          ∃ y cells'', cells' = .token y :: cells'' ∧ y.kind = k := by
        rintro k hk rfl
        rw [State.kind_current] at hk ⊢
        exact hcells''.exists_token hs₂ hk
      rw [typeExpr_of_name (hst.trans hname), typeExpr_of_name (hut.trans hname)]
      by_cases hless : s.advance.advance.current.kind = .symbol .less
      · -- A name with an argument is no argument, whether that one can be read or not.
        rw [if_pos hless, if_pos ((hkind _ (by decide)).mp hless)]
        obtain ⟨y, cells'', rfl, hy⟩ := htoken _ (by decide) hless
        have hagree := ih cells''.length (by rw [← hn, List.length_cons, List.length_cons]; omega)
          hy hcells'' hs₂ hu₂ rfl
        generalize genericClause Grammar.standard s.advance.advance = r at hagree ⊢
        generalize genericClause Grammar.standard u.advance.advance = r' at hagree ⊢
        cases hagree with
        | ok => exact .error (by simp)
        | error h => exact .error h
      · rw [if_neg hless, if_neg fun h => hless ((hkind _ (by decide)).mpr h)]
        simp only [TypeExpr.isPlain, if_true]
        by_cases hgreater : s.advance.advance.current.kind = .symbol .greater
        · rw [if_pos hgreater, if_pos ((hkind _ (by decide)).mp hgreater)]
          obtain ⟨y, cells'', rfl, hy⟩ := htoken _ (by decide) hgreater
          have hyproper : y.kind ≠ .eof := by simp [hy]
          exact .ok (hcells''.token_inv (by simp [hy])) (hs₂.advance hyproper)
            (hu₂.advance hyproper)
        · rw [if_neg hgreater, if_neg fun h => hgreater ((hkind _ (by decide)).mpr h)]
          exact agreeing_notFound
    · rw [heq] at hs hu
      obtain ⟨vs, hvs, hs'⟩ := hs.of_tokens
      obtain ⟨ws, hws, hu'⟩ := hu.of_tokens
      obtain ⟨s', hrun, -, hrest⟩ := genericClause_of_spelledBy hclause hvs
      obtain ⟨u', hrun', -, hrest'⟩ := genericClause_of_spelledBy hclause hws
      rw [hrun, hrun']
      exact .ok hcells' (hrest ▸ hs') (hrest' ▸ hu')

/-- So the mark behind a generic argument is found in both of two texts or in neither. -/
theorem genericThen_same {tidy : Prop} {t o : Token} {cells : List Cell} {p q : Position}
    {mark : Symbol} (hmark : Kind.symbol mark ∉ seams) (ht : t.kind = .identifier)
    (ho : o.kind = .symbol .less) (hcells : Settled (.token o :: cells))
    (hs : Written False p (.token t :: .token o :: cells) s.rest)
    (hu : Written tidy q (.token t :: .token o :: cells) u.rest) :
    ∃ found, genericThen Grammar.standard mark s = .ok found s ∧
      genericThen Grammar.standard mark u = .ok found u := by
  have hproper : t.kind ≠ .eof := by simp [ht]
  refine ⟨_, genericThen_run (hs.current ▸ ht) mark, ?_⟩
  rw [genericThen_run (hu.current ▸ ht) mark]
  have hagree := agreeing_genericClause ho hcells (hs.advance hproper) (hu.advance hproper)
  generalize genericClause Grammar.standard s.advance = r at hagree ⊢
  generalize genericClause Grammar.standard u.advance = r' at hagree ⊢
  cases hagree with
  | ok hcells' hs' hu' =>
    have hiff := hcells'.headKind_eq_iff hmark hs' hu'
    rw [← State.kind_current, ← State.kind_current] at hiff
    simp only [beq_eq_decide, hiff]
  | error => rfl

end FrontEnd.Parser
