/-
Types are read by their productions.

`meets_typeExpr` says that reading a type reads a spelling of it, and `meets_genericClause`
the same of a generic argument.  The first section has what every spelling of a type has:
it is not empty, and the type starts where its first token does.  The last one says that no
literal is taken apart on the way (`faultless_typeExpr`), so that a type can be tried and undone.
-/
import FrontEnd.Proofs.Grammar.Spelling
import FrontEnd.Proofs.Parser.Reading

namespace FrontEnd

/-! ### Where a type starts -/

/-- Something is written with at least one token, and starts where the first one does. -/
def StartsWith (p : Span) (ts : List Token) : Prop :=
  ∃ t us, ts = t :: us ∧ p.start = t.span.start

/-- A place at which such a thing starts is the place of one of its tokens. -/
theorem StartsWith.exists_mem {p : Span} {ts : List Token} (h : StartsWith p ts) :
    ∃ t ∈ ts, p.start = t.span.start := by
  obtain ⟨t, us, rfl, hp⟩ := h
  exact ⟨t, by simp, hp⟩

theorem startsWith_covering (t : Token) (ts : List Token) :
    StartsWith (covering (t :: ts)) (t :: ts) :=
  ⟨t, ts, rfl, by rw [covering_cons, spanning_start]⟩

theorem Number.SpelledBy.startsWith {n : Number} {ts : List Token} (h : n.SpelledBy ts) :
    StartsWith n.span ts := by
  cases h with
  | mk => exact ⟨_, [], rfl, rfl⟩

theorem TypeExpr.SpelledBy.startsWith {type : TypeExpr} {ts : List Token}
    (h : type.SpelledBy ts) : StartsWith type.span ts := by
  cases h with
  | primitive | string | named => exact ⟨_, [], rfl, rfl⟩
  | array | pointer | reference | doubleReference | generic => exact startsWith_covering _ _

namespace Parser

variable {seen : List Token} {s : State}

/-! ### The productions -/

theorem meets_identifier {production : String} :
    Meets seen s (identifier production) Identifier.SpelledBy := by
  refine (meets_expect (by decide)).bind ?_
  rintro ⟨kind, text, span⟩ _ s' - ⟨rfl, rfl⟩
  exact meets_pure (.mk ⟨text, span⟩)

/-- An integer literal is consumed.  Its value is what its digits write, if 64 bits hold that, and
reading it fails otherwise. -/
theorem number_run (h : s.current.kind = .number) (production : String) :
    (∃ value, Text.readNumber? 10 s.current.text.toList = some value ∧ value < Number.limit ∧
        number production s = .ok ⟨value, s.current.span⟩ s.advance) ∨
      s.current.Overflows ∧ number production s = .error s.current.outOfRange s.advance := by
  have hexpect : expect .number production s = .ok s.current s.advance := by
    rw [expect_run, if_pos h]
  unfold number
  rw [bind_of_ok hexpect]
  cases hvalue : Text.readNumber? 10 s.current.text.toList with
  | none => exact .inr ⟨⟨h, by simp [hvalue]⟩, rfl⟩
  | some value =>
    dsimp only
    split
    · next hlimit => exact .inl ⟨value, rfl, hlimit, rfl⟩
    · next hlimit => exact .inr ⟨⟨h, by simpa [hvalue] using hlimit⟩, rfl⟩

theorem meets_number {production : String} :
    Meets seen s (number production) Number.SpelledBy := by
  by_cases hkind : s.current.kind = .number
  · have hread := reads_advance (show s.current.kind ≠ .eof by rw [hkind]; simp)
    have hbal : Balanced [s.current] := balanced_singleton (by rw [hkind]; rfl)
    rcases number_run hkind production with ⟨value, hvalue, hlimit, hrun⟩ | ⟨hover, hrun⟩
    · exact meets_ok hrun hread hbal (inRange_singleton (Token.not_overflows hvalue hlimit))
        (.mk hkind hvalue hlimit)
    · refine meets_error hrun hread hbal.opens (heeds_outOfRange hover) ?_
      exact located_of_mem (by simp) rfl rfl (.token (by simp)) _
  · refine meets_fail ?_ (located_notFound s production .number seen)
    exact bind_of_error (by rw [expect_run, if_neg hkind])

theorem meets_primitiveType {p : Primitive} (h : s.current.kind = .keyword (.primitive p)) :
    Meets seen s primitiveType TypeExpr.SpelledBy := by
  refine (meets_advance (by rw [h]; rfl)).bind ?_
  rintro t _ s' - ⟨rfl, rfl⟩
  simp only [h, Kind.primitive?]
  exact meets_pure (.primitive h)

theorem meets_stringType : Meets seen s stringType TypeExpr.SpelledBy := by
  refine (meets_expect (by decide)).bind ?_
  rintro t _ s' - ⟨rfl, ht⟩
  exact meets_pure (.string ht)

section

-- The types inside a type are read by their productions.
variable {inner : Parser TypeExpr}
  (hinner : ∀ seen s, Meets seen s inner TypeExpr.SpelledBy)

include hinner

theorem meets_genericClauseOf : Meets seen s (genericClauseOf inner) GenericClause := by
  refine (meets_expect (by decide)).bind ?_
  rintro o _ s₁ - ⟨rfl, ho⟩
  refine (hinner _ s₁).bind fun argument ts s₂ _ hargument => ?_
  split
  · next hplain =>
    refine (meets_expect (by decide)).bind ?_
    rintro c _ s₃ - ⟨rfl, hc⟩
    exact meets_pure (by simpa using GenericClause.mk ho hargument hplain hc)
  · obtain ⟨t, ht, hstart⟩ := hargument.startsWith.exists_mem
    refine meets_fail rfl (located_of_mem (by simp [ht]) rfl hstart ?_ s₂)
    exact .type hargument (List.suffix_append _ _).isInfix

theorem meets_namedTypeOf : Meets seen s (namedTypeOf inner) TypeExpr.SpelledBy := by
  refine meets_identifier.bind ?_
  rintro name _ s₁ h₁ ⟨⟩
  refine meets_kind ?_
  split
  · refine (meets_genericClauseOf hinner).bind ?_
    rintro argument _ s₂ h₂ ⟨ho, hargument, hplain, hc⟩
    refine meets_spanFrom (meets_pure ?_)
    rw [(h₁.append h₂).spanFrom (by simp)]
    simpa [covering_cons] using TypeExpr.SpelledBy.generic name ho hargument hplain hc
  · exact meets_pure (.named name)

theorem meets_pointerTypeOf : Meets seen s (pointerTypeOf inner) TypeExpr.SpelledBy := by
  refine (meets_expect (by decide)).bind ?_
  rintro star _ s₁ h₁ ⟨rfl, hstar⟩
  refine (hinner _ s₁).bind fun pointee ts s₂ h₂ hpointee => ?_
  refine meets_spanFrom (meets_pure ?_)
  rw [(h₁.append h₂).spanFrom (by simp)]
  simpa [covering_cons] using TypeExpr.SpelledBy.pointer hstar hpointee

theorem meets_referenceTypeOf : Meets seen s (referenceTypeOf inner) TypeExpr.SpelledBy := by
  refine (meets_expect (by decide)).bind ?_
  rintro mark _ s₁ h₁ ⟨rfl, hmark⟩
  refine (hinner _ s₁).bind fun referent ts s₂ h₂ hreferent => ?_
  refine meets_spanFrom (meets_pure ?_)
  rw [(h₁.append h₂).spanFrom (by simp)]
  simpa [covering_cons] using TypeExpr.SpelledBy.reference hmark hreferent

theorem meets_doubleReferenceTypeOf :
    Meets seen s (doubleReferenceTypeOf inner) TypeExpr.SpelledBy := by
  refine (meets_expect (by decide)).bind ?_
  rintro marks _ s₁ h₁ ⟨rfl, hmarks⟩
  refine (hinner _ s₁).bind fun referent ts s₂ h₂ hreferent => ?_
  refine meets_spanFrom (meets_spanFrom (meets_pure ?_))
  rw [(h₁.append h₂).spanFrom (by simp), (h₁.append h₂).spanFrom (by simp)]
  simpa [covering_cons] using TypeExpr.SpelledBy.doubleReference hmarks hreferent

theorem meets_arrayTypeOf : Meets seen s (arrayTypeOf inner) TypeExpr.SpelledBy := by
  refine (meets_expect (by decide)).bind ?_
  rintro o _ s₁ h₁ ⟨rfl, ho⟩
  refine (hinner _ s₁).bind fun element es s₂ h₂ helement => ?_
  refine (meets_expect (by decide)).bind ?_
  rintro semi _ s₃ h₃ ⟨rfl, hsemi⟩
  refine meets_number.bind fun length ns s₄ h₄ hlength => ?_
  refine (meets_expect (by decide)).bind ?_
  rintro c _ s₅ h₅ ⟨rfl, hc⟩
  have hall := h₁.append (h₂.append (h₃.append (h₄.append h₅)))
  refine meets_spanFrom (meets_pure ?_)
  rw [hall.spanFrom (by simp)]
  simpa [covering_cons] using TypeExpr.SpelledBy.array ho helement hsemi hlength hc

theorem meets_typeExprOf :
    Meets seen s (typeExprOf Grammar.standard inner) TypeExpr.SpelledBy := by
  refine meets_kind ?_
  split
  · exact meets_unexpected _ _
  · exact meets_pointerTypeOf hinner
  · exact meets_referenceTypeOf hinner
  · exact meets_doubleReferenceTypeOf hinner
  · exact meets_arrayTypeOf hinner
  · exact meets_stringType
  · exact meets_namedTypeOf hinner
  · next hform =>
    simp only [Grammar.standard] at hform
    split at hform <;> simp_all
    exact meets_primitiveType ‹_›

end

/-- Reading a type reads a spelling of it. -/
theorem meets_typeExpr : Meets seen s (typeExpr Grammar.standard) TypeExpr.SpelledBy :=
  meets_fix (V := fun _ => TypeExpr.SpelledBy)
    (fun _ hself _ _ _ => meets_typeExprOf (hself ())) () seen s

/-- Reading a generic argument reads a spelling of it. -/
theorem meets_genericClause : Meets seen s (genericClause Grammar.standard) GenericClause :=
  meets_genericClauseOf fun _ _ => meets_typeExpr

theorem meets_genericClause? :
    Meets seen s (genericClause? Grammar.standard) (Perhaps GenericClause) := by
  refine meets_kind ?_
  split
  · refine meets_genericClause.bind fun argument ts s' _ hargument => meets_pure ?_
    simpa using Perhaps.some hargument
  · exact meets_pure .none

/-! ### Types hold no literals -/

/-- Wherever the parser starts, and whether it succeeds or fails, it does not break off. -/
def Faultless {α : Type} (p : Parser α) : Prop :=
  ∀ s, match p s with
    | .ok _ s' => s'.faults = s.faults
    | .error _ s' => s'.faults = s.faults

section

variable {α β : Type} {p : Parser α} {f : α → Parser β}

theorem Faultless.of_ok (h : Faultless p) {a : α} {s' : State} (hp : p s = .ok a s') :
    s'.faults = s.faults := by
  have hs := h s
  rwa [hp] at hs

theorem Faultless.of_error (h : Faultless p) {d : Diagnostic} {s' : State} (hp : p s = .error d s') :
    s'.faults = s.faults := by
  have hs := h s
  rwa [hp] at hs

theorem Faultless.bind (hp : Faultless p) (hf : ∀ a, Faultless (f a)) : Faultless (p >>= f) := by
  intro s
  rw [bind_run]
  cases hrun : p s with
  | error d s' => exact hp.of_error hrun
  | ok a s' =>
    have hfirst := hp.of_ok hrun
    cases hrun' : f a s' with
    | ok b s'' =>
      simp only [Outcome.andThen, hrun']
      rw [(hf a).of_ok hrun', hfirst]
    | error d s'' =>
      simp only [Outcome.andThen, hrun']
      rw [(hf a).of_error hrun', hfirst]

theorem faultless_pure (a : α) : Faultless (pure a : Parser α) := fun _ => rfl

theorem faultless_throw (d : Diagnostic) : Faultless (throw d : Parser α) := fun _ => rfl

/-- Looking at the state does not change it. -/
theorem faultless_get {g : State → Parser β} (h : ∀ s, Faultless (g s)) :
    Faultless (get >>= g) := fun s => h s s

theorem faultless_advance : Faultless advance := faults_advance

theorem faultless_expect (expected : Kind) (production : String) :
    Faultless (expect expected production) := by
  intro s
  rw [expect_run]
  by_cases h : s.current.kind = expected
  · simp only [if_pos h]
    exact faults_advance s
  · simp only [if_neg h]

theorem faultless_nest {body : Parser α → Parser α}
    (hbody : ∀ self, Faultless self → Faultless (body self)) : Faultless (nest body) := by
  -- By induction on the tokens left, since a call with no fewer of them fails where it stands.
  intro s
  induction hn : s.rest.length using Nat.strong_induction_on generalizing s with
  | _ n ih =>
    rw [nest_run]
    refine hbody _ (fun s' => ?_) s
    by_cases hlt : s'.rest.length < s.rest.length
    · simp only [guarded, if_pos hlt]
      exact ih _ (hn ▸ hlt) s' rfl
    · simp only [guarded, if_neg hlt]

end

theorem faultless_number (production : String) : Faultless (number production) := by
  refine (faultless_expect _ _).bind fun token => ?_
  split
  · split
    · exact faultless_pure _
    · exact faultless_throw _
  · exact faultless_throw _

theorem faultless_identifier (production : String) : Faultless (identifier production) :=
  (faultless_expect _ _).bind fun _ => faultless_pure _

theorem faultless_genericClauseOf {inner : Parser TypeExpr} (hinner : Faultless inner) :
    Faultless (genericClauseOf inner) := by
  refine (faultless_expect _ _).bind fun _ => hinner.bind fun argument => ?_
  split
  · exact (faultless_expect _ _).bind fun _ => faultless_pure _
  · exact faultless_throw _

theorem faultless_typeExprOf {inner : Parser TypeExpr} (hinner : Faultless inner) :
    Faultless (typeExprOf Grammar.standard inner) := by
  -- Every form ends with the span of what it has read.
  have hspan : ∀ {β : Type} (start : Position) (g : Span → β),
      Faultless (spanFrom start >>= fun span => pure (g span)) := fun _ _ =>
    faultless_get fun _ => faultless_pure _
  refine faultless_get fun s => ?_
  split
  · exact faultless_get fun _ => faultless_throw _
  · exact (faultless_expect _ _).bind fun _ => hinner.bind fun _ => hspan _ _
  · exact (faultless_expect _ _).bind fun _ => hinner.bind fun _ => hspan _ _
  · refine (faultless_expect _ _).bind fun _ => hinner.bind fun _ => ?_
    exact faultless_get fun _ => faultless_get fun _ => faultless_pure _
  · refine (faultless_expect _ _).bind fun _ => hinner.bind fun _ => ?_
    refine (faultless_expect _ _).bind fun _ => (faultless_number _).bind fun _ => ?_
    exact (faultless_expect _ _).bind fun _ => hspan _ _
  · exact (faultless_expect _ _).bind fun _ => faultless_pure _
  · refine (faultless_identifier _).bind fun _ => faultless_get fun s' => ?_
    split
    · exact (faultless_genericClauseOf hinner).bind fun _ => hspan _ _
    · exact faultless_pure _
  · refine faultless_advance.bind fun token => ?_
    split
    · exact faultless_pure _
    · exact faultless_throw _

/-- Reading a type never breaks off. -/
theorem faultless_typeExpr : Faultless (typeExpr Grammar.standard) :=
  faultless_nest fun _ => faultless_typeExprOf

theorem faultless_genericClause : Faultless (genericClause Grammar.standard) :=
  faultless_genericClauseOf faultless_typeExpr

end Parser

end FrontEnd
