/-
Types, expressions and statements without blocks, read twice.

* `mirrors_typeExpr` — a type is read firmly: on trial it never looks behind the tokens that
  are compared;
* `mirrors_goal` — an expression is read in the same way on both sides;
* `mirrors_namedStmt` and its companions — so is a statement, if the token behind it is the same.

The one token that ends a stretch and that a type may hold is a semicolon.  It stands between
brackets, and the tokens that are compared do not end between brackets.
-/
import FrontEnd.Proofs.Grammar.Progress
import FrontEnd.Proofs.Parser.Mirroring

namespace FrontEnd

/-- The brackets of a type are closed. -/
theorem TypeExpr.SpelledBy.brackets {type : TypeExpr} {ts : List Token} (h : type.SpelledBy ts) :
    countKind (.symbol .openBracket) ts = countKind (.symbol .closeBracket) ts := by
  induction h with
  | primitive ht => simp [countKind, ht]
  | string ht => simp [countKind, ht]
  | named name => simp [countKind, Identifier.token]
  | array ho _ hsemi hlength hc ih =>
    obtain ⟨hnumber, -, -⟩ := hlength
    simp only [countKind] at ih
    simp [countKind, ho, hsemi, hnumber, hc, ih]
  | pointer hstar _ ih => simpa [countKind, List.countP_cons, hstar] using ih
  | reference hmark _ ih => simpa [countKind, List.countP_cons, hmark] using ih
  | doubleReference hmarks _ ih => simpa [countKind, List.countP_cons, hmarks] using ih
  | generic name ho _ _ hc ih =>
    simpa [countKind, List.countP_cons, Identifier.token, ho, hc] using ih

namespace Parser

variable {α β : Type} {c : Comparison} {pre : State → Prop} {firm : Bool}

/-! ### Types -/

theorem mirrors_identifier_of {production : String}
    (hp : Mirrors c pre firm (Token.relocate unplaced) (expect .identifier production)
      (expect .identifier production)) :
    Mirrors c pre firm (Identifier.relocate unplaced) (identifier production)
      (identifier production) := by
  refine hp.bind fun t u h => mirrors_pure ⟨fun hp => by rw [h.same hp], ?_⟩
  simp only [Identifier.relocate, h.text_eq]
  rfl

theorem mirrors_identifier (production : String) :
    Mirrors c pre false (Identifier.relocate unplaced) (identifier production)
      (identifier production) := mirrors_identifier_of (mirrors_expect _ _)

theorem mirrors_number_of {production : String}
    (hp : Mirrors c pre firm (Token.relocate unplaced) (expect .number production)
      (expect .number production)) :
    Mirrors c pre firm (Number.relocate unplaced) (number production) (number production) := by
  refine hp.bind fun t u h => ?_
  have hlarge : Alike c.placed (Diagnostic.relocate unplaced) ⟨.numberTooLarge t.text, t.span⟩
      ⟨.numberTooLarge u.text, u.span⟩ := by
    refine ⟨fun hp => by rw [h.same hp], ?_⟩
    rw [h.text_eq]
    rfl
  rw [← h.text_eq] at hlarge ⊢
  split
  · split
    · exact mirrors_pure ⟨fun hp => by rw [h.same hp], rfl⟩
    · exact mirrors_throw rfl hlarge
  · exact mirrors_throw rfl hlarge

theorem mirrors_number (production : String) :
    Mirrors c pre firm (Number.relocate unplaced) (number production) (number production) :=
  mirrors_number_of (mirrors_expect_firm (by decide) production).loose

theorem mirrors_stringType :
    Mirrors c c.Before true (TypeExpr.relocate unplaced) stringType stringType :=
  (mirrors_expect_before _ _).bind fun t u h =>
    mirrors_pure ⟨fun hp => by rw [h.same hp], rfl⟩

theorem mirrors_primitiveType :
    Mirrors c c.Before true (TypeExpr.relocate unplaced) primitiveType primitiveType := by
  refine mirrors_advance_before.bind fun t u h => ?_
  rw [← h.kind_eq]
  split
  · exact mirrors_pure ⟨fun hp => by rw [h.same hp], rfl⟩
  · refine mirrors_throw rfl ⟨fun hp => by rw [h.same hp], ?_⟩
    rw [h.text_eq]
    rfl

section

-- The types inside a type start before the end of the stretch, and are mirrored.
variable {inner inner' : Parser TypeExpr}
  (hinner : Mirrors c c.Started true (TypeExpr.relocate unplaced) inner inner')

include hinner

theorem mirrors_genericClauseOf :
    Mirrors c pre true (TypeExpr.relocate unplaced) (genericClauseOf inner)
      (genericClauseOf inner') := by
  refine mirrors_opener (by decide) (mirrors_expect_firm (by decide) _) fun _ _ _ => ?_
  refine hinner.bind fun argument argument' h => ?_
  have hplain : argument.isPlain = argument'.isPlain := by
    rw [← TypeExpr.isPlain_relocate unplaced, h.shown, TypeExpr.isPlain_relocate]
  have hkind : argument.nodeKind = argument'.nodeKind := by
    rw [← TypeExpr.nodeKind_relocate unplaced, h.shown, TypeExpr.nodeKind_relocate]
  rw [← hplain]
  split
  · exact (mirrors_expect_firm (by decide) _).bind fun _ _ _ => mirrors_pure h
  · refine mirrors_throw rfl ⟨fun hp => by rw [h.same hp], ?_⟩
    rw [hkind]
    rfl

theorem mirrors_namedTypeOf :
    Mirrors c c.Before true (TypeExpr.relocate unplaced) (namedTypeOf inner) (namedTypeOf inner') := by
  refine (mirrors_identifier_of (mirrors_expect_before _ _)).bind fun name name' hname => ?_
  refine mirrors_kind_eq (by decide) ?_ ?_
  · refine (mirrors_genericClauseOf hinner).bind fun argument argument' hargument => ?_
    refine (mirrors_spanFrom (.position fun hp => by rw [hname.same hp])).bind fun _ _ hspan => ?_
    refine mirrors_pure ⟨fun hp => by rw [hname.same hp, hargument.same hp, hspan.same hp], ?_⟩
    simp only [TypeExpr.relocate, hname.shown, hargument.shown, hspan.shown]
  · exact mirrors_pure ⟨fun hp => by rw [hname.same hp], congrArg TypeExpr.named hname.shown⟩

theorem mirrors_pointerTypeOf :
    Mirrors c c.Before true (TypeExpr.relocate unplaced) (pointerTypeOf inner)
      (pointerTypeOf inner') := by
  refine mirrors_opener (by decide) (mirrors_expect_before _ _) fun t u ht => ?_
  refine hinner.bind fun a b hab => (mirrors_spanFrom ht.start_eq).bind fun _ _ hspan => ?_
  refine mirrors_pure ⟨fun hp => by rw [hab.same hp, hspan.same hp], ?_⟩
  simp only [TypeExpr.relocate, hab.shown, hspan.shown]

theorem mirrors_referenceTypeOf :
    Mirrors c c.Before true (TypeExpr.relocate unplaced) (referenceTypeOf inner)
      (referenceTypeOf inner') := by
  refine mirrors_opener (by decide) (mirrors_expect_before _ _) fun t u ht => ?_
  refine hinner.bind fun a b hab => (mirrors_spanFrom ht.start_eq).bind fun _ _ hspan => ?_
  refine mirrors_pure ⟨fun hp => by rw [hab.same hp, hspan.same hp], ?_⟩
  simp only [TypeExpr.relocate, hab.shown, hspan.shown]

theorem mirrors_doubleReferenceTypeOf :
    Mirrors c c.Before true (TypeExpr.relocate unplaced) (doubleReferenceTypeOf inner)
      (doubleReferenceTypeOf inner') := by
  refine mirrors_opener (by decide) (mirrors_expect_before _ _) fun t u ht => ?_
  refine hinner.bind fun a b hab => ?_
  refine (mirrors_spanFrom (.position fun hp => by rw [ht.same hp])).bind fun _ _ hinside => ?_
  refine (mirrors_spanFrom ht.start_eq).bind fun _ _ hspan => ?_
  refine mirrors_pure ⟨fun hp => by rw [hab.same hp, hinside.same hp, hspan.same hp], ?_⟩
  simp only [TypeExpr.relocate, hab.shown, hinside.shown, hspan.shown]

/-- Where the stretch ends with a semicolon, a bracket is open where the state stands. -/
def Enclosed (c : Comparison) (s : State) : Prop :=
  c.head.kind = .symbol .semicolon → ∀ us, s.rest = us ++ c.rest →
    countKind (.symbol .openBracket) us < countKind (.symbol .closeBracket) us

omit hinner in
/-- Behind an opening bracket one is open. -/
theorem Paired.enclosed {s s' : State} (h : Paired c s s')
    (hkind : s.current.kind = .symbol .openBracket) (hwithin : c.Within s.advance) :
    Enclosed c s.advance := by
  intro hend us hrest
  have hproper : s.current.kind ≠ .eof := by simp [hkind]
  rcases h.next with ⟨x, vs, -, -, hrest', -, -, -, hguard⟩ | ⟨hrest', -⟩
  · have hcurrent : s.current = x := current_of_rest hrest'
    have hadvance := rest_advance hrest' (hcurrent ▸ hproper)
    obtain rfl : vs = us := List.append_cancel_right (hadvance.symm.trans hrest)
    have hshut := hguard.shut hend (x :: vs) List.suffix_rfl
    rw [← hcurrent] at hshut
    simpa [countKind, List.countP_cons, hkind, Nat.succ_le_iff] using hshut
  · have hlt := length_rest_advance hproper
    rw [Comparison.Within, ← hrest'] at hwithin
    omega

omit hinner in
/-- A type between brackets does not reach the end of the stretch. -/
theorem Enclosed.before {s s' t : State} {ts : List Token} {type : TypeExpr}
    (h : Enclosed c s) (hs : Paired c s s') (hread : Reads s ts t) (htype : type.SpelledBy ts)
    (hend : c.head.kind = .symbol .semicolon) (hwithin : c.Within t) : c.Before t := by
  refine Nat.lt_of_le_of_ne hwithin fun hlen => ?_
  obtain ⟨us, -, hrest, -⟩ := hs.rest
  have hopen := h hend us hrest
  obtain rfl : ts = us := List.append_inj_left' (hread.rest.symm.trans hrest) hlen.symm
  rw [htype.brackets] at hopen
  exact Nat.lt_irrefl _ hopen

theorem mirrors_arrayTypeOf (hreads : ∀ seen s, Meets seen s inner TypeExpr.SpelledBy) :
    Mirrors c c.Before true (TypeExpr.relocate unplaced) (arrayTypeOf inner)
      (arrayTypeOf inner') := by
  refine (mirrors_expect_before _ _).bind_of (fun s => c.Started s ∧ Enclosed c s)
    (fun bracket bracket' hbracket => ?_) fun s s' a t hs _ hrun hwithin => ?_
  · refine (hinner.mono fun _ _ _ h => h.1).bind_of
      (fun s => c.head.kind = .symbol .semicolon → c.Before s)
      (fun element element' helement => ?_) fun s s' a t hs hpre hrun hwithin hend => ?_
    · refine (mirrors_expect_of (fun s s' hs hpre => ?_) _).bind fun _ _ _ => ?_
      · by_cases hend : c.head.kind = .symbol .semicolon
        · exact .inl (hpre hend)
        · exact .inr ⟨not_not.mp fun h => hend (Comparison.semicolon_of_not_exact h).1, hend⟩
      refine (mirrors_number _).bind fun length length' hlength => ?_
      refine (mirrors_expect_firm (by decide) _).bind fun _ _ _ => ?_
      refine (mirrors_spanFrom hbracket.start_eq).bind fun _ _ hspan => ?_
      refine mirrors_pure
        ⟨fun hp => by rw [helement.same hp, hlength.same hp, hspan.same hp], ?_⟩
      simp only [TypeExpr.relocate, helement.shown, hlength.shown, hspan.shown]
    · obtain ⟨ts, hread, -, htype⟩ := (hreads [] s).of_ok hrun
      exact hpre.2.before hs hread htype hend hwithin
  · obtain ⟨hkind, -, rfl⟩ := expect_eq_ok hrun
    exact ⟨hs.started_behind (hkind ▸ by decide) hwithin, hs.enclosed hkind hwithin⟩

theorem mirrors_typeExprOf (hreads : ∀ seen s, Meets seen s inner TypeExpr.SpelledBy) :
    Mirrors c c.Started true (TypeExpr.relocate unplaced) (typeExprOf Grammar.standard inner)
      (typeExprOf Grammar.standard inner') := by
  refine mirrors_kind_started fun k => ?_
  -- No type starts where a stretch ends.
  have hbefore : ∀ {form : TypeForm}, Grammar.standard.type? k = some form →
      ∀ s s', Paired c s s' → (c.Started s ∧ s.current.kind = k) → c.Before s := by
    rintro form hform s s' hs ⟨-, rfl⟩
    refine hs.before_of_kind fun hend => ?_
    rw [(by decide : ∀ k ∈ ends, Grammar.standard.type? k = none) _ hend] at hform
    exact nomatch hform
  split
  · exact mirrors_unexpected _ _
  · next h => exact (mirrors_pointerTypeOf hinner).mono (hbefore h)
  · next h => exact (mirrors_referenceTypeOf hinner).mono (hbefore h)
  · next h => exact (mirrors_doubleReferenceTypeOf hinner).mono (hbefore h)
  · next h => exact (mirrors_arrayTypeOf hinner hreads).mono (hbefore h)
  · next h => exact mirrors_stringType.mono (hbefore h)
  · next h => exact (mirrors_namedTypeOf hinner).mono (hbefore h)
  · next h => exact mirrors_primitiveType.mono (hbefore h)

end

/-- A type is read in the same way, and never up to behind the stretch. -/
theorem mirrors_typeExpr_firm :
    Mirrors c c.Started true (TypeExpr.relocate unplaced) (typeExpr Grammar.standard)
      (typeExpr Grammar.standard) :=
  mirrors_fix_of (l := id) (fun p => ∀ seen s, Meets seen s p TypeExpr.SpelledBy)
    (fun _ _ _ _ => meets_guarded fun _ => meets_typeExpr)
    (fun _ _ hreads hself _ _ _ =>
      mirrors_typeExprOf (hself () () (.refl _ _)) (hreads ())) (.refl id ())

theorem mirrors_typeExpr :
    Mirrors c pre false (TypeExpr.relocate unplaced) (typeExpr Grammar.standard)
      (typeExpr Grammar.standard) :=
  mirrors_typeExpr_firm.loose.of_started fun _ _ =>
    (meets_typeExpr.works_of_ne_nil fun _ _ h => h.startsWith.ne_nil).movesOn

theorem mirrors_genericClause :
    Mirrors c pre firm (TypeExpr.relocate unplaced) (genericClause Grammar.standard)
      (genericClause Grammar.standard) :=
  (mirrors_genericClauseOf mirrors_typeExpr_firm).loose

theorem mirrors_genericClause? :
    Mirrors c pre false (Option.map (TypeExpr.relocate unplaced)) (genericClause? Grammar.standard)
      (genericClause? Grammar.standard) := by
  refine mirrors_kind_eq (by decide) ?_ (mirrors_pure (.refl _ _))
  exact mirrors_genericClause.bind fun _ _ h => mirrors_pure (h.map some (congrArg some))

/-! ### Literals and lists -/

theorem placeSegments_unplaced (p q : Position) (segments : List Literal.Segment) :
    (placeSegments p segments).map (·.relocate unplaced) =
      (placeSegments q segments).map (·.relocate unplaced) := by
  induction segments generalizing p q with
  | nil => rfl
  | cons segment rest ih =>
    simp only [placeSegments, List.map_cons]
    rw [ih (p.along segment.raw.toList) (q.along segment.raw.toList)]
    rfl

theorem literalParts_unplaced {t u : Token} (h : t.text = u.text) (quote : Char) :
    (literalParts t quote).map (·.relocate unplaced) =
      (literalParts u quote).map (·.relocate unplaced) := by
  unfold literalParts literalParts?
  rw [h]
  cases Literal.scanString? quote u.text with
  | none => rfl
  | some literal => exact placeSegments_unplaced _ _ _

/-- A literal is taken apart in the same way wherever it stands. -/
theorem mirrors_takeApart {t u : Token} (h : Alike c.placed (Token.relocate unplaced) t u)
    (quote : Char) :
    Mirrors c pre false (List.map (·.relocate unplaced)) (takeApart t quote)
      (takeApart u quote) := by
  refine ⟨fun s => ?_, fun s s' hs _ => ?_⟩
  · rw [takeApart_run]
    exact Nat.le_refl _
  · rw [takeApart_run, takeApart_run]
    refine mirrored_ok ⟨fun hp => by rw [h.same hp], literalParts_unplaced h.text_eq quote⟩
      fun _ => ?_
    exact ⟨hs.rest, hs.consumed, hs.depth, hs.eof, hs.eof', hs.commentsTaken, hs.commentsIn,
      hs.diagnostics⟩

theorem mirrors_stringLiteral :
    Mirrors c pre false (StringLiteral.relocate unplaced) stringLiteral stringLiteral := by
  refine (mirrors_expect _ _).bind fun t u h => (mirrors_takeApart h '"').bind fun _ _ hparts => ?_
  refine mirrors_pure ⟨fun hp => by rw [h.same hp, hparts.same hp], ?_⟩
  simp only [StringLiteral.relocate, hparts.shown]
  rfl

theorem mirrors_charLiteral :
    Mirrors c pre false (CharLiteral.relocate unplaced) charLiteral charLiteral := by
  refine (mirrors_expect _ _).bind fun t u h => (mirrors_takeApart h '\'').bind fun _ _ hparts => ?_
  refine mirrors_pure ⟨fun hp => by rw [h.same hp, hparts.same hp], ?_⟩
  simp only [CharLiteral.relocate, hparts.shown]
  rfl

theorem mirrors_constant :
    Mirrors c pre false (Expr.relocate unplaced) constant constant := by
  refine mirrors_advance.bind fun t u h => ?_
  rw [← h.kind_eq]
  split
  · exact mirrors_pure ⟨fun hp => by rw [h.same hp], rfl⟩
  · exact mirrors_pure ⟨fun hp => by rw [h.same hp], rfl⟩
  · exact mirrors_pure ⟨fun hp => by rw [h.same hp], rfl⟩
  · refine mirrors_throw rfl ⟨fun hp => by rw [h.same hp], ?_⟩
    rw [h.text_eq]
    rfl

theorem mirrors_commaSeparated {m : α → β} {item item' : Parser α}
    (hitem : Mirrors c anywhere false m item item') :
    Mirrors c pre false (List.map m) (commaSeparated item) (commaSeparated item') := by
  have hothers : Mirrors c c.Started false m (do let _ ← advance; item)
      (do let _ ← advance; item') := mirrors_advance.bind fun _ _ _ => hitem
  refine hitem.weaken.bind fun first first' hfirst => ?_
  refine (mirrors_manyWhile (.inl (by decide)) hothers).bind fun others others' hothers => ?_
  exact mirrors_pure (hfirst.cons hothers)

theorem mirrors_genericThen {mark : Symbol}
    (hmark : Kind.symbol mark ∉ Kind.symbol .semicolon :: followers) :
    Mirrors c c.Before firm id (genericThen Grammar.standard mark)
      (genericThen Grammar.standard mark) := by
  have hclause : Mirrors c c.Before true id
      (do
        let _ ← advance
        let _ ← genericClause Grammar.standard
        return (← kind) == .symbol mark)
      (do
        let _ ← advance
        let _ ← genericClause Grammar.standard
        return (← kind) == .symbol mark) := by
    refine mirrors_advance_before.bind fun _ _ _ => mirrors_genericClause.bind fun _ _ _ => ?_
    refine mirrors_kind (fun k hk => ?_) fun k => mirrors_pure (.refl _ _)
    have hne : ∀ k ∈ Kind.symbol .semicolon :: followers, (k == .symbol mark) = false := by
      intro k hk
      refine beq_eq_false_iff_ne.mpr ?_
      rintro rfl
      exact hmark hk
    rw [hne k (List.mem_cons_of_mem _ hk), hne _ List.mem_cons_self]
  refine (mirrors_speculate hclause).bind fun found found' hfound => mirrors_pure ?_
  obtain rfl : found = found' := by simpa using hfound.shown
  exact .refl _ _

/-! ### Expressions -/

section

-- The expressions inside an expression are mirrored.
variable {inner inner' : Goal → Parser Expr}
  (hinner : ∀ goal, Mirrors c anywhere false (Expr.relocate unplaced) (inner goal) (inner' goal))

include hinner

theorem mirrors_argumentsOf :
    Mirrors c pre false (List.map (Expr.relocate unplaced)) (argumentsOf inner)
      (argumentsOf inner') := by
  refine (mirrors_expect _ _).bind fun _ _ _ => mirrors_kind_eq (by decide) ?_ ?_
  · exact (mirrors_expect _ _).bind fun _ _ _ => mirrors_pure (.refl _ _)
  · refine (mirrors_commaSeparated (hinner _)).bind fun _ _ harguments => ?_
    exact (mirrors_expect _ _).bind fun _ _ _ => mirrors_pure harguments

theorem mirrors_callOf (hasGeneric : Bool) :
    Mirrors c pre false (Call.relocate unplaced) (callOf Grammar.standard inner hasGeneric)
      (callOf Grammar.standard inner' hasGeneric) := by
  -- What comes behind the name and the generic argument.
  have hcall : ∀ {function function' : Identifier} {generic generic' : Option TypeExpr},
      Alike c.placed (Identifier.relocate unplaced) function function' →
      Alike c.placed (Option.map (TypeExpr.relocate unplaced)) generic generic' →
      Mirrors c anywhere false (Call.relocate unplaced)
        (do
          let arguments ← argumentsOf inner
          return ⟨function, generic, arguments, ← spanFrom function.span.start⟩)
        (do
          let arguments ← argumentsOf inner'
          return ⟨function', generic', arguments, ← spanFrom function'.span.start⟩) := by
    intro function function' generic generic' hfunction hgeneric
    refine (mirrors_argumentsOf hinner).bind fun _ _ harguments => ?_
    refine (mirrors_spanFrom (.position fun hp => by rw [hfunction.same hp])).bind
      fun _ _ hspan => mirrors_pure ⟨fun hp => ?_, ?_⟩
    · rw [hfunction.same hp, hgeneric.same hp, harguments.same hp, hspan.same hp]
    · simp only [Call.relocate, Expr.relocateAll_eq_map, hfunction.shown, hgeneric.shown,
        harguments.shown, hspan.shown]
  refine (mirrors_identifier _).bind fun function function' hfunction => ?_
  cases hasGeneric with
  | false => exact hcall hfunction (.refl _ none)
  | true =>
    have hsome : Mirrors c anywhere false (Option.map (TypeExpr.relocate unplaced))
        (some <$> genericClause Grammar.standard) (some <$> genericClause Grammar.standard) :=
      mirrors_genericClause.map fun _ _ h => h.map some (congrArg some)
    exact hsome.bind fun _ _ hgeneric => hcall hfunction hgeneric

theorem mirrors_fieldAccessOf :
    Mirrors c pre false (Expr.relocate unplaced) (fieldAccessOf inner) (fieldAccessOf inner') := by
  refine (mirrors_identifier _).bind fun object object' hobject => ?_
  refine (mirrors_expect _ _).bind fun _ _ _ => (hinner _).bind fun _ _ hmember => ?_
  refine (mirrors_spanFrom (.position fun hp => by rw [hobject.same hp])).bind
    fun _ _ hspan => mirrors_pure ⟨fun hp => ?_, ?_⟩
  · rw [hobject.same hp, hmember.same hp, hspan.same hp]
  · simp only [Expr.relocate, hobject.shown, hmember.shown, hspan.shown]

theorem mirrors_arrayAccessOf :
    Mirrors c pre false (Expr.relocate unplaced) (arrayAccessOf inner) (arrayAccessOf inner') := by
  refine (mirrors_identifier _).bind fun base base' hbase => ?_
  refine (mirrors_expect _ _).bind fun _ _ _ => (hinner _).bind fun _ _ hindex => ?_
  refine (mirrors_expect _ _).bind fun _ _ _ => ?_
  refine (mirrors_spanFrom (.position fun hp => by rw [hbase.same hp])).bind
    fun _ _ hspan => mirrors_pure ⟨fun hp => ?_, ?_⟩
  · rw [hbase.same hp, hindex.same hp, hspan.same hp]
  · simp only [Expr.relocate, hbase.shown, hindex.shown, hspan.shown]

theorem mirrors_namedOf :
    Mirrors c c.Before false (Expr.relocate unplaced) (namedOf Grammar.standard inner)
      (namedOf Grammar.standard inner') := by
  have hcall : ∀ {pre : State → Prop} (hasGeneric : Bool),
      Mirrors c pre false (Expr.relocate unplaced)
        (do return .call (← callOf Grammar.standard inner hasGeneric))
        (do return .call (← callOf Grammar.standard inner' hasGeneric)) := fun hasGeneric =>
    (mirrors_callOf hinner hasGeneric).bind fun _ _ h =>
      mirrors_pure (h.map Expr.call (congrArg Expr.call))
  have hname : ∀ {pre : State → Prop}, Mirrors c pre false (Expr.relocate unplaced)
      (do return .identifier (← identifier "identifier"))
      (do return .identifier (← identifier "identifier")) :=
    (mirrors_identifier _).bind fun _ _ h =>
      mirrors_pure (h.map Expr.identifier (congrArg Expr.identifier))
  refine mirrors_peekKind (by simp [followers]) fun k => ?_
  split
  · exact hcall false
  · refine (mirrors_genericThen (by decide)).bind fun found found' hfound => ?_
    obtain rfl : found = found' := hfound.shown
    cases found with
    | true => exact hcall true
    | false => exact hname
  · exact mirrors_fieldAccessOf hinner
  · exact mirrors_arrayAccessOf hinner
  · exact hname

theorem mirrors_rangeOf :
    Mirrors c pre false (Range.relocate unplaced) (rangeOf inner) (rangeOf inner') := by
  refine (hinner _).weaken.bind fun first first' hfirst => (mirrors_expect _ _).bind fun _ _ _ => ?_
  refine (mirrors_skip? (.inl (by decide))).bind fun inclusive inclusive' hinclusive => ?_
  refine (hinner _).bind fun last last' hlast => mirrors_pure ⟨fun hp => ?_, ?_⟩
  · rw [hfirst.same hp, hinclusive.same hp, hlast.same hp]
  · obtain rfl : inclusive = inclusive' := hinclusive.shown
    simp only [Range.relocate, hfirst.shown, hlast.shown]
    rfl

omit hinner in
theorem mirrors_constantList :
    Mirrors c c.Started false (ConstantList.relocate unplaced) constantList constantList := by
  have hvalue : Mirrors c c.Started false (Number.relocate unplaced)
      (do let value ← number "constant_list"; let _ ← skip? Symbol.pipe; return value)
      (do let value ← number "constant_list"; let _ ← skip? Symbol.pipe; return value) :=
    (mirrors_number _).bind fun _ _ h => (mirrors_skip? (.inl (by decide))).bind fun _ _ _ =>
      mirrors_pure h
  refine mirrors_position fun start start' hstart => (mirrors_number _).bind fun _ _ hfirst => ?_
  refine (mirrors_expect _ _).bind fun _ _ _ => ?_
  refine (mirrors_manyWhile (.inl (by decide)) hvalue).bind fun _ _ hothers => ?_
  refine (mirrors_spanFrom hstart).bind fun _ _ hspan => mirrors_pure ⟨fun hp => ?_, ?_⟩
  · rw [hfirst.same hp, hothers.same hp, hspan.same hp]
  · simp only [ConstantList.relocate, List.map_cons, hfirst.shown, hothers.shown, hspan.shown]

theorem mirrors_matchKeyOf :
    Mirrors c c.Started false (MatchKey.relocate unplaced) (matchKeyOf inner)
      (matchKeyOf inner') := by
  have hrange : ∀ {pre : State → Prop}, Mirrors c pre false (MatchKey.relocate unplaced)
      (do return .range (← rangeOf inner)) (do return .range (← rangeOf inner')) :=
    (mirrors_rangeOf hinner).bind fun _ _ h =>
      mirrors_pure (h.map MatchKey.range (congrArg MatchKey.range))
  refine mirrors_kind_peekKind (by simp [ends]) (fun k => ?_) hrange fun k next => ?_
  · cases k <;> simp [followers]
  split
  · exact (mirrors_identifier _).bind fun _ _ h =>
      mirrors_pure (h.map MatchKey.identifier (congrArg MatchKey.identifier))
  · refine (mirrors_constantList.mono fun _ _ _ h => .inl h).bind fun _ _ h => ?_
    exact mirrors_pure (h.map MatchKey.constants (congrArg MatchKey.constants))
  · exact (mirrors_number _).bind fun _ _ h =>
      mirrors_pure (h.map MatchKey.number (congrArg MatchKey.number))
  · exact mirrors_charLiteral.bind fun _ _ h =>
      mirrors_pure (h.map MatchKey.char (congrArg MatchKey.char))
  · exact hrange

theorem mirrors_matchArmOf :
    Mirrors c c.Started false (MatchArm.relocate unplaced) (matchArmOf inner)
      (matchArmOf inner') := by
  refine mirrors_position fun start start' hstart => ?_
  refine (mirrors_matchKeyOf hinner).bind fun _ _ hkey => (mirrors_expect _ _).bind fun _ _ _ => ?_
  refine (hinner _).bind fun _ _ hvalue => (mirrors_expect _ _).bind fun _ _ _ => ?_
  refine (mirrors_spanFrom hstart).bind fun _ _ hspan => mirrors_pure ⟨fun hp => ?_, ?_⟩
  · rw [hkey.same hp, hvalue.same hp, hspan.same hp]
  · simp only [MatchArm.relocate, hkey.shown, hvalue.shown, hspan.shown]

theorem mirrors_matchOf :
    Mirrors c pre false (Match.relocate unplaced) (matchOf inner) (matchOf inner') := by
  refine (mirrors_expect _ _).bind fun word word' hword => (hinner _).bind fun _ _ hvalue => ?_
  refine (mirrors_expect _ _).bind fun _ _ _ => ?_
  refine (mirrors_manyWhile (.inl (by decide)) (mirrors_matchArmOf hinner)).bind fun _ _ harms => ?_
  refine (mirrors_expect _ _).bind fun _ _ _ => (mirrors_spanFrom hword.start_eq).bind
    fun _ _ hspan => mirrors_pure ⟨fun hp => ?_, ?_⟩
  · rw [hvalue.same hp, harms.same hp, hspan.same hp]
  · simp only [Match.relocate, MatchArm.relocateAll_eq_map, hvalue.shown, harms.shown, hspan.shown]

theorem mirrors_primaryOf :
    Mirrors c pre false (Expr.relocate unplaced) (primaryOf Grammar.standard inner)
      (primaryOf Grammar.standard inner') := by
  refine Mirrors.of_started (fun s hs a t hrun => ?_) (mirrors_kind_started fun k => ?_)
  · -- No expression starts with a semicolon.
    have hkind : kind s = .ok (.symbol .semicolon) s := by
      rw [← hs]
      rfl
    rw [primaryOf, bind_of_ok hkind] at hrun
    exact nomatch hrun
  split
  · exact mirrors_unexpected _ _
  · exact (mirrors_number _).bind fun _ _ h =>
      mirrors_pure (h.map Expr.number (congrArg Expr.number))
  · exact mirrors_charLiteral.bind fun _ _ h =>
      mirrors_pure (h.map Expr.char (congrArg Expr.char))
  · exact mirrors_stringLiteral.bind fun _ _ h =>
      mirrors_pure (h.map Expr.string (congrArg Expr.string))
  · exact mirrors_constant
  · next hform =>
    refine (mirrors_namedOf hinner).mono fun s s' hs h => hs.before_of_kind fun hend => ?_
    rw [← h.2, (by decide : ∀ k ∈ ends, Grammar.standard.primary? k = none) _ hend] at hform
    exact nomatch hform
  · exact (mirrors_matchOf hinner).bind fun _ _ h =>
      mirrors_pure (h.map Expr.matching (congrArg Expr.matching))

theorem mirrors_binaryOf {left left' : Expr} (power : BindingPower)
    (hleft : Alike c.placed (Expr.relocate unplaced) left left') :
    Mirrors c pre false (Expr.relocate unplaced) (binaryOf inner left power)
      (binaryOf inner' left' power) := by
  refine mirrors_kind (by simp [followers, BinaryOperator.ofKind?]) fun k => ?_
  split
  · exact mirrors_unexpected _ _
  · refine mirrors_advance.bind fun t u ht => (hinner _).bind fun right right' hright => ?_
    refine mirrors_pure ⟨fun hp => by rw [hleft.same hp, ht.same hp, hright.same hp], ?_⟩
    simp only [Expr.relocate, hleft.shown, hright.shown]
    rfl

omit hinner in
/-- A type that is tried fails for the same reason on both sides. -/
theorem mirrors_castTarget :
    Mirrors c pre false (TypeExpr.relocate unplaced) (castTarget Grammar.standard)
      (castTarget Grammar.standard) := by
  refine Mirrors.of_started (fun s _ => ?_)
    ⟨steady_of_meets fun s => meets_castTarget, fun s s' hs hstarted => ?_⟩
  · exact (meets_castTarget.works_of_ne_nil fun _ _ h => h.startsWith.ne_nil).movesOn
  have htype := mirrors_typeExpr_firm.run s s' hs hstarted
  have hahead : (s.current.kind = .identifier ∧ (s.peek 1).kind = .symbol .less) ↔
      (s'.current.kind = .identifier ∧ (s'.peek 1).kind = .symbol .less) := by
    rw [(hs.current hstarted).kind_eq]
    refine and_congr_right fun hname => ?_
    have hbefore : c.Before s := hs.before_of_kind (by
      rw [(hs.current hstarted).kind_eq, hname]
      decide)
    rcases hs.peek_kinds hbefore with hkind | ⟨hkind, hkind'⟩
    · rw [hkind]
    · rw [hkind]
      refine iff_of_false (by decide) fun h => ?_
      rw [h] at hkind'
      exact absurd hkind' (by decide)
  rw [castTarget_run, castTarget_run]
  by_cases hname : s.current.kind = .identifier ∧ (s.peek 1).kind = .symbol .less
  · rw [if_pos hname, if_pos (hahead.mp hname)]
    cases hrun : typeExpr Grammar.standard s with
    | ok target t =>
      obtain ⟨target', t', hrun', halike, ht⟩ := htype.ok _ _ hrun (.inl rfl)
      rw [hrun']
      exact mirrored_ok halike fun _ => ht
    | error d t =>
      obtain ⟨d', t', hrun', ht, hmalformed, hd⟩ := htype.error _ _ hrun (.inl rfl)
      rw [hrun']
      -- What is tried fails for good only because of its generic argument.
      have hname : Mirrors c anywhere false (TypeExpr.relocate unplaced)
          (identifier "type" >>= fun name => pure (.named name))
          (identifier "type" >>= fun name => pure (.named name)) :=
        (mirrors_identifier _).bind fun _ _ h =>
          mirrors_pure (h.map TypeExpr.named (congrArg TypeExpr.named))
      simp only
      split <;> split
      · exact mirrored_error ht hmalformed hd
      · simp_all [malformed]
      · simp_all [malformed]
      · exact hname.run _ _ (hs.restore ht) trivial
  · rw [if_neg hname, if_neg fun h => hname (hahead.mpr h)]
    exact (mirrors_typeExpr_firm.loose).run s s' hs hstarted

omit hinner in
theorem mirrors_typecastOf {left left' : Expr}
    (hleft : Alike c.placed (Expr.relocate unplaced) left left') :
    Mirrors c pre false (Expr.relocate unplaced) (typecastOf Grammar.standard left)
      (typecastOf Grammar.standard left') := by
  refine (mirrors_expect _ _).bind fun _ _ _ => mirrors_castTarget.bind fun _ _ htarget => ?_
  refine (mirrors_spanFrom (.position fun hp => by rw [hleft.same hp])).bind
    fun _ _ hspan => mirrors_pure ⟨fun hp => ?_, ?_⟩
  · rw [hleft.same hp, htarget.same hp, hspan.same hp]
  · simp only [Expr.relocate, hleft.shown, htarget.shown, hspan.shown]

theorem mirrors_operatorsOf (power : BindingPower) {left left' : Expr}
    (hleft : Alike c.placed (Expr.relocate unplaced) left left') :
    Mirrors c anywhere false (Expr.relocate unplaced)
      (operatorsOf Grammar.standard inner power left)
      (operatorsOf Grammar.standard inner' power left') := by
  refine mirrors_fix (l := Expr.relocate unplaced)
    (fun more more' hmore left left' hleft => ?_) hleft
  refine mirrors_kind (by simp [followers, Grammar.standard]) fun k => ?_
  split
  · exact mirrors_pure hleft
  · split
    · split
      · exact (mirrors_binaryOf hinner _ hleft).bind fun e e' he => hmore e e' he
      · exact (mirrors_typecastOf hleft).bind fun e e' he => hmore e e' he
    · exact mirrors_pure hleft

theorem mirrors_goalOf (goal : Goal) :
    Mirrors c anywhere false (Expr.relocate unplaced) (goalOf Grammar.standard inner goal)
      (goalOf Grammar.standard inner' goal) := by
  cases goal with
  | primary => exact mirrors_primaryOf hinner
  | above power =>
    exact (mirrors_primaryOf hinner).bind fun _ _ h => mirrors_operatorsOf hinner power h

end

/-- An expression is read in the same way. -/
theorem mirrors_goal (goal : Goal) :
    Mirrors c pre false (Expr.relocate unplaced) (Parser.goal Grammar.standard goal)
      (Parser.goal Grammar.standard goal) := by
  refine Mirrors.weaken (mirrors_fix (l := id) (fun self self' hself goal goal' hgoal => ?_)
    (.refl _ _))
  obtain rfl : goal = goal' := hgoal.shown
  exact mirrors_goalOf (fun goal => hself goal goal (.refl _ _)) goal

theorem mirrors_expression (power : BindingPower) :
    Mirrors c pre false (Expr.relocate unplaced) (expression Grammar.standard power)
      (expression Grammar.standard power) := mirrors_goal _

theorem mirrors_primary :
    Mirrors c pre false (Expr.relocate unplaced) (primary Grammar.standard)
      (primary Grammar.standard) := mirrors_goal _

/-! ### First values -/

theorem mirrors_fieldInit :
    Mirrors c pre false (FieldInit.relocate unplaced) (fieldInit Grammar.standard)
      (fieldInit Grammar.standard) := by
  refine (mirrors_identifier _).bind fun name name' hname => (mirrors_expect _ _).bind fun _ _ _ => ?_
  refine (mirrors_expression _).bind fun _ _ hvalue => ?_
  refine (mirrors_skip? (.inl (by decide))).bind fun _ _ _ => ?_
  refine (mirrors_spanFrom (.position fun hp => by rw [hname.same hp])).bind
    fun _ _ hspan => mirrors_pure ⟨fun hp => ?_, ?_⟩
  · rw [hname.same hp, hvalue.same hp, hspan.same hp]
  · simp only [FieldInit.relocate, hname.shown, hvalue.shown, hspan.shown]

theorem mirrors_structInit :
    Mirrors c pre false (StructInit.relocate unplaced) (structInit Grammar.standard)
      (structInit Grammar.standard) := by
  refine (mirrors_identifier _).bind fun name name' hname => ?_
  refine mirrors_genericClause?.bind fun _ _ hgeneric => (mirrors_expect _ _).bind fun _ _ _ => ?_
  refine (mirrors_manyWhile (.inl (by decide)) mirrors_fieldInit).bind fun _ _ hfields => ?_
  refine (mirrors_expect _ _).bind fun _ _ _ => ?_
  refine (mirrors_spanFrom (.position fun hp => by rw [hname.same hp])).bind
    fun _ _ hspan => mirrors_pure ⟨fun hp => ?_, ?_⟩
  · rw [hname.same hp, hgeneric.same hp, hfields.same hp, hspan.same hp]
  · simp only [StructInit.relocate, FieldInit.relocateAll_eq_map, hname.shown, hgeneric.shown,
      hfields.shown, hspan.shown]

theorem mirrors_structInitAhead :
    Mirrors c c.Started false id (structInitAhead Grammar.standard)
      (structInitAhead Grammar.standard) := by
  have hfalse : ∀ {pre : State → Prop}, Mirrors c pre false id (pure false) (pure false) :=
    mirrors_pure (.refl _ _)
  refine mirrors_kind_peekKind (by simp [ends]) (fun k => ?_) hfalse fun k next => ?_
  · cases k <;> simp [followers]
  split
  · exact mirrors_pure (.refl _ _)
  · exact mirrors_genericThen (by decide)
  · exact mirrors_pure (.refl _ _)

theorem mirrors_initializer :
    Mirrors c pre false (Expr.relocate unplaced) (initializer Grammar.standard)
      (initializer Grammar.standard) := by
  refine Mirrors.of_started (fun s _ => (ReadingProduction.initializer.works s).movesOn) ?_
  refine mirrors_structInitAhead.bind fun ahead ahead' hahead => ?_
  obtain rfl : ahead = ahead' := hahead.shown
  cases ahead with
  | true =>
    exact mirrors_structInit.bind fun _ _ h =>
      mirrors_pure (h.map Expr.structInit (congrArg Expr.structInit))
  | false => exact mirrors_expression _

end Parser

end FrontEnd
