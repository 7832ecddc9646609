/-
Looking ahead is exact.

A call and a struct initialization with a generic argument start like a comparison.  They are
told apart by trying the generic clause and looking at the mark behind it; the clause is then
read again, by the construct that was found.

* `Angled` — behind the name that is next stand an angle bracket, a plain type, a closing
  angle bracket and a given mark;
* `genericThen_run` — that is what trying the clause finds, and it leaves no trace;
* `named_of_angled` and `structInit_of_angled` — what was found is read again up to the mark,
  with the same argument;
* `lookahead_exact` — all of it together, with what happens where nothing was found.

A type can fail to be read at any depth, so what a failed try leaves behind is not seen from
its first tokens; that it is nothing rests on types being read without a trace.
-/
import FrontEnd.Proofs.Grammar.Expressions
import FrontEnd.Token.Tokenize

namespace FrontEnd.Parser

variable {g : Grammar} {s s' : State} {argument : TypeExpr} {mark : Symbol}

/-! ### The next tokens -/

/-- Behind a token that is consumed the one after it is next. -/
theorem current_advance (h : s.current.kind ≠ .eof) : s.advance.current = s.peek 1 := by
  have hpass := passes_advance h
  rw [State.current, State.peek, State.peek, hpass.rest, hpass.eof]
  rfl

theorem identifier_of_kind (h : s.current.kind = .identifier) (production : String) :
    identifier production s = .ok ⟨s.current.text, s.current.span⟩ s.advance := by
  have hrun : expect .identifier production s = .ok s.current s.advance := by
    rw [expect_run, if_pos h]
  exact bind_of_ok hrun

/-! ### Generic clauses -/

/-- A generic clause is an angle bracket, a plain type and a closing angle bracket. -/
theorem genericClause_eq_ok_iff :
    genericClause g s = .ok argument s' ↔
      s.current.kind = .symbol .less ∧ ∃ s₁, typeExpr g s.advance = .ok argument s₁ ∧
        argument.isPlain ∧ s₁.current.kind = .symbol .greater ∧ s₁.advance = s' := by
  unfold genericClause genericClauseOf
  constructor
  · intro h
    obtain ⟨o, s₀, ho, h⟩ := bind_eq_ok h
    obtain ⟨hless, rfl, rfl⟩ := expect_eq_ok ho
    obtain ⟨argument', s₁, hargument, h⟩ := bind_eq_ok h
    split at h
    · next hplain =>
      obtain ⟨c, s₂, hc, h⟩ := bind_eq_ok h
      obtain ⟨hgreater, rfl, rfl⟩ := expect_eq_ok hc
      obtain ⟨rfl, rfl⟩ := EStateM.Result.ok.inj h
      exact ⟨hless, s₁, hargument, hplain, hgreater, rfl⟩
    · cases h
  · rintro ⟨hless, s₁, hargument, hplain, hgreater, rfl⟩
    have ho : expect Symbol.less "generic" s = .ok s.current s.advance := by
      rw [expect_run, if_pos hless]
    have hc : expect Symbol.greater "generic" s₁ = .ok s₁.current s₁.advance := by
      rw [expect_run, if_pos hgreater]
    rw [bind_of_ok ho, bind_of_ok hargument, if_pos hplain, bind_of_ok hc]
    rfl

/-- Behind the next token stand a plain type in angle brackets and then the mark, which is
next in `s'`. -/
structure Angled (s : State) (argument : TypeExpr) (mark : Symbol) (s' : State) : Prop where
  less : (s.peek 1).kind = .symbol .less
  /-- The type and the closing angle bracket. -/
  closed : ∃ s₁, typeExpr Grammar.standard s.advance.advance = .ok argument s₁ ∧
    s₁.current.kind = .symbol .greater ∧ s₁.advance = s'
  plain : argument.isPlain
  mark : s'.current.kind = .symbol mark

theorem angled_iff (h : s.current.kind = .identifier) :
    Angled s argument mark s' ↔
      genericClause Grammar.standard s.advance = .ok argument s' ∧
        s'.current.kind = .symbol mark := by
  have hnext : s.advance.current = s.peek 1 := current_advance (by rw [h]; simp)
  rw [genericClause_eq_ok_iff, hnext]
  constructor
  · rintro ⟨hless, ⟨s₁, htype, hgreater, hs'⟩, hplain, hmark⟩
    exact ⟨⟨hless, s₁, htype, hplain, hgreater, hs'⟩, hmark⟩
  · rintro ⟨⟨hless, s₁, htype, hplain, hgreater, hs'⟩, hmark⟩
    exact ⟨hless, ⟨s₁, htype, hgreater, hs'⟩, hplain, hmark⟩

/-- What stands in the brackets, and where the mark is, is determined. -/
theorem Angled.unique (h : s.current.kind = .identifier) (ha : Angled s argument mark s')
    {argument' : TypeExpr} {s'' : State} {mark' : Symbol} (hb : Angled s argument' mark' s'') :
    argument = argument' ∧ s' = s'' ∧ mark = mark' := by
  obtain ⟨hclause, hmark⟩ := (angled_iff h).mp ha
  obtain ⟨hclause', hmark'⟩ := (angled_iff h).mp hb
  obtain ⟨rfl, rfl⟩ := EStateM.Result.ok.inj (hclause.symm.trans hclause')
  refine ⟨rfl, rfl, ?_⟩
  exact Kind.symbol.inj (hmark.symm.trans hmark')

/-! ### Trying a generic clause -/

/-- Trying a generic clause looks at the token behind it, and changes nothing. -/
theorem genericThen_run (h : s.current.kind = .identifier) (mark : Symbol) :
    genericThen Grammar.standard mark s =
      .ok (match genericClause Grammar.standard s.advance with
        | .ok _ s' => s'.current.kind == .symbol mark
        | .error _ _ => false) s := by
  obtain ⟨found, hrun⟩ := looks_genericThen h mark
  rw [hrun]
  -- The state is `s` in any case, so only what was found is left to compare.
  obtain ⟨result, s₁, htried, hfound⟩ := bind_eq_ok hrun
  obtain ⟨rfl, -⟩ := EStateM.Result.ok.inj hfound
  rw [speculate_run] at htried
  have hadvance : advance s = .ok s.current s.advance := rfl
  cases hclause : genericClause Grammar.standard s.advance with
  | ok argument s₂ =>
    rw [bind_of_ok hadvance, bind_of_ok hclause] at htried
    obtain ⟨rfl, -⟩ := EStateM.Result.ok.inj htried
    show EStateM.Result.ok (some (s₂.current.kind == Kind.symbol mark) == some true) s = _
    rw [Option.some_beq_some, beq_true]
  | error d s₂ =>
    rw [bind_of_ok hadvance, bind_of_error hclause] at htried
    obtain ⟨rfl, -⟩ := EStateM.Result.ok.inj htried
    rfl

/-- What is tried is found exactly where it stands. -/
theorem genericThen_eq_true_iff (h : s.current.kind = .identifier) (mark : Symbol) :
    ∃ found, genericThen Grammar.standard mark s = .ok found s ∧
      (found = true ↔ ∃ argument s', Angled s argument mark s') := by
  refine ⟨_, genericThen_run h mark, ?_⟩
  simp only [angled_iff h]
  cases hclause : genericClause Grammar.standard s.advance with
  | ok argument s₁ =>
    constructor
    · intro hmark
      exact ⟨argument, s₁, rfl, eq_of_beq hmark⟩
    · rintro ⟨argument', s', hrun, hmark⟩
      obtain ⟨-, rfl⟩ := EStateM.Result.ok.inj hrun
      exact beq_iff_eq.mpr hmark
  | error d s₁ => simp

/-- A struct initialization is announced by a brace behind the name or behind its generic
argument, and the look-ahead changes nothing. -/
theorem structInitAhead_eq_true_iff (h : s.current.kind = .identifier) :
    ∃ found, structInitAhead Grammar.standard s = .ok found s ∧
      (found = true ↔ (s.peek 1).kind = .symbol .openCurly ∨
        ∃ argument s', Angled s argument .openCurly s') := by
  generalize hrun : structInitAhead Grammar.standard s = result
  rw [structInitAhead, kind_bind_run, peekKind_bind_run] at hrun
  generalize hhere : s.current.kind = here at hrun
  generalize hnext : (s.peek 1).kind = next at hrun
  split at hrun
  · exact ⟨true, hrun.symm, iff_of_true rfl (.inl rfl)⟩
  · obtain ⟨found, hfound, hiff⟩ := genericThen_eq_true_iff h .openCurly
    exact ⟨found, hrun.symm.trans hfound, hiff.trans (or_iff_right (by simp)).symm⟩
  · next hbrace hless =>
    refine ⟨false, hrun.symm, iff_of_false (by simp) ?_⟩
    rintro (hopen | ⟨argument, s', hangled⟩)
    · exact hbrace (hhere.symm.trans h) hopen
    · exact hless (hhere.symm.trans h) (hnext.symm.trans hangled.less)

/-! ### Reading what was found -/

/-- The arguments of a call, and the call that is made of them. -/
def callFrom (name : Identifier) (generic : Option TypeExpr) : Parser Expr := do
  let arguments ← argumentsOf (goal Grammar.standard)
  return .call ⟨name, generic, arguments, ← spanFrom name.span.start⟩

/-- The fields of a struct initialization, from behind its opening brace on. -/
def structInitFrom (name : Identifier) (generic : Option TypeExpr) : Parser StructInit := do
  let fields ← manyWhile (fun k => k ≠ Symbol.closeCurly && k ≠ .eof) (fieldInit Grammar.standard)
  let _ ← expect Symbol.closeCurly "struct_initialization"
  return ⟨name, generic, fields, ← spanFrom name.span.start⟩

/-- Whether a name with an angle bracket behind it is a call is decided by trying the clause. -/
theorem named_of_less (h : (s.peek 1).kind = .symbol .less) :
    named Grammar.standard s =
      (genericThen Grammar.standard .openParen >>= fun found =>
        if found then do return .call (← callOf Grammar.standard (goal Grammar.standard) true)
        else do return .identifier (← identifier "identifier")) s := by
  have hpeek : peekKind 1 s = .ok (.symbol .less) s := by
    rw [← h]
    rfl
  unfold named namedOf
  rw [bind_of_ok hpeek]

/-- A call with a generic argument is read from its arguments on. -/
theorem named_of_angled (h : s.current.kind = .identifier)
    (hangled : Angled s argument .openParen s') :
    named Grammar.standard s =
      callFrom ⟨s.current.text, s.current.span⟩ (some argument) s' := by
  obtain ⟨found, hfound, hiff⟩ := genericThen_eq_true_iff h .openParen
  obtain rfl : found = true := hiff.mpr ⟨argument, s', hangled⟩
  obtain ⟨hclause, -⟩ := (angled_iff h).mp hangled
  have hgeneric : (some <$> genericClause Grammar.standard) s.advance = .ok (some argument) s' := by
    rw [map_run, bind_of_ok hclause]
    rfl
  rw [named_of_less hangled.less, bind_of_ok hfound, if_pos rfl, callFrom, callOf, bind_run,
    bind_of_ok (identifier_of_kind h _), if_pos rfl, bind_of_ok hgeneric, bind_run]
  show Outcome.andThen ((argumentsOf (goal Grammar.standard) >>= _) s') _ = _
  rw [bind_run]
  cases argumentsOf (goal Grammar.standard) s' <;> rfl

/-- A name with an angle bracket behind it that starts no call is a name. -/
theorem named_of_not_angled (h : s.current.kind = .identifier)
    (hless : (s.peek 1).kind = .symbol .less)
    (hnot : ¬ ∃ argument s', Angled s argument .openParen s') :
    named Grammar.standard s =
      .ok (.identifier ⟨s.current.text, s.current.span⟩) s.advance := by
  obtain ⟨found, hfound, hiff⟩ := genericThen_eq_true_iff h .openParen
  have hfalse : ¬ found = true := fun hfound => hnot (hiff.mp hfound)
  rw [named_of_less hless, bind_of_ok hfound, if_neg hfalse, bind_of_ok (identifier_of_kind h _)]
  rfl

/-- A call that is read has its generic argument from the clause behind the name, or there is
none. -/
theorem generic_of_named {c : Call} {s'' : State} (h : s.current.kind = .identifier)
    (hrun : named Grammar.standard s = .ok (.call c) s'') :
    c.generic = none ∧ (s.peek 1).kind = .symbol .openParen ∨
      ∃ argument s', Angled s argument .openParen s' ∧ c.generic = some argument := by
  by_cases hangled : ∃ argument s', Angled s argument .openParen s'
  · obtain ⟨argument, s', hangled⟩ := hangled
    rw [named_of_angled h hangled] at hrun
    obtain ⟨arguments, s₁, -, hrun⟩ := bind_eq_ok hrun
    obtain ⟨hc, -⟩ := EStateM.Result.ok.inj hrun
    exact .inr ⟨argument, s', hangled, (congrArg Call.generic (Expr.call.inj hc)).symm⟩
  · left
    by_cases hless : (s.peek 1).kind = .symbol .less
    · rw [named_of_not_angled h hless hangled] at hrun
      exact absurd (EStateM.Result.ok.inj hrun).1 (by simp)
    · have hpeek : peekKind 1 s = .ok (s.peek 1).kind s := rfl
      unfold named namedOf at hrun
      rw [bind_of_ok hpeek] at hrun
      generalize (s.peek 1).kind = next at hless hrun ⊢
      split at hrun
      · obtain ⟨c', s₁, hcall, hrun⟩ := bind_eq_ok hrun
        obtain ⟨hc, -⟩ := EStateM.Result.ok.inj hrun
        obtain rfl := Expr.call.inj hc
        obtain ⟨function, s₂, -, hcall⟩ := bind_eq_ok hcall
        obtain ⟨generic, s₃, hgeneric, hcall⟩ := bind_eq_ok hcall
        obtain ⟨rfl, -⟩ := EStateM.Result.ok.inj hgeneric
        obtain ⟨arguments, s₄, -, hcall⟩ := bind_eq_ok hcall
        obtain ⟨rfl, -⟩ := EStateM.Result.ok.inj hcall
        exact ⟨rfl, rfl⟩
      · contradiction
      · obtain ⟨object, s₁, -, hrun⟩ := bind_eq_ok hrun
        obtain ⟨dot, s₂, -, hrun⟩ := bind_eq_ok hrun
        obtain ⟨member, s₃, -, hrun⟩ := bind_eq_ok hrun
        exact absurd (EStateM.Result.ok.inj hrun).1 (by simp)
      · obtain ⟨base, s₁, -, hrun⟩ := bind_eq_ok hrun
        obtain ⟨o, s₂, -, hrun⟩ := bind_eq_ok hrun
        obtain ⟨index, s₃, -, hrun⟩ := bind_eq_ok hrun
        obtain ⟨c, s₄, -, hrun⟩ := bind_eq_ok hrun
        exact absurd (EStateM.Result.ok.inj hrun).1 (by simp)
      · obtain ⟨name, s₁, -, hrun⟩ := bind_eq_ok hrun
        exact absurd (EStateM.Result.ok.inj hrun).1 (by simp)

/-- A struct initialization whose generic argument, if there is one, is read goes on behind
its brace. -/
theorem structInit_of_clause {generic : Option TypeExpr} (h : s.current.kind = .identifier)
    (hgeneric : genericClause? Grammar.standard s.advance = .ok generic s')
    (hbrace : s'.current.kind = .symbol .openCurly) :
    structInit Grammar.standard s =
      structInitFrom ⟨s.current.text, s.current.span⟩ generic s'.advance := by
  have hopen : expect Symbol.openCurly "struct_initialization" s' = .ok s'.current s'.advance := by
    rw [expect_run, if_pos hbrace]
  rw [structInit, bind_of_ok (identifier_of_kind h _), bind_of_ok hgeneric, bind_of_ok hopen]
  rfl

theorem structInit_of_angled (h : s.current.kind = .identifier)
    (hangled : Angled s argument .openCurly s') :
    structInit Grammar.standard s =
      structInitFrom ⟨s.current.text, s.current.span⟩ (some argument) s'.advance := by
  obtain ⟨hclause, hbrace⟩ := (angled_iff h).mp hangled
  refine structInit_of_clause h ?_ hbrace
  have hless : s.advance.current.kind = .symbol .less := by
    rw [current_advance (by rw [h]; simp), hangled.less]
  show (if s.advance.current.kind = Kind.symbol .less then _ else _ :
    Parser (Option TypeExpr)) s.advance = _
  rw [if_pos hless, bind_of_ok hclause]
  rfl

theorem structInit_of_brace (h : s.current.kind = .identifier)
    (hbrace : (s.peek 1).kind = .symbol .openCurly) :
    structInit Grammar.standard s =
      structInitFrom ⟨s.current.text, s.current.span⟩ none s.advance.advance := by
  have hnext : s.advance.current.kind = .symbol .openCurly := by
    rw [current_advance (by rw [h]; simp), hbrace]
  refine structInit_of_clause h ?_ hnext
  show (if s.advance.current.kind = Kind.symbol .less then _ else _ :
    Parser (Option TypeExpr)) s.advance = _
  rw [if_neg (by rw [hnext]; simp)]
  rfl

/-- A call whose name and generic argument are read can fail only in its arguments. -/
theorem callFrom_eq_error {name : Identifier} {generic : Option TypeExpr} {d : Diagnostic}
    (h : callFrom name generic s = .error d s') :
    argumentsOf (goal Grammar.standard) s = .error d s' := by
  cases hrun : argumentsOf (goal Grammar.standard) s with
  | ok arguments s₁ =>
    have hok : callFrom name generic s =
        .ok (.call ⟨name, generic, arguments, s₁.spanFrom name.span.start⟩) s₁ := bind_of_ok hrun
    exact absurd (hok.symm.trans h) (by simp)
  | error d' s₁ =>
    have herror : callFrom name generic s = .error d' s₁ := bind_of_error hrun
    obtain ⟨rfl, rfl⟩ := EStateM.Result.error.inj (herror.symm.trans h)
    rfl

/-- **Looking ahead is exact.**  Where a name is next:

* trying a generic clause with a parenthesis behind it succeeds exactly where one stands;
  then the call is read from that parenthesis on, with the same argument, so that only its
  arguments can fail; where none stands, an angle bracket is left alone, and no call that is
  read has a generic argument;
* a struct initialization is announced exactly by a brace behind the name or behind such a
  clause, and then it is read from behind that brace on;
* both leave the whole state as it was, whatever they find. -/
theorem lookahead_exact (h : s.current.kind = .identifier) :
    (∃ found, genericThen Grammar.standard .openParen s = .ok found s ∧
      (found = true ↔ ∃ argument s', Angled s argument .openParen s')) ∧
    (∀ argument s', Angled s argument .openParen s' →
      named Grammar.standard s =
        callFrom ⟨s.current.text, s.current.span⟩ (some argument) s' ∧
      ∀ d s'', named Grammar.standard s = .error d s'' →
        argumentsOf (goal Grammar.standard) s' = .error d s'') ∧
    ((¬ ∃ argument s', Angled s argument .openParen s') → (s.peek 1).kind = .symbol .less →
      named Grammar.standard s =
        .ok (.identifier ⟨s.current.text, s.current.span⟩) s.advance) ∧
    (∀ c s'', named Grammar.standard s = .ok (.call c) s'' →
      ∀ argument, c.generic = some argument ↔ ∃ s', Angled s argument .openParen s') ∧
    (∃ found, structInitAhead Grammar.standard s = .ok found s ∧
      (found = true ↔ (s.peek 1).kind = .symbol .openCurly ∨
        ∃ argument s', Angled s argument .openCurly s')) ∧
    ((s.peek 1).kind = .symbol .openCurly →
      structInit Grammar.standard s =
        structInitFrom ⟨s.current.text, s.current.span⟩ none s.advance.advance) ∧
    ∀ argument s', Angled s argument .openCurly s' →
      structInit Grammar.standard s =
        structInitFrom ⟨s.current.text, s.current.span⟩ (some argument) s'.advance := by
  refine ⟨genericThen_eq_true_iff h .openParen, ?_,
    fun hnot hless => named_of_not_angled h hless hnot, ?_, structInitAhead_eq_true_iff h,
    structInit_of_brace h, fun _ _ hangled => structInit_of_angled h hangled⟩
  · intro argument s' hangled
    refine ⟨named_of_angled h hangled, fun d s'' herror => ?_⟩
    rw [named_of_angled h hangled] at herror
    exact callFrom_eq_error herror
  · intro c s'' hrun argument
    constructor
    · intro hgeneric
      rcases generic_of_named h hrun with ⟨hnone, -⟩ | ⟨argument', s', hangled, hsome⟩
      · rw [hnone] at hgeneric
        exact absurd hgeneric (by simp)
      · rw [hsome] at hgeneric
        obtain rfl := Option.some.inj hgeneric
        exact ⟨s', hangled⟩
    · rintro ⟨s', hangled⟩
      rcases generic_of_named h hrun with ⟨-, hparen⟩ | ⟨argument', s₁, hangled', hsome⟩
      · exact absurd (hparen.symm.trans hangled.less) (by simp)
      · obtain ⟨rfl, -, -⟩ := hangled.unique h hangled'
        exact hsome

/-- A nested argument, and an argument list that fails: `f<[*T; 2]>(+)`. -/
theorem lookahead_exact_brokenCall :
    (State.ofStream (tokenize "f<[*T; 2]>(+)").stream).current.kind = .identifier ∧
    ∃ argument s', Angled (State.ofStream (tokenize "f<[*T; 2]>(+)").stream) argument .openParen s' ∧
      ∀ d s'', named Grammar.standard (State.ofStream (tokenize "f<[*T; 2]>(+)").stream) =
        .error d s'' → argumentsOf (goal Grammar.standard) s' = .error d s'' := by
  have hname : (State.ofStream (tokenize "f<[*T; 2]>(+)").stream).current.kind = .identifier := by
    decide +kernel
  obtain ⟨⟨found, hrun, hiff⟩, hcall, -⟩ := lookahead_exact hname
  have hfound : (match genericThen Grammar.standard .openParen
      (State.ofStream (tokenize "f<[*T; 2]>(+)").stream) with
    | .ok found _ => found
    | .error _ _ => false) = true := by decide +kernel
  rw [hrun] at hfound
  obtain ⟨argument, s', hangled⟩ := hiff.mp hfound
  exact ⟨hname, argument, s', hangled, (hcall argument s' hangled).2⟩

end FrontEnd.Parser
