/-
Types, expressions and statements without blocks, read from a template.
-/
import FrontEnd.Proofs.Grammar.MirroredFiles
import FrontEnd.Proofs.Parser.Echoing
import FrontEnd.Proofs.TypeExpr.Rereading

namespace FrontEnd.Parser

variable {α β γ δ : Type} {next shape : List Cell → Prop} {s : State}

/-! ### Names, numbers and types -/

theorem ending_tokens (p : Position) (ts : List Token) :
    ending p (ts.map .token) = (ts.getLast?.map (·.span.stop)).getD p := by
  induction ts generalizing p with
  | nil => rfl
  | cons t ts ih =>
    rw [List.map_cons, ending, ih]
    cases ts with
    | nil => rfl
    | cons u us => rfl

theorem Passes.getLast?_eq {s s' : State} {ts : List Token} (h : Passes s ts s') (hne : ts ≠ []) :
    ts.getLast? = s'.consumed.head? := by
  obtain ⟨us, t, rfl⟩ := (List.eq_nil_or_concat ts).resolve_left hne
  rw [h.consumed, List.concat_eq_append]
  simp

/-- From `s` to `s'` a stretch of tokens has been read that holds no place and leaves no brace
open, and from it `q` reads the same value wherever it stands in a template. -/
def Stretch (s s' : State) (q : Parser α) (a : α) : Prop :=
  ∃ ts, Reads s ts s' ∧ Balanced ts ∧ ts ≠ [] ∧
    (∀ fs, Settled fs → Settled (ts.map .token ++ fs)) ∧
    ∀ fs p u vs, Settled fs → Written False p fs s'.rest → Written True p fs vs →
      u.rest = ts ++ vs → ∃ u', q u = .ok a u' ∧ Reads u ts u'

theorem echoes_stretch {q q' : Parser α} (hq : ∀ a s', q s = .ok a s' → Stretch s s' q' a) :
    Echoes next Moves (.same α) [] s q q' := by
  intro a s' hrun hclean
  obtain ⟨ts, hread, hbalanced, hne, hsettled, hrepeat⟩ := hq a s' hrun
  have hdepth : ∀ {w w' : State}, Reads w ts w' → w'.depth = w.depth := fun h =>
    h.depth _ (hbalanced.nesting_eq _)
  obtain ⟨t, rest, hts⟩ := List.exists_cons_of_ne_nil hne
  refine ⟨by rwa [State.Clean, ← hread.diagnostics], fun _ p => ⟨ts.map .token, ts, a,
    hread.toPasses, .tokens ts, .tokens ts, ⟨t, rest.map .token, by rw [hts]; rfl, trivial⟩, rfl,
    fun x => by rw [slotsOf_tokens]; exact Iff.rfl, fun hfs _ => hsettled _ hfs, ?_⟩⟩
  intro fs u hfs _ hrest hu
  obtain ⟨vs, hvs, hwritten⟩ := hu.rest.of_tokens
  obtain ⟨u', hrun', hread'⟩ := hrepeat fs _ u vs hfs hrest hwritten hvs
  obtain rfl : vs = u'.rest := List.append_cancel_left (hvs.symm.trans hread'.rest)
  have hlength := congrArg List.length hread'.rest
  have hpositive := List.length_pos_iff.mpr hne
  rw [List.length_append] at hlength
  refine ⟨u', hrun', ⟨hwritten, ?_, ?_, ?_, ?_, ?_⟩, by omega, fun _ => by omega⟩
  · have hlast := hread'.toPasses.getLast?_eq hne
    rw [ending_tokens, hlast, State.previousEnd]
    cases hconsumed : u'.consumed with
    | nil => simp [hconsumed, hne] at hlast
    | cons x xs => rfl
  · rw [hdepth hread', hu.depth, hdepth hread]
  · rw [hread'.eof, hu.eof, hread.eof]
  · rw [hread'.trivia, hu.trivia]
  · rw [State.Clean, hread'.diagnostics]
    exact hu.clean

/-- What is made of a token does not depend on where it stands. -/
theorem Echoes.making {K : Kind → Prop} {q q' : Parser Token} {f : Token → Parser α}
    (hq : Echoes next (Lone K) (.same Token) [] s q q')
    (hf : ∀ t a u u', f t u = .ok a u' → u' = u ∧ ∀ w, f t w = .ok a w) :
    Echoes next (Lone K) (.same α) [] s (q >>= f) (q' >>= f) := by
  have hmade : ∀ t s₁, Echoes next (· = []) (.same α) [] s₁ (f t) (f t) := by
    intro t s₁ a s' hrun hclean
    obtain ⟨rfl, hagain⟩ := hf t a s₁ s' hrun
    exact ⟨hclean, fun _ p => ⟨[], [], a, .refl s', .nil, .nil, rfl, rfl, fun _ => Iff.rfl,
      fun hfs _ => hfs, fun _ _ _ hu => ⟨_, hagain _, hu, Nat.le_refl _, fun h => absurd rfl h⟩⟩⟩
  refine hq.bind_same (fun t s₁ _ => hmade t s₁) ?_ ?_
  · rintro _ fs - rfl hn
    exact hn
  · rintro es _ - hes rfl
    rwa [List.append_nil]

/-- A value that is made of a token without looking at the state. -/
theorem pure_eq_ok {a b : α} {u u' : State} (h : (pure a : Parser α) u = .ok b u') :
    u' = u ∧ ∀ w : State, (pure a : Parser α) w = .ok b w := by
  obtain ⟨rfl, rfl⟩ := EStateM.Result.ok.inj h
  exact ⟨rfl, fun _ => rfl⟩

theorem echoes_identifier (production : String) :
    Echoes next (Lone (· = .identifier)) (.same Identifier) [] s (identifier production)
      (identifier production) :=
  (echoes_expect (by simp) production).making fun _ _ _ _ h => pure_eq_ok h

theorem echoes_number (production : String) :
    Echoes next (Lone (· = .number)) (.same Number) [] s (number production)
      (number production) := by
  refine (echoes_expect (by simp) production).making fun t n u u' h => ?_
  cases hvalue : Text.readNumber? 10 t.text.toList with
  | none =>
    simp only [hvalue] at h
    cases h
  | some value =>
    by_cases hlimit : value < Number.limit
    · simp only [hvalue, hlimit, if_true] at h ⊢
      exact pure_eq_ok h
    · simp only [hvalue, hlimit, if_false] at h
      cases h

/-- A type is read from its tokens alone: behind one that ends in a name no bracket is next. -/
theorem stretch_typeExpr {type : TypeExpr} {s' : State}
    (hrun : typeExpr Grammar.standard s = .ok type s') :
    Stretch s s' (typeExpr Grammar.standard) type := by
  have hmeets : Meets [] s (typeExpr Grammar.standard) TypeExpr.SpelledBy := meets_typeExpr
  obtain ⟨ts, hread, hbalanced, htype⟩ := hmeets.of_ok hrun
  refine ⟨ts, hread, hbalanced, htype.startsWith.ne_nil, fun fs hfs => htype.settled hfs, ?_⟩
  intro fs p u vs hfs hrest hvs hu
  have hname : (∃ t ∈ ts.getLast?, t.kind = .identifier) →
      ∀ t ∈ vs.head?, t.kind ≠ .symbol .less := by
    intro hlast t ht hless
    refine typeExpr_not_less htype hread.rest hrun hlast ?_
    rw [State.kind_current, hfs.headKind_eq_iff (by decide) hrest hvs, headKind, ht]
    exact hless
  obtain ⟨u', hrun', hread', -⟩ := readBack_of_spelledBy htype u _ hu hname
  exact ⟨u', hrun', hread'⟩

theorem echoes_typeExpr :
    Echoes next Moves (.same TypeExpr) [] s (typeExpr Grammar.standard)
      (typeExpr Grammar.standard) := echoes_stretch fun _ _ hrun => stretch_typeExpr hrun

theorem echoes_genericClause :
    Echoes next Moves (.same TypeExpr) [] s (genericClause Grammar.standard)
      (genericClause Grammar.standard) := by
  refine echoes_stretch fun type s' hrun => ?_
  have hmeets : Meets [] s (genericClause Grammar.standard) GenericClause := meets_genericClause
  obtain ⟨ts, hread, hbalanced, htype⟩ := hmeets.of_ok hrun
  refine ⟨ts, hread, hbalanced, ?_, fun fs hfs => .clause htype hfs, fun fs p u vs _ _ _ hu => ?_⟩
  · cases htype
    simp
  · obtain ⟨u', hrun', hread', -⟩ := genericClause_of_spelledBy htype hu
    exact ⟨u', hrun', hread'⟩

theorem echoes_genericClause? :
    Echoes next Anywhere (.same (Option TypeExpr)) [] s (genericClause? Grammar.standard)
      (genericClause? Grammar.standard) := by
  refine echoes_test (by decide) (fun _ => ?_) fun _ => echoes_return rfl fun _ => Iff.rfl
  exact echoes_genericClause.and fun _ _ _ => echoes_return rfl fun _ => Iff.rfl

/-! ### Literals -/

/-- A literal token is taken apart in the same way wherever it stands. -/
theorem echoes_literal {k : Kind} {quote : Char} (hquotes : k.Quotes quote) (production : String)
    (g : Token → List LiteralPart → α) :
    Echoes next (Lone (· = k)) (.same α) [] s
      (do
        let token ← expect k production
        return g token (← takeApart token quote))
      (do
        let token ← expect k production
        return g token (← takeApart token quote)) := by
  have hk : k ≠ .eof ∧ k ≠ .symbol .less := by cases hquotes <;> decide
  refine echoes_token (fun _ h => h ▸ hk.1) (fun _ _ ht hfs _ => settled_token hk.2 ht hfs) ?_
  intro a s' hrun
  obtain ⟨t, s₁, hexpect, -⟩ := bind_eq_ok hrun
  obtain ⟨hkind, -, -⟩ := expect_eq_ok hexpect
  rw [literal_run hkind] at hrun
  obtain ⟨rfl, rfl⟩ := EStateM.Result.ok.inj hrun
  refine ⟨hkind, ⟨_, rfl, (reads_apart (hkind ▸ hk.1) (hkind ▸ hquotes)).faults⟩,
    fun u hu => ⟨(u.advance.apart u.current quote).faults, ?_⟩⟩
  rw [literal_run (hu ▸ hkind), hu]
  rfl

theorem echoes_stringLiteral :
    Echoes next (Lone (· = .string)) (.same StringLiteral) [] s stringLiteral stringLiteral :=
  echoes_literal .string "string_literal" fun t parts => StringLiteral.mk parts t.span

theorem echoes_charLiteral :
    Echoes next (Lone (· = .char)) (.same CharLiteral) [] s charLiteral charLiteral :=
  echoes_literal .char "char_literal" fun t parts => CharLiteral.mk parts t.span

theorem echoes_constant {k : Kind} (hk : Grammar.standard.primary? k = some .constant)
    (hkind : s.current.kind = k) :
    Echoes next (Lone (· = k)) (.same Expr) [] s constant constant := by
  have hproper : k ≠ .eof ∧ k ≠ .symbol .less := by
    constructor <;> rintro rfl <;> cases hk
  refine (echoes_advance hproper hkind).making fun t e u u' h => ?_
  generalize t.kind = k' at h ⊢
  cases k' with
  | keyword word => cases word <;> first | exact pure_eq_ok h | cases h
  | _ => cases h

theorem slots_constant {e : Expr} {s' : State} (h : constant s = .ok e s') :
    e.toNode.slots = [] := by
  obtain ⟨t, s₁, -, h⟩ := bind_eq_ok h
  generalize t.kind = k at h
  cases k with
  | keyword word =>
    cases word <;> cases h <;> simp [Expr.toNode, Node.ownSlots]
  | _ => cases h

/-! ### Expressions -/

/-- What is compared of an expression, and the places in it. -/
def exprView : View Expr Expr := ⟨Expr.relocate unplaced, fun e => e.toNode.slots⟩

/-- A token of the kind starts an expression. -/
def Operand (k : Kind) : Prop := (Grammar.standard.primary? k).isSome

theorem Operand.proper {k : Kind} (h : Operand k) : k ≠ .eof := by
  rintro rfl
  cases h

theorem echoes_commaSeparated {K : Kind → Prop} {w : View α γ} {item item' : Parser α}
    (hitem : ∀ s : State, Echoes Calm (Headed K) w [] s item item') :
    Echoes (Begins (· = .symbol .closeParen)) (Headed K) w.list [] s (commaSeparated item)
      (commaSeparated item') := by
  have hothers : ∀ s : State, decide (s.current.kind = .symbol .comma) →
      Echoes Calm (Begins (· = .symbol .comma)) w [] s (do let _ ← advance; item)
        (do let _ ← advance; item') := fun s hkind =>
    (echoes_advance (by simp) (of_decide_eq_true hkind)).then fun _ u _ => hitem u
  refine (hitem s).lead (fun first first' s₁ _ hfirst =>
    (echoes_manyWhile hothers (fun fs h => ⟨h.firm, h.firm.calm⟩) (fun fs h => h.firm.calm) s₁).rest
      fun others others' s₂ _ hothers => echoes_pure rfl ?_ fun x => ?_) ?_
  · exact congrArg₂ List.cons hfirst hothers
  · simp [View.list]
  · exact fun es fs h _ hfs => calm_append (firm_of_anchored h) hfs.firm.calm

/-- What is found behind a name is the same in both runs. -/
theorem echoes_genericThen {K : Kind → Prop} {w : View β γ} {seen : List Slot} {mark : Symbol}
    {f f' : Bool → Parser β} (hmark : Kind.symbol mark ∉ seams)
    (hname : s.current.kind = .identifier) (hless : (s.peek 1).kind = .symbol .less)
    (hshape : ∀ es, shape es → Headed K es)
    (hf : ∀ found, Echoes next shape w seen s (f found) (f' found)) :
    Echoes next shape w seen s (genericThen Grammar.standard mark >>= f)
      (genericThen Grammar.standard mark >>= f') := by
  refine echoes_seen (genericThen_run hname mark) (fun es fs u p _ hes _ hcells hs hu => ?_) (hf _)
  obtain ⟨t, cells, rfl, -, -⟩ := hshape es hes
  rw [List.cons_append] at hcells hs hu
  obtain ⟨ss, hss, hcells'⟩ := hs.eq_cons
  have ht : t.kind = .identifier := current_of_rest hss ▸ hname
  have hbehind := hcells.token_inv (by simp [ht])
  have hnext := (State.kind_peek_one hss).symm.trans hless
  obtain ⟨o, cells', heq, ho⟩ := hbehind.exists_token hcells' (by rw [hnext]; decide)
  rw [heq] at hs hu hbehind
  obtain ⟨found, hrun, hrun'⟩ := genericThen_same hmark ht (ho.trans hnext) hbehind hs hu.rest
  obtain ⟨rfl, -⟩ := EStateM.Result.ok.inj ((genericThen_run hname mark).symm.trans hrun)
  exact ⟨_, hrun', rfl⟩

section

-- The expressions inside an expression are repeated.
variable {inner : Goal → Parser Expr}
  (hinner : ∀ goal s, Echoes Calm (Headed Operand) exprView [] s (inner goal)
    (Parser.goal Grammar.standard goal))

include hinner

theorem echoes_argumentsOf :
    Echoes next (Begins (· = .symbol .openParen)) exprView.list [] s (argumentsOf inner)
      (argumentsOf (Parser.goal Grammar.standard)) := by
  have hclose : ∀ {es es' : List Expr} {seen : List Slot} {s : State},
      exprView.list.shown es = exprView.list.shown es' →
      (∀ x, x ∈ seen ↔ x ∈ exprView.list.slots es) →
      Echoes next (Begins (· = .symbol .closeParen)) exprView.list seen s
        (do let _ ← expect Symbol.closeParen "arglist"; return es)
        (do let _ ← expect Symbol.closeParen "arglist"; return es') := fun hes hslots =>
    (echoes_expect (by simp) _).then fun _ _ _ => echoes_return hes hslots
  refine (echoes_expect (by simp) _).then fun _ s₁ _ => echoes_kind firm_of_begins
    (?_ : Echoes _ Moves _ _ _ _ _)
  split
  · exact (hclose rfl fun _ => Iff.rfl).mono (fun _ h => h) fun _ h => h.mono fun _ _ => trivial
  · refine ((echoes_commaSeparated (hinner _)).lead (fun es es' _ _ hes => hclose hes fun x => ?_)
      begins_of_begins).mono (fun _ h => h) fun _ h => h.begins.mono fun _ _ => trivial
    simp

theorem echoes_callOf (hasGeneric : Bool) :
    Echoes Calm (Headed (· = .identifier)) ⟨Call.relocate unplaced, fun c => c.toNode.slots⟩ [] s
      (callOf Grammar.standard inner hasGeneric)
      (callOf Grammar.standard (Parser.goal Grammar.standard) hasGeneric) := by
  -- What comes behind the name and the generic argument.
  have hcall : ∀ (function : Identifier) (generic : Option TypeExpr) (s : State),
      Echoes Calm Anywhere ⟨Call.relocate unplaced, fun c => c.toNode.slots⟩ [] s
        (do
          let arguments ← argumentsOf inner
          return ⟨function, generic, arguments, ← spanFrom function.span.start⟩)
        (do
          let arguments ← argumentsOf (Parser.goal Grammar.standard)
          return ⟨function, generic, arguments, ← spanFrom function.span.start⟩) := by
    intro function generic s
    refine (echoes_argumentsOf hinner).go (fun es es' _ _ hes => echoes_spanFrom _ _ fun span span' =>
      echoes_return ?_ fun x => ?_) calm_of_calm
    · have hes : es.map (Expr.relocate unplaced) = es'.map (Expr.relocate unplaced) := hes
      simp only [Call.relocate, Expr.relocateAll_eq_map, hes]
      rfl
    · simp [Call.toNode, Node.ownSlots, Expr.toNodes_eq_map, List.flatMap_map, View.list, exprView]
  refine (echoes_identifier _).behind fun function s₁ _ => (?_ : Echoes _ Anywhere _ _ _ _ _)
  cases hasGeneric with
  | false => exact hcall function none s₁
  | true =>
    have hsome : ∀ s, Echoes Anywhere Moves (.same (Option TypeExpr)) [] s
        (some <$> genericClause Grammar.standard) (some <$> genericClause Grammar.standard) :=
      fun s => echoes_genericClause.map (fun _ _ h => congrArg some h) fun _ => rfl
    exact (hsome s₁).and fun generic s₂ _ => hcall function generic s₂

theorem echoes_fieldAccessOf :
    Echoes Calm (Headed (· = .identifier)) exprView [] s (fieldAccessOf inner)
      (fieldAccessOf (Parser.goal Grammar.standard)) := by
  refine (echoes_identifier _).behind fun object _ _ => (echoes_expect (by simp) _).then fun _ _ _ =>
    (hinner .primary _).lead (fun member member' _ _ hmember =>
      echoes_spanFrom _ _ fun span span' => echoes_return ?_ fun x => ?_) calm_of_calm
  · exact congrArg (Expr.fieldAccess (object.relocate unplaced) · _) hmember
  · simp [exprView, Expr.toNode, Node.ownSlots]

theorem echoes_arrayAccessOf :
    Echoes Calm (Headed (· = .identifier)) exprView [] s (arrayAccessOf inner)
      (arrayAccessOf (Parser.goal Grammar.standard)) := by
  refine (echoes_identifier _).behind fun base _ _ => (echoes_expect (by simp) _).then fun _ _ _ =>
    (hinner .primary _).lead (fun index index' _ _ hindex => (echoes_expect (by simp) _).then
      fun _ _ _ => echoes_spanFrom _ _ fun span span' => echoes_return ?_ fun x => ?_) calm_of_begins
  · exact congrArg (Expr.arrayAccess (base.relocate unplaced) · _) hindex
  · simp [exprView, Expr.toNode, Node.ownSlots]

theorem echoes_namedOf (hname : s.current.kind = .identifier) :
    Echoes Calm (Headed (· = .identifier)) exprView [] s (namedOf Grammar.standard inner)
      (namedOf Grammar.standard (Parser.goal Grammar.standard)) := by
  have hcall : ∀ hasGeneric, Echoes Calm (Headed (· = .identifier)) exprView [] s
      (do return .call (← callOf Grammar.standard inner hasGeneric))
      (do return .call (← callOf Grammar.standard (Parser.goal Grammar.standard) hasGeneric)) :=
    fun hasGeneric => (echoes_callOf hinner hasGeneric).rest fun c c' _ _ h =>
      echoes_pure rfl (congrArg Expr.call h) fun x => by simp [exprView, Expr.toNode]
  have hidentifier : Echoes Calm (Headed (· = .identifier)) exprView [] s
      (do return .identifier (← identifier "identifier"))
      (do return .identifier (← identifier "identifier")) :=
    (echoes_identifier _).behind fun name _ _ =>
      echoes_return rfl fun x => by simp [exprView, Expr.toNode]
  refine echoes_peekKind_calm (fun _ h => h) (fun _ h => h)
    (by simp [Separator.heads, Separator.kinds, Separator.marks, Separator.followers]) ?_
  split
  · exact hcall false
  · next hless =>
    refine echoes_genericThen (by decide) hname hless (fun _ h => h) fun found => ?_
    cases found with
    | true => exact hcall true
    | false => exact hidentifier
  · exact echoes_fieldAccessOf hinner
  · exact echoes_arrayAccessOf hinner
  · exact hidentifier

theorem echoes_rangeOf :
    Echoes Calm (Headed Operand) ⟨Range.relocate unplaced, fun r => r.toNode.slots⟩ [] s
      (rangeOf inner) (rangeOf (Parser.goal Grammar.standard)) := by
  refine (hinner _ s).lead (fun first first' _ _ hfirst => (echoes_expect (by simp) _).then
    fun _ _ _ => (echoes_skip? (by decide) (by decide)).and fun inclusive s₃ _ =>
      (hinner _ s₃).lead (fun last last' _ _ hlast => echoes_return ?_ fun x => ?_) calm_of_calm)
    calm_of_begins
  · exact congrArg₂ (Range.mk · inclusive · _) hfirst hlast
  · simp [Range.toNode, Node.ownSlots, exprView]

omit hinner in
/-- Behind a number of a list there may be a bar, except behind the first one. -/
theorem echoes_constantList :
    Echoes (Begins (· = .symbol .fatArrow)) (Headed (· = .number))
      ⟨ConstantList.relocate unplaced, fun l => l.toNode.slots⟩ [] s constantList constantList := by
  have hended : (do let value ← number "constant_list"; let _ ← skip? Symbol.pipe; return value) =
      ended .bar (number "constant_list") :=
    (skip?_ended .bar rfl (number "constant_list") pure).trans (bind_pure _)
  have hvalue : ∀ s : State, decide (s.current.kind = .number) →
      Echoes (Begins (· ∈ Separator.bar.followers)) (Begins (· = .number))
        ((View.same Number).ended .bar (·.span.stop.offset)) [] s
        (ended .bar (number "constant_list")) (ended .bar (number "constant_list")) := by
    intro s _
    have hnumber : Echoes Anywhere (Begins (· = .number)) (.same Number) [] s
        (number "constant_list") (number "constant_list") :=
      (echoes_number _).mono (fun _ h => h) fun _ h => h.begins
    refine hnumber.ended (fun _ _ _ => trivial) fun n s₁ t _ hrun ht => ?_
    have hmeets : Meets [] s (number "constant_list") Number.SpelledBy := meets_number
    obtain ⟨ts, hread, -, hn⟩ := hmeets.of_ok hrun
    obtain ⟨hkind, -, -⟩ := hn
    rw [hread.consumed] at ht
    obtain rfl := Option.some.inj ht
    exact ⟨rfl, hkind⟩
  have hlist : ∀ s : State, Echoes (Begins (· = .symbol .fatArrow))
      (fun es => es = [] ∨ Begins (· = .number) es)
      ((View.same Number).ended .bar (·.span.stop.offset)).list [] s
      (manyWhile (· = .number) (ended .bar (number "constant_list")))
      (manyWhile (· = .number) (ended .bar (number "constant_list"))) :=
    echoes_manyWhile hvalue
      (fun fs h => ⟨h.firm, h.mono fun k hk => by simp [hk, Separator.followers]⟩)
      fun fs h => h.mono fun k hk => by simp [hk, Separator.followers]
  unfold constantList
  rw [hended]
  refine echoes_position firm_of_headed ((echoes_number _).behind fun first _ _ =>
    (echoes_expect (by simp) _).then fun _ s₂ _ => (hlist s₂).rest fun others others' _ _ hothers =>
      echoes_spanFrom _ _ fun span span' => echoes_pure rfl ?_ fun x => ?_)
  · obtain rfl : others = others' := by simpa [View.list, View.ended, View.same] using hothers
    rfl
  · simp [ConstantList.slots_toNode, View.list, View.ended, View.same, eq_comm]

theorem echoes_matchKeyOf :
    Echoes (Begins (· = .symbol .fatArrow)) (Headed (· ≠ .eof))
      ⟨MatchKey.relocate unplaced, fun k => k.toNode.slots⟩ [] s (matchKeyOf inner)
      (matchKeyOf (Parser.goal Grammar.standard)) := by
  have hproper : ∀ {k : Kind} {es : List Cell}, k ≠ .eof → Headed (· = k) es →
      Headed (· ≠ .eof) es := fun hk h => h.mono fun _ hkind => hkind ▸ hk
  refine echoes_kind firm_of_headed (echoes_peekKind (fun es fs h hn => h.append hn.firm) ?_)
  split
  · refine ((echoes_identifier _).behind fun name _ _ => echoes_return rfl fun x => ?_).mono
      (fun _ h => h) fun _ h => hproper (by simp) h
    simp [MatchKey.toNode]
  · refine (echoes_constantList.rest fun l l' _ _ h => echoes_pure rfl
      (congrArg MatchKey.constants h) fun x => ?_).mono (fun _ h => h) fun _ h => hproper (by simp) h
    simp [MatchKey.toNode]
  · refine ((echoes_number _).behind fun n _ _ => echoes_return rfl fun x => ?_).mono
      (fun _ h => h) fun _ h => hproper (by simp) h
    simp [MatchKey.toNode]
  · refine (echoes_charLiteral.behind fun l _ _ => echoes_return rfl fun x => ?_).mono
      (fun _ h => h) fun _ h => hproper (by simp) h
    simp [MatchKey.toNode]
  · refine ((echoes_rangeOf hinner).rest fun r r' _ _ h => echoes_pure rfl
      (congrArg MatchKey.range h) fun x => ?_).mono (fun _ h => h.firm.calm)
        fun _ h => h.mono fun _ hk => hk.proper
    simp [MatchKey.toNode]

/-- Behind the comma of an arm anything may stand. -/
theorem echoes_matchArmOf :
    Echoes next (Headed (· ≠ .eof)) ⟨MatchArm.relocate unplaced, fun a => a.toNode.slots⟩ [] s
      (matchArmOf inner) (matchArmOf (Parser.goal Grammar.standard)) := by
  refine echoes_position firm_of_headed ((echoes_matchKeyOf hinner).lead (fun key key' _ _ hkey =>
    (echoes_expect (by simp) _).then fun _ s₂ _ => (hinner _ s₂).lead (fun value value' _ _ hvalue =>
      (echoes_expect (by simp) _).then fun _ _ _ => echoes_spanFrom _ _ fun span span' =>
        echoes_return ?_ fun x => ?_) calm_of_begins) begins_of_begins)
  · exact congrArg₂ (MatchArm.mk · · _) hkey hvalue
  · simp [MatchArm.toNode, Node.ownSlots, exprView]

theorem echoes_matchOf :
    Echoes next (Headed (· = .keyword .matchKw))
      ⟨Match.relocate unplaced, fun m => m.toNode.slots⟩ [] s (matchOf inner)
      (matchOf (Parser.goal Grammar.standard)) := by
  have harms : ∀ s : State, Echoes (Begins (· = .symbol .closeCurly)) _ _ [] s
      (manyWhile (fun k => k ≠ Symbol.closeCurly && k ≠ .eof) (matchArmOf inner))
      (manyWhile (fun k => k ≠ Symbol.closeCurly && k ≠ .eof)
        (matchArmOf (Parser.goal Grammar.standard))) :=
    echoes_manyWhile (fun s _ => (echoes_matchArmOf hinner).mono (fun _ h => h)
      fun _ h => h.begins.mono fun _ _ => trivial) (fun fs h => ⟨h.firm, trivial⟩)
      fun fs _ => trivial
  refine (echoes_expect (by simp) _).behind fun word s₁ _ => (hinner _ s₁).lead
    (fun value value' _ _ hvalue => (echoes_expect (by simp) _).then fun _ s₃ _ => (harms s₃).go
      (fun arms arms' _ _ harms => (echoes_expect (by simp) _).then fun _ _ _ =>
        echoes_spanFrom _ _ fun span span' => echoes_return ?_ fun x => ?_) begins_of_begins)
    calm_of_begins
  · simp only [Match.relocate, MatchArm.relocateAll_eq_map]
    exact congrArg₂ (Match.mk · · _) hvalue harms
  · simp [Match.toNode, MatchArm.toNodes_eq_map, Node.ownSlots, View.list, exprView,
      List.flatMap_map]

theorem echoes_primaryOf :
    Echoes Calm (Headed Operand) exprView [] s (primaryOf Grammar.standard inner)
      (primaryOf Grammar.standard (Parser.goal Grammar.standard)) := by
  have hoperand : ∀ {k : Kind} {form : PrimaryForm} {es : List Cell},
      Grammar.standard.primary? k = some form → Headed (· = k) es → Headed Operand es :=
    fun hform h => h.mono fun _ hk => by simp [Operand, hk, hform]
  refine echoes_kind firm_of_headed ?_
  split
  · exact echoes_unexpected
  · refine ((echoes_number _).behind fun n _ _ => echoes_return rfl fun x => ?_).mono
      (fun _ h => h) fun _ h => hoperand rfl h
    simp [exprView, Expr.toNode]
  · refine (echoes_charLiteral.behind fun n _ _ => echoes_return rfl fun x => ?_).mono
      (fun _ h => h) fun _ h => hoperand rfl h
    simp [exprView, Expr.toNode]
  · refine (echoes_stringLiteral.behind fun n _ _ => echoes_return rfl fun x => ?_).mono
      (fun _ h => h) fun _ h => hoperand rfl h
    simp [exprView, Expr.toNode]
  · next hform =>
    refine ((echoes_constant hform rfl).blank fun e s' hrun => ?_).mono (fun _ h => h)
      fun _ h => hoperand hform h.head
    exact slots_constant hrun
  · next hform =>
    have hname : s.current.kind = .identifier := by
      generalize s.current.kind = k at hform
      cases k with
      | keyword word => cases word <;> cases hform
      | identifier => rfl
      | _ => cases hform
    exact (echoes_namedOf hinner hname).mono (fun _ h => h) fun _ h => hoperand rfl h
  · refine ((echoes_matchOf hinner).rest fun m m' _ _ h => echoes_pure rfl
      (congrArg Expr.matching h) fun x => ?_).mono (fun _ h => h) fun _ h => hoperand rfl h
    simp [exprView, Expr.toNode]

theorem echoes_binaryOf {left left' : Expr} (power : BindingPower)
    (hleft : exprView.shown left = exprView.shown left') :
    Echoes Calm Moves exprView (exprView.slots left) s (binaryOf inner left power)
      (binaryOf (Parser.goal Grammar.standard) left' power) := by
  have hoperator : ∀ s : State, s.current.kind ≠ .eof →
      Echoes (Begins Operand) (Lone (· ≠ .eof)) (.same Token) [] s advance advance := by
    intro s hproper
    refine echoes_token (fun _ h => h) (fun t fs _ hfs hnext => ?_) fun t s' hrun => ?_
    · by_cases hless : t.kind = .symbol .less
      · obtain ⟨operand, cells, rfl, hoperand⟩ := hnext
        exact .operator hless hoperand hfs
      · exact .token hless hfs
    · obtain ⟨rfl, rfl⟩ := EStateM.Result.ok.inj hrun
      exact ⟨hproper, ⟨_, rfl, .of_eq (faults_advance s)⟩, fun u hu => ⟨u.advance.faults, by rw [← hu]; rfl⟩⟩
  refine echoes_kind firm_of_begins ?_
  split
  · exact echoes_unexpected
  · next op hop =>
    have hproper : s.current.kind ≠ .eof := by
      rw [BinaryOperator.ofKind?_eq_some_iff.mp hop]
      simp
    refine (hoperator s hproper).bind_same (fun token s₁ _ => (hinner _ s₁).lead
      (fun right right' _ _ hright => echoes_return ?_ fun x => ?_) calm_of_calm)
      (fun _ _ _ hes _ => hes.begins.append _) fun _ _ _ hes _ =>
        (hes.begins.append _).mono fun _ _ => trivial
    · exact congrArg₂ (Expr.binary · _ · _) hleft hright
    · simp [exprView, Expr.toNode, Node.ownSlots]

omit hinner in
/-- A name that is the target because no type can be read is the target again. -/
theorem stretch_castTarget_of_error {d : Diagnostic} {s₁ : State}
    (hname : s.current.kind = .identifier) (hless : (s.peek 1).kind = .symbol .less)
    (htype : typeExpr Grammar.standard s = .error d s₁)
    (hcause : ¬ ∃ text, d.cause = .malformedGeneric text) :
    Stretch s s.advance (castTarget Grammar.standard)
      (.named ⟨s.current.text, s.current.span⟩) := by
  have hproper : s.current.kind ≠ .eof := by simp [hname]
  refine ⟨[s.current], reads_advance hproper, ?_, by simp,
    fun fs hfs => .token (by simp [hname]) hfs, fun fs p u vs hfs hrest hvs hu => ?_⟩
  · simp [Balanced, nesting, Kind.nests?, hname]
  have hbracket : s.advance.current.kind = .symbol .less := by
    rw [current_advance hproper, hless]
  have hnot : Kind.symbol .less ∉ seams := by decide
  obtain ⟨o, cells, rfl, ho⟩ := hfs.exists_token hrest (by
    rw [← State.kind_current, hbracket]
    exact hnot)
  -- The bracket is part of the template, and so is next in the second run.
  have hbehind : u.advance.rest = vs := rest_advance hu hproper
  have hcurrent : u.current = s.current := current_of_rest hu
  have hbracket' : u.advance.current.kind = .symbol .less := by
    rw [State.kind_current, hbehind, ← hfs.headKind_eq_iff hnot hrest hvs, ← State.kind_current]
    exact hbracket
  have hless' : (u.peek 1).kind = .symbol .less := by
    rw [← current_advance (hcurrent ▸ hproper), hbracket']
  have hagree := agreeing_genericClause (ho.trans (State.kind_current _ ▸ hbracket)) hfs hrest
    (hbehind.symm ▸ hvs)
  rw [typeExpr_of_name hname, if_pos hbracket] at htype
  cases hclause : genericClause Grammar.standard s.advance with
  | ok argument s₂ =>
    rw [hclause] at htype
    cases htype
  | error d' s₂ =>
    rw [hclause] at htype hagree
    obtain ⟨rfl, -⟩ := EStateM.Result.error.inj htype
    obtain ⟨d'', u₂, hclause', hsame⟩ := hagree.exists_error
    have hrun' := castTarget_of_error (hcurrent ▸ hname) hless'
      (typeExpr_of_less (hcurrent ▸ hname) hless' hclause') fun h => hcause (hsame.mpr h)
    rw [hcurrent] at hrun'
    exact ⟨u.advance, hrun', hcurrent ▸ reads_advance (hcurrent ▸ hproper)⟩

omit hinner in
theorem echoes_castTarget :
    Echoes next Moves (.same TypeExpr) [] s (castTarget Grammar.standard)
      (castTarget Grammar.standard) := by
  refine echoes_stretch fun target s' hrun => ?_
  rcases castTarget_eq_ok hrun with htype | ⟨⟨hname, hless⟩, ⟨d, s₁, htype, hcause⟩, rfl, rfl⟩
  · obtain ⟨ts, hread, hbalanced, hne, hsettled, hagain⟩ := stretch_typeExpr htype
    refine ⟨ts, hread, hbalanced, hne, hsettled, fun fs p u vs hfs hrest hvs hu => ?_⟩
    obtain ⟨u', hrun', hread'⟩ := hagain fs p u vs hfs hrest hvs hu
    exact ⟨u', castTarget_of_ok hrun', hread'⟩
  · exact stretch_castTarget_of_error hname hless htype hcause

omit hinner in
theorem echoes_typecastOf {left left' : Expr}
    (hleft : exprView.shown left = exprView.shown left') :
    Echoes Calm Moves exprView (exprView.slots left) s (typecastOf Grammar.standard left)
      (typecastOf Grammar.standard left') := by
  refine ((echoes_expect (by simp) _).then fun _ _ _ => echoes_castTarget.and fun target _ _ =>
    echoes_spanFrom _ _ fun span span' => echoes_return ?_ fun x => ?_).mono (fun _ h => h)
      fun _ h => h.mono fun _ _ => trivial
  · exact congrArg (Expr.typecast · (target.relocate unplaced) _) hleft
  · simp [exprView, Expr.toNode, Node.ownSlots]

/-- Where an expression ends, no operator is next in either run. -/
theorem echoes_operatorsOf (power : BindingPower) {left left' : Expr}
    (hleft : exprView.shown left = exprView.shown left') :
    Echoes Calm Anywhere exprView (exprView.slots left) s
      (operatorsOf Grammar.standard inner power left)
      (operatorsOf Grammar.standard (Parser.goal Grammar.standard) power left') := by
  show Echoes _ _ _ _ s (fix (operatorsStep Grammar.standard inner power) left) _
  refine echoes_fix (fun e e' => exprView.shown e = exprView.shown e') exprView.slots
    _ (Recursion.operators power).eq_body (fun more hmore left left' hleft s => ?_) hleft s
  -- An operator and what belongs to it make an expression that others may follow.
  have hnext : ∀ {q q' : Parser Expr}, Echoes Calm Moves exprView (exprView.slots left) s q q' →
      Echoes Calm Anywhere exprView (exprView.slots left) s (q >>= more)
        (q' >>= operatorsOf Grammar.standard (Parser.goal Grammar.standard) power) := by
    intro q q' h
    rw [← List.nil_append (exprView.slots left)]
    exact h.bind_seen (fun e e' s₁ _ he => hmore e e' he s₁) calm_of_calm fun _ _ _ _ _ => trivial
  refine echoes_kind_calm (fun _ h => h) ?_ ?_
  · simp [Separator.heads, Separator.kinds, Separator.marks, Separator.followers,
      Grammar.standard]
  split
  · exact echoes_return hleft fun _ => Iff.rfl
  · split
    · split
      · exact hnext (echoes_binaryOf hinner _ hleft)
      · exact hnext (echoes_typecastOf hleft)
    · exact echoes_return hleft fun _ => Iff.rfl

theorem echoes_goalOf (goal : Goal) :
    Echoes Calm (Headed Operand) exprView [] s (goalOf Grammar.standard inner goal)
      (goalOf Grammar.standard (Parser.goal Grammar.standard) goal) := by
  cases goal with
  | primary => exact echoes_primaryOf hinner
  | above power =>
    exact (echoes_primaryOf hinner).lead (fun e e' _ _ h => echoes_operatorsOf hinner power h)
      calm_of_calm

end

/-- An expression is repeated. -/
theorem echoes_goal (goal : Goal) :
    Echoes Calm (Headed Operand) exprView [] s (Parser.goal Grammar.standard goal)
      (Parser.goal Grammar.standard goal) := by
  refine echoes_fix Eq (fun _ => []) _ Recursion.expression.eq_body
    (fun self hself goal goal' hgoal s => ?_) rfl s
  subst hgoal
  exact echoes_goalOf (fun goal => hself goal goal rfl) goal

end FrontEnd.Parser
