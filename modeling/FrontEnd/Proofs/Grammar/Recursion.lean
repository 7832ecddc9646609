/-
The recursion of the language needs no guard.

Types, expressions and blocks hold parts of their own sort, and lists of all sorts are read
in loops.  Each of these recursions calls itself only behind a token:

* `Loop` — the loops of the language, each with the tokens that it goes on at;
* `Recursion` — the recursive parsers of the language, each with its body;
* `Recursion.productive` — every body calls itself only behind a token;
* `Recursion.eq_body` and `Recursion.unroll_eq` — so the parser is its body given itself, and
  is reached by as many unfoldings as there are tokens left;
* `reading_terminates` — all of it together with the progress of productions and loops; a
  stream of tokens is read up to the end of the input, unless reading breaks off at a literal
  that no lexer makes.

A production is taken apart step by step: up to its first token the parts have to agree where
at most `n` tokens are left, behind it only where fewer are.
-/
import FrontEnd.Proofs.Grammar.Progress
import FrontEnd.Proofs.Parser.Unrolling

namespace FrontEnd.Parser

variable {α β : Type} {n : Nat}

theorem agree_identifier {f g : Identifier → Parser β} {production : String}
    (hf : ∀ name, Agree n (f name) (g name)) :
    Agree (n + 1) (identifier production >>= f) (identifier production >>= g) := by
  have hname := ReadingProduction.identifier production
  exact ((steady_of_meets hname.meets).agree _).bind_moved (fun s => (hname.works s).movesOn) hf

theorem Progresses.tokensLeft_le {s : State} {p : Parser α} (h : Progresses s p) :
    tokensLeft (p s) ≤ s.rest.length := by
  unfold Progresses at h
  cases hrun : p s with
  | ok a s' =>
    rw [hrun] at h
    obtain ⟨-, ts, hpass⟩ := h
    exact hpass.length_rest_le
  | error d s' =>
    rw [hrun] at h
    obtain ⟨-, ts, hpass⟩ := h
    exact hpass.length_rest_le

theorem Progresses.movesOn {s : State} {p : Parser α} (h : Progresses s p) : MovesOn s p := by
  intro a s' hrun
  unfold Progresses at h
  rw [hrun] at h
  obtain ⟨hindex, ts, hpass⟩ := h
  refine hpass.length_rest_lt ?_
  rintro rfl
  have hsame := hpass.index_eq
  simp at hsame
  omega

/-! ### Types -/

section

-- The types inside a type are read alike.
variable {inner inner' : Parser TypeExpr} (hinner : Agree n inner inner')

include hinner

theorem agree_genericClauseOf :
    Agree (n + 1) (genericClauseOf inner) (genericClauseOf inner') := by
  refine agree_expect (by decide) fun _ => hinner.bind fun argument => ?_
  split
  · exact ((steady_expect _ _).agree n).bind fun _ => (steady_pure _).agree n
  · exact (steady_throw _).agree n

theorem agree_namedTypeOf : Agree (n + 1) (namedTypeOf inner) (namedTypeOf inner') := by
  refine agree_identifier fun name => agree_kind fun k => ?_
  split
  · refine ((agree_genericClauseOf hinner).mono (Nat.le_succ n)).bind fun argument => ?_
    exact agree_spanFrom_pure _
  · exact (steady_pure _).agree n

theorem agree_pointerTypeOf : Agree (n + 1) (pointerTypeOf inner) (pointerTypeOf inner') :=
  agree_expect (by decide) fun _ => hinner.bind fun _ => agree_spanFrom_pure _

theorem agree_referenceTypeOf : Agree (n + 1) (referenceTypeOf inner) (referenceTypeOf inner') :=
  agree_expect (by decide) fun _ => hinner.bind fun _ => agree_spanFrom_pure _

theorem agree_doubleReferenceTypeOf :
    Agree (n + 1) (doubleReferenceTypeOf inner) (doubleReferenceTypeOf inner') :=
  agree_expect (by decide) fun _ => hinner.bind fun _ =>
    agree_spanFrom fun _ => agree_spanFrom_pure _

theorem agree_arrayTypeOf : Agree (n + 1) (arrayTypeOf inner) (arrayTypeOf inner') := by
  refine agree_expect (by decide) fun _ => hinner.bind fun _ => ?_
  refine ((steady_expect _ _).agree n).bind fun _ => ?_
  refine ((steady_of_meets fun _ => meets_number).agree n).bind fun _ => ?_
  exact ((steady_expect _ _).agree n).bind fun _ => agree_spanFrom_pure _

theorem agree_typeExprOf :
    Agree (n + 1) (typeExprOf Grammar.standard inner) (typeExprOf Grammar.standard inner') := by
  refine agree_kind fun k => ?_
  split
  · exact (steady_unexpected _ _).agree _
  · exact agree_pointerTypeOf hinner
  · exact agree_referenceTypeOf hinner
  · exact agree_doubleReferenceTypeOf hinner
  · exact agree_arrayTypeOf hinner
  · exact (steady_of_meets fun _ => meets_stringType).agree _
  · exact agree_namedTypeOf hinner
  · refine (steady_advance.agree _).bind fun t => ?_
    split
    · exact (steady_pure _).agree _
    · exact (steady_throw _).agree _

end

/-! ### Expressions -/

/-- Trying a parser gives no tokens back, since it goes back to where it started. -/
theorem steady_speculate (p : Parser α) : Steady (speculate p) := by
  intro s
  rw [speculate_run]
  cases p s with
  | ok a s' => exact Nat.le_refl _
  | error d s' => exact Nat.le_refl _

theorem agree_genericThen {f g : Bool → Parser β} {mark : Symbol}
    (hf : ∀ found, Agree n (f found) (g found)) :
    Agree n (genericThen Grammar.standard mark >>= f) (genericThen Grammar.standard mark >>= g) :=
  (((steady_speculate _).agree n).bind fun _ => (steady_pure _).agree n).bind hf

theorem agree_constant : Agree n constant constant := by
  refine (steady_advance.agree n).bind fun t => ?_
  split
  · exact (steady_pure _).agree n
  · exact (steady_pure _).agree n
  · exact (steady_pure _).agree n
  · exact (steady_throw _).agree n

theorem agree_commaSeparated {item item' : Parser α} (hitem : Agree n item item') :
    Agree n (commaSeparated item) (commaSeparated item') := by
  refine hitem.bind fun first => ?_
  refine (agree_manyWhile ((steady_advance.agree n).bind fun _ => hitem)).bind fun others => ?_
  exact (steady_pure _).agree n

section

-- The expressions inside an expression are read alike.
variable {inner inner' : Goal → Parser Expr} (hinner : ∀ goal, Agree n (inner goal) (inner' goal))

include hinner

theorem agree_argumentsOf : Agree n (argumentsOf inner) (argumentsOf inner') := by
  refine ((steady_expect _ _).agree n).bind fun _ => agree_kind fun k => ?_
  split
  · refine ((steady_pure _).agree n).bind fun arguments => ?_
    exact ((steady_expect _ _).agree n).bind fun _ => (steady_pure _).agree n
  · refine (agree_commaSeparated (hinner _)).bind fun arguments => ?_
    exact ((steady_expect _ _).agree n).bind fun _ => (steady_pure _).agree n

theorem agree_callOf (hasGeneric : Bool) :
    Agree (n + 1) (callOf Grammar.standard inner hasGeneric)
      (callOf Grammar.standard inner' hasGeneric) := by
  refine agree_identifier fun function => ?_
  have hcall : ∀ generic : Option TypeExpr, Agree n
      (do
        let arguments ← argumentsOf inner
        return (⟨function, generic, arguments, ← spanFrom function.span.start⟩ : Call))
      (do
        let arguments ← argumentsOf inner'
        return (⟨function, generic, arguments, ← spanFrom function.span.start⟩ : Call)) :=
    fun generic => (agree_argumentsOf hinner).bind fun _ => agree_spanFrom_pure _
  cases hasGeneric with
  | false => exact ((steady_pure _).agree n).bind hcall
  | true => exact (((steady_of_meets fun _ => meets_genericClause).agree n).map some).bind hcall

theorem agree_fieldAccessOf : Agree (n + 1) (fieldAccessOf inner) (fieldAccessOf inner') := by
  refine agree_identifier fun object => ((steady_expect _ _).agree n).bind fun _ => ?_
  exact (hinner _).bind fun _ => agree_spanFrom_pure _

theorem agree_arrayAccessOf : Agree (n + 1) (arrayAccessOf inner) (arrayAccessOf inner') := by
  refine agree_identifier fun base => ((steady_expect _ _).agree n).bind fun _ => ?_
  refine (hinner _).bind fun _ => ?_
  exact ((steady_expect _ _).agree n).bind fun _ => agree_spanFrom_pure _

theorem agree_namedOf :
    Agree (n + 1) (namedOf Grammar.standard inner) (namedOf Grammar.standard inner') := by
  have hcall : ∀ hasGeneric, Agree (n + 1)
      (do return Expr.call (← callOf Grammar.standard inner hasGeneric))
      (do return Expr.call (← callOf Grammar.standard inner' hasGeneric)) :=
    fun hasGeneric => (agree_callOf hinner hasGeneric).bind fun _ => (steady_pure _).agree _
  have hname : Agree (n + 1) (do return Expr.identifier (← identifier "identifier"))
      (do return Expr.identifier (← identifier "identifier")) :=
    agree_identifier fun _ => (steady_pure _).agree n
  refine agree_peekKind fun k => ?_
  split
  · exact hcall false
  · refine agree_genericThen fun found => ?_
    split
    · exact hcall true
    · exact hname
  · exact agree_fieldAccessOf hinner
  · exact agree_arrayAccessOf hinner
  · exact hname

theorem agree_rangeOf : Agree n (rangeOf inner) (rangeOf inner') := by
  refine (hinner _).bind fun first => ((steady_expect _ _).agree n).bind fun _ => ?_
  refine ((steady_skip? _).agree n).bind fun inclusive => ?_
  exact (hinner _).bind fun last => (steady_pure _).agree n

theorem agree_matchKeyOf : Agree n (matchKeyOf inner) (matchKeyOf inner') := by
  refine agree_kind fun k => agree_peekKind fun next => ?_
  split
  · exact ((steady_of_meets fun _ => meets_identifier).agree n).bind fun _ =>
      (steady_pure _).agree n
  · exact ((steady_of_meets fun _ => meets_constantList).agree n).bind fun _ =>
      (steady_pure _).agree n
  · exact ((steady_of_meets fun _ => meets_number).agree n).bind fun _ => (steady_pure _).agree n
  · exact ((steady_of_meets fun _ => meets_charLiteral).agree n).bind fun _ =>
      (steady_pure _).agree n
  · exact (agree_rangeOf hinner).bind fun _ => (steady_pure _).agree n

theorem agree_matchArmOf : Agree n (matchArmOf inner) (matchArmOf inner') := by
  refine agree_position fun start => (agree_matchKeyOf hinner).bind fun key => ?_
  refine ((steady_expect _ _).agree n).bind fun _ => (hinner _).bind fun value => ?_
  exact ((steady_expect _ _).agree n).bind fun _ => agree_spanFrom_pure _

theorem agree_matchOf : Agree (n + 1) (matchOf inner) (matchOf inner') := by
  refine agree_expect (by decide) fun word => (hinner _).bind fun value => ?_
  refine ((steady_expect _ _).agree n).bind fun _ => ?_
  refine (agree_manyWhile (agree_matchArmOf hinner)).bind fun arms => ?_
  exact ((steady_expect _ _).agree n).bind fun _ => agree_spanFrom_pure _

theorem agree_primaryOf :
    Agree (n + 1) (primaryOf Grammar.standard inner) (primaryOf Grammar.standard inner') := by
  refine agree_kind fun k => ?_
  split
  · exact (steady_unexpected _ _).agree _
  · exact ((steady_of_meets fun _ => meets_number).agree _).bind fun _ => (steady_pure _).agree _
  · exact ((steady_of_meets fun _ => meets_charLiteral).agree _).bind fun _ =>
      (steady_pure _).agree _
  · exact ((steady_of_meets fun _ => meets_stringLiteral).agree _).bind fun _ =>
      (steady_pure _).agree _
  · exact agree_constant
  · exact agree_namedOf hinner
  · exact (agree_matchOf hinner).bind fun _ => (steady_pure _).agree _

theorem agree_binaryOf (left : Expr) (power : BindingPower) :
    Agree n (binaryOf inner left power) (binaryOf inner' left power) := by
  refine agree_kind fun k => ?_
  split
  · exact (steady_unexpected _ _).agree n
  · refine (steady_advance.agree n).bind fun t => ?_
    exact (hinner _).bind fun right => (steady_pure _).agree n

omit hinner in
theorem agree_typecastOf (left : Expr) :
    Agree n (typecastOf Grammar.standard left) (typecastOf Grammar.standard left) := by
  refine ((steady_expect _ _).agree n).bind fun _ => ?_
  exact ((steady_of_meets fun _ => meets_castTarget).agree n).bind fun _ => agree_spanFrom_pure _

theorem agree_operatorsOf (power : BindingPower) (left : Expr) :
    Agree n (operatorsOf Grammar.standard inner power left)
      (operatorsOf Grammar.standard inner' power left) := by
  refine agree_fix (fun more more' hmore left => agree_kind fun k => ?_) left
  split
  · exact (steady_pure _).agree n
  · split
    · split
      · exact (agree_binaryOf hinner left _).bind hmore
      · exact (agree_typecastOf left).bind hmore
    · exact (steady_pure _).agree n

end

/-! ### Blocks -/

theorem agree_get {f g : State → Parser β} (hf : ∀ s, Agree n (f s) (g s)) :
    Agree n (get >>= f) (get >>= g) := fun s hs => hf s s hs

theorem steady_recoverStatement (d : Diagnostic) (depth start : Nat) (p : Position) :
    Steady (recoverStatement d depth start p) := by
  intro s
  obtain ⟨ts, s', hrun, hpass, -⟩ := recoverStatement_total d depth start p s
  rw [hrun]
  exact hpass.length_rest_le

section

-- The blocks inside a statement are read alike.
variable {inner inner' : Parser Block} (hinner : Agree n inner inner')

include hinner

theorem agree_ifStmtOf :
    Agree (n + 1) (ifStmtOf Grammar.standard inner) (ifStmtOf Grammar.standard inner') := by
  refine agree_expect (by decide) fun word => ?_
  refine ((steady_of_meets fun _ => meets_expression).agree n).bind fun condition => ?_
  refine hinner.bind fun ifBlock => ?_
  exact agree_skipThen hinner fun elseBlock => agree_spanFrom_pure _

theorem agree_whileStmtOf :
    Agree (n + 1) (whileStmtOf Grammar.standard inner) (whileStmtOf Grammar.standard inner') := by
  refine agree_expect (by decide) fun word => ?_
  refine ((steady_of_meets fun _ => meets_expression).agree n).bind fun condition => ?_
  exact hinner.bind fun body => agree_spanFrom_pure _

theorem agree_forStmtOf :
    Agree (n + 1) (forStmtOf Grammar.standard inner) (forStmtOf Grammar.standard inner') := by
  refine agree_expect (by decide) fun word => ((steady_skip? _).agree n).bind fun hasLet => ?_
  refine ((steady_of_meets fun _ => meets_identifier).agree n).bind fun binding => ?_
  refine ((steady_expect _ _).agree n).bind fun _ => ?_
  refine ((steady_of_meets fun _ => meets_iterable).agree n).bind fun values => ?_
  exact hinner.bind fun body => agree_spanFrom_pure _

theorem agree_statementOf :
    Agree (n + 1) (statementOf Grammar.standard inner) (statementOf Grammar.standard inner') := by
  refine agree_kind fun k => ?_
  split
  · exact (steady_unexpected _ _).agree _
  · exact (steady_of_meets fun _ => meets_returnStmt).agree _
  · exact (steady_of_meets fun _ => meets_declarationStmt).agree _
  · exact agree_ifStmtOf hinner
  · exact agree_whileStmtOf hinner
  · exact agree_forStmtOf hinner
  · exact (steady_of_meets fun _ => meets_breakStmt).agree _
  · exact (steady_of_meets fun _ => meets_continueStmt).agree _
  · exact (steady_of_meets fun _ => meets_matchStmt).agree _
  · exact (steady_of_meets fun _ => meets_namedStmt).agree _

theorem agree_blockItemOf (depth : Nat) :
    Agree (n + 1) (blockItemOf Grammar.standard inner depth)
      (blockItemOf Grammar.standard inner' depth) := by
  have hcomments : ∀ stmt : Stmt, Agree (n + 1) (withComments stmt) (withComments stmt) :=
    fun stmt => (steady_takeComments.agree _).bind fun _ => (steady_pure _).agree _
  refine agree_get fun s => (agree_attempt (agree_statementOf hinner)).bind fun result => ?_
  cases result with
  | ok stmt => exact hcomments stmt
  | error d => exact ((steady_recoverStatement d _ _ _).agree _).bind hcomments

theorem agree_blockOf :
    Agree (n + 1) (blockOf Grammar.standard inner) (blockOf Grammar.standard inner') := by
  refine agree_expect (by decide) fun brace => agree_get fun s => ?_
  refine (steady_takeComments.agree n).bind fun leading => ?_
  have hitem := (agree_blockItemOf hinner s.depth).mono (Nat.le_succ n)
  refine (agree_manyWhile hitem).bind fun items => ?_
  refine (agree_attempt ((steady_expect _ _).agree n)).bind fun result => ?_
  cases result with
  | ok _ => exact agree_spanFrom_pure _
  | error d => exact fun s hs => ⟨rfl, Nat.le_refl _⟩

end

/-! ### Loops -/

/-- The loops of the language: the tokens that one goes on at, and what it reads there. -/
inductive Loop : {α : Type} → (Kind → Bool) → Parser α → Prop
  | arguments : Loop (· = Symbol.comma) (do
      let _ ← advance
      expression Grammar.standard .default)
  | constants : Loop (· = .number) (do
      let value ← number "constant_list"
      let _ ← skip? Symbol.pipe
      return value)
  | arms : Loop (fun k => k ≠ Symbol.closeCurly && k ≠ .eof) (matchArmOf (goal Grammar.standard))
  | fieldInits : Loop (fun k => k ≠ Symbol.closeCurly && k ≠ .eof) (fieldInit Grammar.standard)
  | path : Loop (· = .identifier) (do
      let name ← identifier "use_statement"
      match ← kind with
      | .symbol .colonColon | .symbol .dot =>
        let _ ← advance
        return name
      | _ => return name)
  | parameters :
    Loop (fun k => k ≠ Symbol.closeParen && k ≠ .eof) (parameter Grammar.standard)
  | fields : Loop (· = .identifier) (do
      let m ← parameter Grammar.standard
      return (m, ← takeComments))
  | methods : Loop (· = Keyword.fnKw) (do
      let m ← function Grammar.standard
      return (m, ← takeComments))
  | statements (depth : Nat) :
    Loop inBlock (blockItemOf Grammar.standard (block Grammar.standard) depth)
  | definitions : Loop (· ≠ .eof) (fileItem Grammar.standard)

theorem works_pathName {s : State} :
    Works true s (do
      let name ← identifier "use_statement"
      match ← kind with
      | .symbol .colonColon | .symbol .dot =>
        let _ ← advance
        return name
      | _ => return name) fun _ _ => True := by
  refine ((ReadingProduction.identifier _).works s).bind fun name ts s₁ _ => ?_
  have hmark : s₁.current.kind = .symbol .colonColon ∨ s₁.current.kind = .symbol .dot →
      Works false s₁ (do let _ ← advance; return name) fun _ _ =>
        ts ≠ [] → True := by
    intro hmark
    have hplain : s₁.current.kind.isPlain := by
      rcases hmark with h | h <;> rw [h] <;> decide
    exact (meets_advance hplain).works.bind fun _ _ _ _ => works_pure fun _ _ => trivial
  refine works_kind ?_
  split
  · next h => exact hmark (.inl h)
  · next h => exact hmark (.inr h)
  · exact works_pure fun _ => trivial

/-- A turn of a loop goes forward, or fails and leaves the loop. -/
theorem Loop.progresses {wanted : Kind → Bool} {item : Parser α} (h : Loop wanted item)
    {s : State} (hwanted : wanted s.current.kind) : Progresses s item := by
  -- The comments behind a member consume nothing.
  have hmember : ∀ {β : Type} {p : Parser β} {A : β → List Token → Prop}, Works true s p A →
      Progresses s (do let m ← p; return (m, ← takeComments)) := by
    intro β p A hp
    have hall : Works true s (do let m ← p; return (m, ← takeComments)) fun _ _ => True :=
      hp.bind fun _ _ _ _ => works_takeComments.bind fun _ _ _ _ => works_pure fun _ _ => trivial
    exact hall.progresses
  have hparameter := ReadingProduction.parameter.works s
  cases h with
  | arguments =>
    have hcomma := of_decide_eq_true hwanted
    have hplain : s.current.kind.isPlain := by
      rw [hcomma]
      decide
    refine Works.progresses (A := fun _ _ => True) ?_
    refine ((meets_advance hplain).works_of_ne_nil fun _ _ h => by simp [h.1]).bind ?_
    exact fun _ _ _ _ => meets_expression.works.mono fun _ _ _ _ => trivial
  | constants =>
    refine Works.progresses (A := fun _ _ => True) ?_
    refine ((ReadingProduction.number _).works s).bind fun _ _ _ _ => ?_
    exact (meets_skip? (by decide)).works.bind fun _ _ _ _ => works_pure fun _ _ => trivial
  | arms => exact (ReadingProduction.matchArm.works s).progresses
  | fieldInits => exact (ReadingProduction.fieldInit.works s).progresses
  | path => exact works_pathName.progresses
  | parameters => exact hparameter.progresses
  | fields => exact hmember hparameter
  | methods => exact hmember works_function
  | statements depth =>
    obtain ⟨items, s', ts, hrun, hpass, hne⟩ := blockItem_progress depth hwanted
    unfold Progresses
    rw [hrun]
    exact ⟨hpass.index_lt hne, ts, hpass⟩
  | definitions =>
    obtain ⟨items, s', ts, hrun, hwalk, hne, -⟩ := fileItem_total (of_decide_eq_true hwanted)
    unfold Progresses
    rw [hrun]
    exact ⟨hwalk.toPasses.index_lt hne, ts, hwalk.toPasses⟩

/-- The body of a loop. -/
def manyWhileOf (wanted : Kind → Bool) (item : Parser α) (more : Parser (List α)) :
    Parser (List α) := do
  if wanted (← kind) then return (← item) :: (← more) else return []

/-- A loop whose turns go forward calls itself only behind a token. -/
theorem productive_manyWhileOf {wanted : Kind → Bool} {item : Parser α}
    (hitem : ∀ s : State, wanted s.current.kind → Progresses s item) :
    Productive fun (self : Unit → Parser (List α)) _ => manyWhileOf wanted item (self ()) := by
  intro n self hself _ s hs
  by_cases hwanted : wanted s.current.kind
  · have hgo : ∀ more, manyWhileOf wanted item more s =
        (item >>= fun a => more >>= fun as => pure (a :: as)) s := by
      intro more
      show (if wanted s.current.kind then _ else _ : Parser (List α)) s = _
      rw [if_pos hwanted]
    refine Same.congr (hgo _) (hgo _) ?_
    have hmoves := hitem s hwanted
    refine Same.bind ⟨rfl, hmoves.tokensLeft_le⟩ fun a s' hrun => ?_
    refine ((hself ()).bind fun as => (steady_pure _).agree n) s' ?_
    have hlt := hmoves.movesOn a s' hrun
    omega
  · have hstop : ∀ more, manyWhileOf wanted item more s = (pure [] : Parser (List α)) s := by
      intro more
      show (if wanted s.current.kind then _ else _ : Parser (List α)) s = _
      rw [if_neg hwanted]
    exact Same.congr (hstop _) (hstop _) ((steady_pure _).same s)

/-! ### Recursion -/

/-- The operators behind an expression, `more` reading those that are left. -/
def operatorsStep (g : Grammar) (inner : Goal → Parser Expr) (power : BindingPower)
    (more : Expr → Parser Expr) (left : Expr) : Parser Expr := do
  match g.operator? (← kind) with
  | none => return left
  | some (next, form) =>
    if next.tighter power then
      match form with
      | .binary => more (← binaryOf inner left next)
      | .typecast => more (← typecastOf g left)
    else return left

/-- One step of skipping in a block, `more` skipping what is left. -/
def skipInBlockStep (depth start : Nat) (more : Parser Unit) : Parser Unit := do
  let s ← get
  let kind := s.current.kind
  if kind = .eof ∨ s.depth < depth then return ()
  else if s.depth = depth ∧ kind = Symbol.semicolon then
    let _ ← advance
  else if s.depth = depth ∧ (kind = Symbol.closeCurly ∨
      ((kind.startsStatement ∨ kind.startsDefinition) ∧ start < s.index)) then return ()
  else
    let _ ← advance
    more

/-- One step of skipping to a definition, `more` skipping what is left. -/
def skipToDefinitionStep (start : Nat) (more : Parser Unit) : Parser Unit := do
  let s ← get
  let kind := s.current.kind
  if kind = .eof then return ()
  else if kind = Symbol.semicolon ∧ s.depth = 0 then
    let _ ← advance
  else if kind = Symbol.closeCurly then
    let _ ← advance
    if (← get).depth = 0 then return () else more
  else if kind.startsDefinition ∧ s.depth = 0 ∧ start < s.index then return ()
  else
    let _ ← advance
    more

/-- The recursive parsers of the language: a parser, and what it does with itself. -/
inductive Recursion :
    {α β : Type} → (α → Parser β) → ((α → Parser β) → α → Parser β) → Prop
  | type : Recursion (fun _ : Unit => typeExpr Grammar.standard)
      fun self _ => typeExprOf Grammar.standard (self ())
  | expression : Recursion (goal Grammar.standard) (goalOf Grammar.standard)
  | operators (power : BindingPower) :
    Recursion (operatorsOf Grammar.standard (goal Grammar.standard) power)
      (operatorsStep Grammar.standard (goal Grammar.standard) power)
  | block : Recursion (fun _ : Unit => block Grammar.standard)
      fun self _ => blockOf Grammar.standard (self ())
  | skipInBlock (depth start : Nat) : Recursion (fun _ : Unit => skipTokensInBlock depth start)
      fun self _ => skipInBlockStep depth start (self ())
  | skipToDefinition (start : Nat) : Recursion (fun _ : Unit => skipTokensToDefinition start)
      fun self _ => skipToDefinitionStep start (self ())
  | loop {α : Type} {wanted : Kind → Bool} {item : Parser α} (h : Loop wanted item) :
    Recursion (fun _ : Unit => manyWhile wanted item)
      fun self _ => manyWhileOf wanted item (self ())

theorem productive_goalOf : Productive (goalOf Grammar.standard) := by
  intro n self hself goal
  cases goal with
  | primary => exact agree_primaryOf hself
  | above power =>
    refine (agree_primaryOf hself).bind_moved (fun s => ?_) (agree_operatorsOf hself power)
    -- The operators come behind the first operand.
    have hfirst : Meets [] s (primaryOf Grammar.standard (goal Grammar.standard)) Expr.PrimaryBy :=
      meets_primaryOf fun goal _ _ => meets_goal goal
    exact (hfirst.works_of_ne_nil fun _ _ h => h.startsWith.ne_nil).movesOn

theorem productive_operatorsStep (power : BindingPower) :
    Productive (operatorsStep Grammar.standard (goal Grammar.standard) power) := by
  intro n self hself left
  have hinner : ∀ goal, Agree (n + 1) (Parser.goal Grammar.standard goal)
      (Parser.goal Grammar.standard goal) :=
    fun goal => (steady_of_meets fun _ => meets_goal goal).agree _
  refine agree_kind fun k => ?_
  split
  · exact (steady_pure _).agree _
  · next next form _ =>
    split
    · cases form with
      | binary =>
        exact (agree_binaryOf hinner left next).bind_moved
          (fun s => ((ReadingProduction.binary left next).works s).movesOn) hself
      | typecast =>
        exact (agree_typecastOf left).bind_moved
          (fun s => ((ReadingProduction.typecast left).works s).movesOn) hself
    · exact (steady_pure _).agree _

/-- The end of the input stays where it is, and behind any other token fewer are left. -/
theorem agree_advance_then {f g : Parser α} {s : State} (hs : s.rest.length < n + 1)
    (heof : s.current.kind ≠ .eof) (hf : Agree n f g) :
    Same s (do let _ ← advance; f) (do let _ ← advance; g) := by
  refine (steady_advance.same s).bind fun t s' hrun => hf s' ?_
  obtain ⟨-, rfl⟩ := EStateM.Result.ok.inj hrun
  have hlt := length_rest_advance heof
  omega

theorem productive_skipInBlockStep (depth start : Nat) :
    Productive fun (self : Unit → Parser Unit) _ => skipInBlockStep depth start (self ()) := by
  intro n self hself _ s hs
  show Same s (if s.current.kind = .eof ∨ s.depth < depth then _ else _ : Parser Unit)
    (if s.current.kind = .eof ∨ s.depth < depth then _ else _ : Parser Unit)
  split
  · exact (steady_pure _).same s
  · next hgo =>
    split
    · exact (steady_advance.same s).bind fun _ s' _ => (steady_pure _).same s'
    · split
      · exact (steady_pure _).same s
      · exact agree_advance_then hs (fun h => hgo (.inl h)) (hself ())

theorem productive_skipToDefinitionStep (start : Nat) :
    Productive fun (self : Unit → Parser Unit) _ => skipToDefinitionStep start (self ()) := by
  intro n self hself _ s hs
  show Same s (if s.current.kind = .eof then _ else _ : Parser Unit)
    (if s.current.kind = .eof then _ else _ : Parser Unit)
  split
  · exact (steady_pure _).same s
  · next heof =>
    split
    · exact (steady_advance.same s).bind fun _ s' _ => (steady_pure _).same s'
    · split
      · refine agree_advance_then hs heof (agree_get fun s' => ?_)
        split
        · exact (steady_pure _).agree n
        · exact hself ()
      · split
        · exact (steady_pure _).same s
        · exact agree_advance_then hs heof (hself ())

section

variable {p : α → Parser β} {body : (α → Parser β) → α → Parser β}

/-- Each of them is tied by `fix`. -/
theorem Recursion.eq_fix (h : Recursion p body) : p = fix body := by
  cases h <;> rfl

/-- Each of them calls itself only behind a token. -/
theorem Recursion.productive (h : Recursion p body) : Productive body := by
  cases h with
  | type => exact fun n self hself _ => agree_typeExprOf (hself ())
  | expression => exact productive_goalOf
  | operators power => exact productive_operatorsStep power
  | block => exact fun n self hself _ => agree_blockOf (hself ())
  | skipInBlock depth start => exact productive_skipInBlockStep depth start
  | skipToDefinition start => exact productive_skipToDefinitionStep start
  | loop h => exact productive_manyWhileOf fun s hs => h.progresses hs

/-- So each of them is its body given itself, without a guard. -/
theorem Recursion.eq_body (h : Recursion p body) (a : α) : p a = body p a := by
  rw [h.eq_fix]
  exact h.productive.fix_eq a

/-- And it calls itself no deeper than there are tokens left: what would stand at the bottom
is never reached. -/
theorem Recursion.unroll_eq (h : Recursion p body) (bottom : α → Parser β) (a : α) {s : State}
    (hn : s.rest.length < n) : unroll body bottom n a s = p a s := by
  rw [h.eq_fix]
  exact h.productive.unroll_eq bottom hn a

end

/-! ### Reading ends -/

theorem rest_ofStream (stream : TokenStream) :
    (State.ofStream stream).rest = stream.tokens ∨
      ∃ last, last.kind = .eof ∧ stream.tokens = (State.ofStream stream).rest ++ [last] := by
  cases hlast : stream.tokens.getLast? with
  | none =>
    left
    rw [List.getLast?_eq_none_iff] at hlast
    simp [State.ofStream, hlast]
  | some last =>
    obtain ⟨before, hsplit⟩ := List.getLast?_eq_some_iff.mp hlast
    by_cases hkind : last.kind = .eof
    · right
      refine ⟨last, hkind, ?_⟩
      simp [State.ofStream, hsplit, hkind]
    · left
      simp [State.ofStream, hsplit, hkind]

theorem consumed_ofStream (stream : TokenStream) : (State.ofStream stream).consumed = [] := by
  unfold State.ofStream
  split
  · rfl
  · split <;> rfl

/-- What is passed on the way to the end of the input is all that stands before it. -/
theorem Passes.eq_takeWhile {s s' : State} {ts : List Token} (h : Passes s ts s')
    (heof : s'.current.kind = .eof) : s.rest.takeWhile (fun t => t.kind ≠ .eof) = ts := by
  rw [h.rest, List.takeWhile_append_of_pos (by simpa using h.proper)]
  cases hrest : s'.rest with
  | nil => simp
  | cons t rest =>
    rw [current_of_rest hrest] at heof
    simp [heof]

/-- What is read of a stream is what it holds up to the first token that is the end of the
input. -/
theorem Passes.eq_takeWhile_stream {stream : TokenStream} {s' : State} {ts : List Token}
    (h : Passes (State.ofStream stream) ts s') (heof : s'.current.kind = .eof) :
    ts = stream.tokens.takeWhile fun t => t.kind ≠ .eof := by
  rw [← h.eq_takeWhile heof]
  rcases rest_ofStream stream with hall | ⟨last, hlast, hall⟩
  · rw [hall]
  · -- The end of the input that the stream brings along does not count.
    rw [hall, List.takeWhile_append]
    split
    · next hlen =>
      have hwhole := List.takeWhile_prefix (fun t : Token => decide (t.kind ≠ .eof))
        |>.eq_of_length hlen
      rw [hwhole]
      simp [hlast]
    · rfl

theorem faults_ofStream (stream : TokenStream) : (State.ofStream stream).faults = [] := by
  unfold State.ofStream
  split
  · rfl
  · split <;> rfl

/-- A stream, with its end of the input or without it, is read up to the first token that is
the end of the input.  Reading breaks off only at literals without a head. -/
theorem sourceFile_reads_stream (stream : TokenStream) :
    ∃ file s', sourceFile Grammar.standard (State.ofStream stream) = .ok file s' ∧
      s'.current.kind = .eof ∧
      s'.consumed.reverse = stream.tokens.takeWhile (fun t => t.kind ≠ .eof) ∧
      parseTokens? stream =
        (if s'.faults = [] then some (file, s'.diagnostics.reported) else none) ∧
      ∀ t ∈ s'.faults, t ∈ stream.tokens ∧ t.Headless := by
  obtain ⟨file, s', ts, hrun, hwalk, heof, -⟩ := sourceFile_total (State.ofStream stream)
  have hts := hwalk.toPasses.eq_takeWhile_stream heof
  obtain ⟨us, hfaults, hsub, hheadless⟩ := hwalk.faults
  rw [faults_ofStream, List.nil_append] at hfaults
  refine ⟨file, s', hrun, heof, ?_, by rw [parseTokens?, hrun], fun t ht => ?_⟩
  · rw [hwalk.consumed, consumed_ofStream, List.append_nil, List.reverse_reverse, hts]
  · rw [hfaults] at ht
    have hmem := hsub.subset ht
    rw [hts] at hmem
    exact ⟨List.takeWhile_subset _ hmem, hheadless t ht⟩

/-- Reading ends, whatever the tokens are.  No recursive parser needs its guard, and each is
reached by as many unfoldings as there are tokens left; a production that succeeds has
consumed a token, and one that fails has not gone back; a turn of a loop goes forward or
leaves the loop, and the statements of a block and the definitions of a file never leave it
by failing; nothing consumes the end of the input, and a stream is read up to there.  On its
way a run may break off, but only at a literal of the stream that has no head; where it does
not, it gives a tree. -/
theorem reading_terminates :
    (∀ {α β : Type} {p : α → Parser β} {body : (α → Parser β) → α → Parser β},
      Recursion p body → (∀ a, p a = body p a) ∧ ∀ (bottom : α → Parser β) (n : Nat) (a : α)
        (s : State), s.rest.length < n → unroll body bottom n a s = p a s) ∧
    (∀ {α : Type} {p : Parser α}, Production p → ∀ s, Progresses s p) ∧
    (∀ {α : Type} {wanted : Kind → Bool} {item : Parser α}, Loop wanted item →
      ∀ s : State, wanted s.current.kind → Progresses s item) ∧
    (∀ (depth : Nat) (s : State), inBlock s.current.kind → ∃ items s' ts,
      blockItemOf Grammar.standard (block Grammar.standard) depth s = .ok items s' ∧
      Passes s ts s') ∧
    (∀ s : State, s.current.kind ≠ .eof → ∃ items s' ts,
      fileItem Grammar.standard s = .ok items s' ∧ Passes s ts s') ∧
    ∀ stream : TokenStream, ∃ file s',
      sourceFile Grammar.standard (State.ofStream stream) = .ok file s' ∧
      s'.current.kind = .eof ∧
      s'.consumed.reverse = stream.tokens.takeWhile (fun t => t.kind ≠ .eof) ∧
      parseTokens? stream =
        (if s'.faults = [] then some (file, s'.diagnostics.reported) else none) ∧
      ∀ t ∈ s'.faults, t ∈ stream.tokens ∧ t.Headless := by
  refine ⟨fun h => ⟨h.eq_body, fun bottom n a s hn => h.unroll_eq bottom a hn⟩,
    fun h s => h.progresses s, fun h s hwanted => h.progresses hwanted, ?_, ?_,
    sourceFile_reads_stream⟩
  · intro depth s hin
    obtain ⟨items, s', ts, hrun, hpass, -⟩ := blockItem_progress depth hin
    exact ⟨items, s', ts, hrun, hpass⟩
  · intro s heof
    obtain ⟨items, s', ts, hrun, hwalk, -⟩ := fileItem_total heof
    exact ⟨items, s', ts, hrun, hwalk.toPasses⟩

/-- A closing brace that nothing opened, the end of the input before the last token, and none
behind it. -/
def strayTokens : TokenStream :=
  let p := Position.start.next '\x7d'
  ⟨[⟨.symbol .closeCurly, "\x7d", ⟨Position.start, p⟩⟩, ⟨.eof, "", Span.empty p⟩,
    ⟨.keyword .fnKw, "fn", ⟨p, p.after "fn".toList⟩⟩], []⟩

/-- The tokens of `fn f() { x = ""; }`, the text of the string literal lost. -/
def headlessTokens : TokenStream :=
  let stream := (tokenize "fn f() \x7b x = \"\"; \x7d").stream
  { stream with
    tokens := stream.tokens.map fun t => if t.kind = .string then { t with text := "" } else t }

theorem reading_terminates_strayTokens :
    (State.ofStream strayTokens).current.kind ≠ .eof ∧
    (State.ofStream strayTokens).rest.length < 4 ∧
    unroll (fun self _ => blockOf Grammar.standard (self ())) (fun _ => unexpected "" []) 4 ()
      (State.ofStream strayTokens) = block Grammar.standard (State.ofStream strayTokens) ∧
    Progresses (State.ofStream strayTokens) (definition Grammar.standard) ∧
    Progresses (State.ofStream strayTokens) (fileItem Grammar.standard) ∧
    (∃ file s', sourceFile Grammar.standard (State.ofStream strayTokens) = .ok file s' ∧
      s'.consumed.reverse.length = 1) ∧
    parseTokens? headlessTokens = none ∧ ∃ t ∈ headlessTokens.tokens, t.Headless := by
  obtain ⟨hrecursion, hproduction, hloop, -, -, hstream⟩ := reading_terminates
  have hproper : (State.ofStream strayTokens).current.kind ≠ .eof := by decide
  have hlength : (State.ofStream strayTokens).rest.length < 4 := by decide
  refine ⟨hproper, hlength, (hrecursion .block).2 _ 4 () _ hlength, hproduction .definition _,
    hloop .definitions _ (by simpa using hproper), ?_, ?_⟩
  · obtain ⟨file, s', hrun, -, hconsumed, -⟩ := hstream strayTokens
    refine ⟨file, s', hrun, ?_⟩
    rw [hconsumed]
    decide
  · have hnone : (parseTokens? headlessTokens).isNone := by decide +kernel
    have hbroken := Option.isNone_iff_eq_none.mp hnone
    obtain ⟨file, s', hrun, -, -, hparsed, hfaults⟩ := hstream headlessTokens
    refine ⟨hbroken, ?_⟩
    rw [hbroken] at hparsed
    -- The run has broken off, so that there is a literal at which it did.
    cases hat : s'.faults with
    | nil => simp [hat] at hparsed
    | cons t ts => exact ⟨t, hfaults t (by simp [hat])⟩

end FrontEnd.Parser
