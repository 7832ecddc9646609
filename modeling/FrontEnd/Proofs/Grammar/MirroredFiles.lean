/-
Statements, blocks, definitions and files, read twice.

* `mirrors_namedStmt` and its companions — a statement without blocks is read in the same way,
  as far as the tokens are the same;
* `mirrors_block`, `mirrors_definition` — so are blocks and definitions, and what is recorded on
  the way is the same, if the token behind the stretch is;
* `mirrors_fileItem` — so are the items of a file, also those that are skipped.

Recovery decides by the kinds of tokens, by the number of tokens and by the number of open
braces, which are the same on both sides.  The comments that are handed out on the way differ
where places are not compared; they are left out of the trees then.
-/
import FrontEnd.Proofs.Grammar.Mirroring
import FrontEnd.Proofs.Grammar.ShiftedFiles

namespace FrontEnd.Parser

variable {α β : Type} {c : Comparison} {pre : State → Prop}

/-! ### Statements without blocks -/

theorem mirrors_breakStmt : Mirrors c pre false Stmt.bare breakStmt breakStmt := by
  refine (mirrors_expect _ _).bind fun _ _ hword => (mirrors_expect _ _).bind fun _ _ _ => ?_
  exact (mirrors_spanFrom hword.start_eq).bind fun _ _ h =>
    mirrors_pure (h.map Stmt.breakLoop (congrArg Stmt.breakLoop))

theorem mirrors_continueStmt : Mirrors c pre false Stmt.bare continueStmt continueStmt := by
  refine (mirrors_expect _ _).bind fun _ _ hword => (mirrors_expect _ _).bind fun _ _ _ => ?_
  exact (mirrors_spanFrom hword.start_eq).bind fun _ _ h =>
    mirrors_pure (h.map Stmt.continueLoop (congrArg Stmt.continueLoop))

theorem mirrors_mutMarker? :
    Mirrors c pre false (Option.map (Span.relocate unplaced)) mutMarker? mutMarker? := by
  refine mirrors_kind_eq (by decide) ?_ (mirrors_pure (.refl _ _))
  exact mirrors_advance.bind fun _ _ h => mirrors_pure (h.map (some ·.span) fun _ => rfl)

theorem mirrors_returnStmt :
    Mirrors c pre false Stmt.bare (returnStmt Grammar.standard) (returnStmt Grammar.standard) := by
  refine (mirrors_expect _ _).bind fun _ _ hword => (mirrors_expression _).bind fun _ _ hvalue => ?_
  refine (mirrors_expect _ _).bind fun _ _ _ => (mirrors_spanFrom hword.start_eq).bind
    fun _ _ hspan => mirrors_pure ⟨fun hp => by rw [hvalue.same hp, hspan.same hp], ?_⟩
  simp only [Stmt.bare, Stmt.uncommented, Stmt.relocate, hvalue.shown, hspan.shown]

theorem mirrors_declarationStmt :
    Mirrors c pre false Stmt.bare (declarationStmt Grammar.standard)
      (declarationStmt Grammar.standard) := by
  refine (mirrors_expect _ _).bind fun _ _ hword => mirrors_mutMarker?.bind fun _ _ hmut => ?_
  refine (mirrors_identifier _).bind fun _ _ hname => (mirrors_expect _ _).bind fun _ _ _ => ?_
  refine mirrors_typeExpr.bind fun _ _ htype => ?_
  refine mirrors_skipThen (.inl (by decide)) mirrors_initializer fun _ _ hvalue => ?_
  refine (mirrors_expect _ _).bind fun _ _ _ => (mirrors_spanFrom hword.start_eq).bind
    fun _ _ hspan => mirrors_pure ⟨fun hp => ?_, ?_⟩
  · rw [hmut.same hp, hname.same hp, htype.same hp, hvalue.same hp, hspan.same hp]
  · simp only [Stmt.bare, Stmt.uncommented, Stmt.relocate, hmut.shown, hname.shown, htype.shown,
      hvalue.shown, hspan.shown]

/-- The production that an assignment is read by, which its target decides. -/
def assignmentProduction : Expr → String
  | .fieldAccess .. => "field_assignment"
  | .arrayAccess .. => "array_assignment"
  | _ => "variable_assignment"

/-- The assignment to a target, if it can be assigned to. -/
def assigned (target value : Expr) (span : Span) : Except Diagnostic Stmt :=
  match target with
  | .identifier name => .ok (.assignment name value span)
  | .fieldAccess object member _ =>
    match member with
    | .identifier _ | .arrayAccess .. => .ok (.fieldAssignment object member value span)
    | _ => .error (invalidTarget member "field_assignment")
  | .arrayAccess base index _ => .ok (.arrayAssignment (.identifier base) index value span)
  | _ => .error (invalidTarget target "variable_assignment")

theorem assignmentTo_eq (target value : Expr) (start : Position) :
    assignmentTo target value start = (do
      let _ ← expect Symbol.semicolon (assignmentProduction target)
      let span ← spanFrom start
      match assigned target value span with
      | .ok stmt => return stmt
      | .error d => throw d) := by
  cases target with
  | fieldAccess object member _ => cases member <;> rfl
  | _ => rfl

theorem assignmentProduction_relocate (f : Position → Position) (e : Expr) :
    assignmentProduction (e.relocate f) = assignmentProduction e := by
  cases e <;> rfl

/-- The place of a target does not decide whether it can be assigned to. -/
theorem assigned_relocate (f : Position → Position) (target value : Expr) (span : Span) :
    assigned (target.relocate f) (value.relocate f) (span.relocate f) =
      match assigned target value span with
      | .ok stmt => .ok (stmt.relocate f)
      | .error d => .error (d.relocate f) := by
  cases target with
  | fieldAccess object member _ =>
    cases member <;> first | rfl | exact congrArg Except.error (invalidTarget_relocate f _ _)
  | identifier | arrayAccess => rfl
  | _ => exact congrArg Except.error (invalidTarget_relocate f _ _)

theorem Stmt.bare_assigned {target value : Expr} {span : Span} {stmt : Stmt}
    (h : assigned target value span = .ok stmt) : stmt.bare = stmt.relocate unplaced := by
  cases target with
  | fieldAccess object member _ =>
    cases member <;> simp only [assigned, reduceCtorEq, Except.ok.injEq] at h <;> subst h <;> rfl
  | identifier | arrayAccess =>
    simp only [assigned, Except.ok.injEq] at h
    subst h
    rfl
  | _ => simp only [assigned, reduceCtorEq] at h

theorem malformed_assigned {target value : Expr} {span : Span} {d : Diagnostic}
    (h : assigned target value span = .error d) : malformed d = false := by
  cases target with
  | fieldAccess object member _ =>
    cases member <;> simp only [assigned, reduceCtorEq, Except.error.injEq] at h <;> subst h <;> rfl
  | identifier | arrayAccess => simp only [assigned, reduceCtorEq] at h
  | _ =>
    simp only [assigned, Except.error.injEq] at h
    subst h
    rfl

theorem mirrors_assignmentTo {target target' value value' : Expr} {start start' : Position}
    (htarget : Alike c.placed (Expr.relocate unplaced) target target')
    (hvalue : Alike c.placed (Expr.relocate unplaced) value value')
    (hstart : Alike c.placed unplaced start start') :
    Mirrors c pre false Stmt.bare (assignmentTo target value start)
      (assignmentTo target' value' start') := by
  have hproduction : assignmentProduction target = assignmentProduction target' := by
    rw [← assignmentProduction_relocate unplaced, htarget.shown, assignmentProduction_relocate]
  rw [assignmentTo_eq, assignmentTo_eq, hproduction]
  refine (mirrors_expect _ _).bind fun _ _ _ => (mirrors_spanFrom hstart).bind
    fun span span' hspan => ?_
  have hsame : c.placed → assigned target value span = assigned target' value' span' := fun hp => by
    rw [htarget.same hp, hvalue.same hp, hspan.same hp]
  have hshown := assigned_relocate unplaced target value span
  rw [htarget.shown, hvalue.shown, hspan.shown, assigned_relocate] at hshown
  -- Both targets can be assigned to, or none.
  cases hrun : assigned target value span with
  | ok stmt =>
    cases hrun' : assigned target' value' span' with
    | ok stmt' =>
      rw [hrun, hrun'] at hshown hsame
      refine mirrors_pure ⟨fun hp => Except.ok.inj (hsame hp), ?_⟩
      rw [Stmt.bare_assigned hrun, Stmt.bare_assigned hrun']
      exact (Except.ok.inj hshown).symm
    | error d' =>
      rw [hrun, hrun'] at hshown
      exact nomatch hshown
  | error d =>
    cases hrun' : assigned target' value' span' with
    | ok stmt' =>
      rw [hrun, hrun'] at hshown
      exact nomatch hshown
    | error d' =>
      rw [hrun, hrun'] at hshown hsame
      refine mirrors_throw ?_
        ⟨fun hp => Except.error.inj (hsame hp), (Except.error.inj hshown).symm⟩
      rw [malformed_assigned hrun, malformed_assigned hrun']

/-- The call that an expression is. -/
def called : Expr → Option Call
  | .call call => some call
  | _ => none

theorem called_relocate (f : Position → Position) (e : Expr) :
    called (e.relocate f) = (called e).map (·.relocate f) := by
  cases e <;> rfl

/-- A statement with a target that nothing is assigned to, which has to be a call. -/
def callStmt (target : Expr) (start : Position) : Parser Stmt :=
  match called target with
  | some call => do
    let _ ← expect Symbol.semicolon "call_statement"
    return .call call (← spanFrom start)
  | none => unexpected "statement" ([Symbol.assignment, .openBracket, .openParen].map Kind.symbol)

/-- A statement that starts with a name, at the given place. -/
def namedFrom (g : Grammar) (start : Position) : Parser Stmt := do
  let target ← primary g
  match ← kind with
  | .symbol .assignment =>
    let _ ← advance
    let value ← expression g .default
    assignmentTo target value start
  | .symbol .openBracket =>
    let _ ← advance
    let index ← primary g
    let _ ← expect Symbol.closeBracket "array_assignment"
    let _ ← expect Symbol.assignment "array_assignment"
    let value ← expression g .default
    let _ ← expect Symbol.semicolon "array_assignment"
    return .arrayAssignment target index value (← spanFrom start)
  | _ => callStmt target start

theorem namedStmt_eq (g : Grammar) : namedStmt g = position >>= namedFrom g := by
  unfold namedStmt
  congr 1
  funext start
  unfold namedFrom
  congr 1
  funext target
  cases target <;> rfl

theorem mirrors_callStmt {target target' : Expr} {start start' : Position}
    (htarget : Alike c.placed (Expr.relocate unplaced) target target')
    (hstart : Alike c.placed unplaced start start') :
    Mirrors c pre false Stmt.bare (callStmt target start) (callStmt target' start') := by
  have hcalled : Alike c.placed (Option.map (Call.relocate unplaced)) (called target)
      (called target') :=
    htarget.map called fun h => by rw [← called_relocate, ← called_relocate, h]
  unfold callStmt
  generalize called target = call at hcalled ⊢
  generalize called target' = call' at hcalled ⊢
  cases call with
  | none =>
    obtain rfl : call' = none := by simpa using hcalled.shown.symm
    exact mirrors_unexpected _ _
  | some call =>
    obtain ⟨call', rfl, -⟩ := Option.map_eq_some_iff.mp hcalled.shown.symm
    refine (mirrors_expect _ _).bind fun _ _ _ => (mirrors_spanFrom hstart).bind
      fun _ _ hspan => mirrors_pure ⟨fun hp => ?_, ?_⟩
    · rw [Option.some.inj (hcalled.same hp), hspan.same hp]
    · simp only [Stmt.bare, Stmt.uncommented, Stmt.relocate, Option.some.inj hcalled.shown,
        hspan.shown]

theorem mirrors_namedStmt :
    Mirrors c c.Started false Stmt.bare (namedStmt Grammar.standard)
      (namedStmt Grammar.standard) := by
  rw [namedStmt_eq]
  refine mirrors_position fun start start' hstart => ?_
  refine mirrors_primary.bind fun target target' htarget => ?_
  refine mirrors_kind (by simp [followers]) fun k => ?_
  split
  · refine mirrors_advance.bind fun _ _ _ => (mirrors_expression _).bind fun _ _ hvalue => ?_
    exact mirrors_assignmentTo htarget hvalue hstart
  · refine mirrors_advance.bind fun _ _ _ => mirrors_primary.bind fun _ _ hindex => ?_
    refine (mirrors_expect _ _).bind fun _ _ _ => (mirrors_expect _ _).bind fun _ _ _ => ?_
    refine (mirrors_expression _).bind fun _ _ hvalue => (mirrors_expect _ _).bind fun _ _ _ => ?_
    refine (mirrors_spanFrom hstart).bind fun _ _ hspan => mirrors_pure ⟨fun hp => ?_, ?_⟩
    · rw [htarget.same hp, hindex.same hp, hvalue.same hp, hspan.same hp]
    · simp only [Stmt.bare, Stmt.uncommented, Stmt.relocate, htarget.shown, hindex.shown,
        hvalue.shown, hspan.shown]
  · exact mirrors_callStmt htarget hstart

theorem mirrors_matchStmt :
    Mirrors c c.Started false Stmt.bare (matchStmt Grammar.standard)
      (matchStmt Grammar.standard) := by
  refine mirrors_position fun start start' hstart => ?_
  refine (mirrors_matchOf mirrors_goal).bind fun _ _ hmatch => ?_
  refine (mirrors_expect _ _).bind fun _ _ _ => (mirrors_spanFrom hstart).bind
    fun _ _ hspan => mirrors_pure ⟨fun hp => by rw [hmatch.same hp, hspan.same hp], ?_⟩
  simp only [Stmt.bare, Stmt.uncommented, Stmt.relocate, hmatch.shown, hspan.shown]

theorem mirrors_iterable :
    Mirrors c c.Started false (Expr.relocate unplaced) (iterable Grammar.standard)
      (iterable Grammar.standard) := by
  have hrange : ∀ {pre : State → Prop}, Mirrors c pre false (Expr.relocate unplaced)
      (do return .range (← range Grammar.standard)) (do return .range (← range Grammar.standard)) :=
    (mirrors_rangeOf mirrors_goal).bind fun _ _ h =>
      mirrors_pure (h.map Expr.range (congrArg Expr.range))
  refine mirrors_kind_peekKind (by simp [ends]) (fun k => ?_) hrange fun k next => ?_
  · cases k <;> simp [followers]
  split
  · exact (mirrors_identifier _).bind fun _ _ h =>
      mirrors_pure (h.map Expr.identifier (congrArg Expr.identifier))
  · exact hrange

/-! ### Statements with blocks -/

section

variable (hsure : c.Sure)

section

-- The blocks inside a statement are mirrored.
variable {inner inner' : Parser Block} (hinner : Mirrors c anywhere false Block.bare inner inner')

include hinner

theorem mirrors_ifStmtOf :
    Mirrors c pre false Stmt.bare (ifStmtOf Grammar.standard inner)
      (ifStmtOf Grammar.standard inner') := by
  refine (mirrors_expect _ _).bind fun _ _ hword => ?_
  refine (mirrors_expression _).bind fun _ _ hcondition => hinner.bind fun _ _ hif => ?_
  refine mirrors_skipThen (.inl (by decide)) hinner fun elseBlock elseBlock' helse => ?_
  refine (mirrors_spanFrom hword.start_eq).bind fun _ _ hspan => mirrors_pure ⟨fun hp => ?_, ?_⟩
  · rw [hcondition.same hp, hif.same hp, helse.same hp, hspan.same hp]
  · rw [Stmt.bare_conditional, Stmt.bare_conditional, hcondition.shown, hif.shown, hspan.shown]
    exact congrArg (Stmt.conditional _ _ · _) helse.shown

theorem mirrors_whileStmtOf :
    Mirrors c pre false Stmt.bare (whileStmtOf Grammar.standard inner)
      (whileStmtOf Grammar.standard inner') := by
  refine (mirrors_expect _ _).bind fun _ _ hword => ?_
  refine (mirrors_expression _).bind fun _ _ hcondition => hinner.bind fun body body' hbody => ?_
  refine (mirrors_spanFrom hword.start_eq).bind fun _ _ hspan => mirrors_pure ⟨fun hp => ?_, ?_⟩
  · rw [hcondition.same hp, hbody.same hp, hspan.same hp]
  · rw [Stmt.bare_whileLoop, Stmt.bare_whileLoop, hcondition.shown, hbody.shown, hspan.shown]

include hsure

theorem mirrors_forStmtOf :
    Mirrors c pre false Stmt.bare (forStmtOf Grammar.standard inner)
      (forStmtOf Grammar.standard inner') := by
  refine (mirrors_expect _ _).bind fun _ _ hword => ?_
  refine (mirrors_skip? (.inr hsure)).bind fun hasLet hasLet' hlet => ?_
  refine (mirrors_identifier _).bind fun _ _ hbinding => (mirrors_expect _ _).bind fun _ _ _ => ?_
  refine (Mirrors.of_sure hsure (mirrors_iterable.mono fun _ _ _ h => h.2)).bind
    fun _ _ hvalues => ?_
  refine hinner.bind fun body body' hbody => ?_
  refine (mirrors_spanFrom hword.start_eq).bind fun _ _ hspan => mirrors_pure ⟨fun hp => ?_, ?_⟩
  · rw [hlet.same hp, hbinding.same hp, hvalues.same hp, hbody.same hp, hspan.same hp]
  · obtain rfl : hasLet = hasLet' := hlet.shown
    rw [Stmt.bare_forLoop, Stmt.bare_forLoop, hbinding.shown, hvalues.shown, hbody.shown,
      hspan.shown]

theorem mirrors_statementOf :
    Mirrors c pre false Stmt.bare (statementOf Grammar.standard inner)
      (statementOf Grammar.standard inner') := by
  refine mirrors_kind_sure hsure fun k => ?_
  split
  · exact mirrors_unexpected _ _
  · exact mirrors_returnStmt
  · exact mirrors_declarationStmt
  · exact mirrors_ifStmtOf hinner
  · exact mirrors_whileStmtOf hinner
  · exact mirrors_forStmtOf hsure hinner
  · exact mirrors_breakStmt
  · exact mirrors_continueStmt
  · exact .of_sure hsure (mirrors_matchStmt.mono fun _ _ _ h => h.2)
  · exact .of_sure hsure (mirrors_namedStmt.mono fun _ _ _ h => h.2)

/-! ### Blocks -/

omit hinner in
/-- Skipping goes as far on both sides. -/
theorem mirrors_skipTokensInBlock (depth start : Nat) :
    Mirrors c anywhere false id (skipTokensInBlock depth start)
      (skipTokensInBlock depth start) := by
  refine mirrors_nest fun more more' hmore => mirrors_get hsure fun u u' hu => ?_
  dsimp only
  rw [hu.kind, hu.depth, hu.index]
  split
  · exact mirrors_pure (.refl _ _)
  · split
    · exact mirrors_advance.bind fun _ _ _ => mirrors_pure (.refl _ _)
    · split
      · exact mirrors_pure (.refl _ _)
      · exact mirrors_advance.bind fun _ _ _ => hmore

omit hinner in
theorem mirrors_skipInBlock (depth start : Nat) :
    Mirrors c anywhere false id (skipInBlock depth start) (skipInBlock depth start) := by
  refine (mirrors_skipTokensInBlock hsure depth start).bind fun _ _ _ => ?_
  refine mirrors_get hsure fun u u' hu => ?_
  rw [hu.kind, hu.index]
  split
  · exact mirrors_advance.bind fun _ _ _ => mirrors_pure (.refl _ _)
  · exact mirrors_pure (.refl _ _)

omit hinner in
theorem mirrors_recoverStatement {d d' : Diagnostic} (depth start : Nat)
    {position position' : Position} (hd : Alike c.placed (Diagnostic.relocate unplaced) d d')
    (hposition : Alike c.placed unplaced position position') :
    Mirrors c anywhere false Stmt.bare (recoverStatement d depth start position)
      (recoverStatement d' depth start position') := by
  have hspan : Mirrors c anywhere false Stmt.bare
      (do return .error (← spanFrom position)) (do return .error (← spanFrom position')) :=
    (mirrors_spanFrom hposition).bind fun _ _ h =>
      mirrors_pure (h.map Stmt.error (congrArg Stmt.error))
  have hcause : d'.cause = d.cause := (congrArg Diagnostic.cause hd.shown).symm
  refine mirrors_get hsure fun u u' hu => (mirrors_record hd).bind fun _ _ _ => ?_
  rw [hcause, hu.kind, hu.index, hu.depth]
  exact mirrors_ite hspan ((mirrors_skipInBlock hsure depth start).bind fun _ _ _ => hspan)

omit hinner in
theorem mirrors_withComments {stmt stmt' : Stmt} (h : Alike c.placed Stmt.bare stmt stmt') :
    Mirrors c anywhere false Stmt.bareAll (withComments stmt) (withComments stmt') := by
  refine (mirrors_takeComments hsure).bind fun comments comments' hcomments => mirrors_pure ?_
  refine ⟨fun hp => by rw [h.same hp, hcomments.same hp], ?_⟩
  rw [Stmt.bareAll_cons, Stmt.bareAll_cons, Stmt.bareAll_comments, Stmt.bareAll_comments, h.shown]

theorem mirrors_blockItemOf (depth : Nat) :
    Mirrors c pre false Stmt.bareAll (blockItemOf Grammar.standard inner depth)
      (blockItemOf Grammar.standard inner' depth) := by
  refine mirrors_get hsure fun u u' hu => ?_
  refine (mirrors_attempt hsure (mirrors_statementOf hsure hinner)).bind fun r r' hr => ?_
  rw [hu.index]
  obtain ⟨stmt, stmt', rfl, rfl, hstmt⟩ | ⟨d, d', rfl, rfl, hd⟩ := attempted_cases hr
  · exact mirrors_withComments hsure hstmt
  · exact (mirrors_recoverStatement hsure _ _ hd hu.position).bind fun _ _ hstmt =>
      mirrors_withComments hsure hstmt

omit hinner in
theorem mirrors_closeBlock {start start' : Position} (depth : Nat) {statements statements' : List Stmt}
    (hstart : Alike c.placed unplaced start start')
    (hstatements : Alike c.placed Stmt.bareAll statements statements') :
    Mirrors c pre false Block.bare (closeBlock start depth statements)
      (closeBlock start' depth statements') := by
  have hspan : Mirrors c anywhere false Block.bare
      (do return ⟨statements, ← spanFrom start⟩) (do return ⟨statements', ← spanFrom start'⟩) := by
    refine (mirrors_spanFrom hstart).bind fun _ _ hspan => mirrors_pure ⟨fun hp => ?_, ?_⟩
    · rw [hstatements.same hp, hspan.same hp]
    · rw [Block.bare_mk, Block.bare_mk, hstatements.shown, hspan.shown]
  refine (mirrors_attempt hsure (mirrors_expect _ _)).bind fun r r' hr => ?_
  obtain ⟨_, _, rfl, rfl, -⟩ | ⟨d, d', rfl, rfl, hd⟩ := attempted_cases hr
  · exact hspan
  · exact (mirrors_record hd).bind fun _ _ _ => (mirrors_setDepth _).bind fun _ _ _ => hspan

theorem mirrors_blockBody {start start' : Position} (depth : Nat)
    (hstart : Alike c.placed unplaced start start') :
    Mirrors c pre false Block.bare (blockBody Grammar.standard inner start depth)
      (blockBody Grammar.standard inner' start' depth) := by
  refine (mirrors_takeComments hsure).bind fun leading leading' hleading => ?_
  refine (mirrors_manyWhile (.inl (by decide)) (mirrors_blockItemOf hsure hinner depth)).bind
    fun items items' hitems => mirrors_closeBlock hsure depth hstart ⟨fun hp => ?_, ?_⟩
  · rw [hleading.same hp, hitems.same hp]
  · rw [Stmt.bareAll_append, Stmt.bareAll_append, Stmt.bareAll_comments, Stmt.bareAll_comments,
      Stmt.bareAll_flatten, Stmt.bareAll_flatten, hitems.shown]

theorem mirrors_blockOf :
    Mirrors c pre false Block.bare (blockOf Grammar.standard inner)
      (blockOf Grammar.standard inner') := by
  refine (mirrors_expect _ _).bind fun brace brace' hbrace => mirrors_get hsure fun u u' hu => ?_
  rw [hu.depth]
  exact mirrors_blockBody hsure hinner u.depth hbrace.start_eq

end

include hsure

/-- A block is read in the same way, and the same is recorded. -/
theorem mirrors_block :
    Mirrors c pre false Block.bare (block Grammar.standard) (block Grammar.standard) :=
  (mirrors_nest fun _ _ hinner => mirrors_blockOf hsure hinner).weaken

/-! ### Definitions -/

/-- The names of a path. -/
theorem mirrors_path :
    Mirrors c pre false (List.map (Identifier.relocate unplaced))
      (manyWhile (· = .identifier) do
        let name ← identifier "use_statement"
        match ← kind with
        | .symbol .colonColon | .symbol .dot =>
          let _ ← advance
          return name
        | _ => return name)
      (manyWhile (· = .identifier) do
        let name ← identifier "use_statement"
        match ← kind with
        | .symbol .colonColon | .symbol .dot =>
          let _ ← advance
          return name
        | _ => return name) := by
  refine mirrors_manyWhile (.inr hsure) ((mirrors_identifier _).bind fun _ _ hname => ?_)
  refine mirrors_kind (by simp [followers]) fun k => ?_
  -- A separator after the name is taken with it; anything else ends the path.
  split
  · exact mirrors_advance.bind fun _ _ _ => mirrors_pure hname
  · exact mirrors_advance.bind fun _ _ _ => mirrors_pure hname
  · exact mirrors_pure hname

theorem mirrors_useStatement :
    Mirrors c pre false (UseStatement.relocate unplaced) useStatement useStatement := by
  refine (mirrors_expect _ _).bind fun _ _ hword => (mirrors_path hsure).bind fun _ _ hpath => ?_
  refine (mirrors_expect _ _).bind fun _ _ _ => (mirrors_spanFrom hword.start_eq).bind
    fun _ _ hspan => mirrors_pure ⟨fun hp => by rw [hpath.same hp, hspan.same hp], ?_⟩
  simp only [UseStatement.relocate, hpath.shown, hspan.shown]

omit hsure in
theorem mirrors_parameter :
    Mirrors c pre false (Parameter.relocate unplaced) (parameter Grammar.standard)
      (parameter Grammar.standard) := by
  refine (mirrors_identifier _).bind fun _ _ hname => (mirrors_expect _ _).bind fun _ _ _ => ?_
  refine mirrors_mutMarker?.bind fun _ _ hmut => mirrors_typeExpr.bind fun _ _ htype => ?_
  refine (mirrors_spanFrom (.position fun hp => by rw [hname.same hp])).bind fun _ _ hspan => ?_
  refine (mirrors_skip? (.inl (by decide))).bind fun _ _ _ => mirrors_pure ⟨fun hp => ?_, ?_⟩
  · rw [hname.same hp, hmut.same hp, htype.same hp, hspan.same hp]
  · simp only [Parameter.relocate, hname.shown, hmut.shown, htype.shown, hspan.shown]

omit hsure in
theorem mirrors_parameterList :
    Mirrors c pre false (List.map (Parameter.relocate unplaced)) (parameterList Grammar.standard)
      (parameterList Grammar.standard) := by
  refine (mirrors_expect _ _).bind fun _ _ _ => ?_
  refine (mirrors_manyWhile (.inl (by decide)) mirrors_parameter).bind fun _ _ hparameters => ?_
  exact (mirrors_expect _ _).bind fun _ _ _ => mirrors_pure hparameters

omit hsure in
theorem mirrors_returnType? :
    Mirrors c pre false (Option.map (TypeExpr.relocate unplaced)) (returnType? Grammar.standard)
      (returnType? Grammar.standard) := by
  refine (mirrors_skip? (.inl (by decide))).bind fun found found' hfound => ?_
  obtain rfl : found = found' := hfound.shown
  cases found with
  | true => exact mirrors_typeExpr.map fun _ _ h => h.map some (congrArg some)
  | false => exact mirrors_pure (.refl _ _)

theorem mirrors_function :
    Mirrors c pre false FunctionDef.bare (function Grammar.standard)
      (function Grammar.standard) := by
  refine (mirrors_expect _ _).bind fun _ _ hword => (mirrors_identifier _).bind fun _ _ hname => ?_
  refine mirrors_genericClause?.bind fun _ _ hgeneric => ?_
  refine mirrors_parameterList.bind fun _ _ hparameters => ?_
  refine mirrors_returnType?.bind fun _ _ hreturn => (mirrors_block hsure).bind fun _ _ hbody => ?_
  refine (mirrors_spanFrom hword.start_eq).bind fun _ _ hspan => mirrors_pure ⟨fun hp => ?_, ?_⟩
  · rw [hname.same hp, hgeneric.same hp, hparameters.same hp, hreturn.same hp, hbody.same hp,
      hspan.same hp]
  · rw [FunctionDef.bare_mk, FunctionDef.bare_mk, hname.shown, hgeneric.shown, hparameters.shown,
      hreturn.shown, hbody.shown, hspan.shown]

omit hsure in
theorem mirrors_externalFunction :
    Mirrors c pre false (ExternalFunction.relocate unplaced) (externalFunction Grammar.standard)
      (externalFunction Grammar.standard) := by
  refine (mirrors_expect _ _).bind fun _ _ hword => (mirrors_expect _ _).bind fun _ _ _ => ?_
  refine (mirrors_identifier _).bind fun _ _ hname => ?_
  refine mirrors_parameterList.bind fun _ _ hparameters => ?_
  refine mirrors_returnType?.bind fun _ _ hreturn => (mirrors_expect _ _).bind fun _ _ _ => ?_
  refine (mirrors_spanFrom hword.start_eq).bind fun _ _ hspan => mirrors_pure ⟨fun hp => ?_, ?_⟩
  · rw [hname.same hp, hparameters.same hp, hreturn.same hp, hspan.same hp]
  · simp only [ExternalFunction.relocate, hname.shown, hparameters.shown, hreturn.shown,
      hspan.shown]

/-- Of the members of a struct all is shown but the comments. -/
theorem mirrors_membersWhile {m : α → β} {wanted : Kind → Bool} {member member' : Parser α}
    (hmember : Mirrors c anywhere false m member member') :
    Mirrors c pre false (fun members => members.1.map m) (membersWhile wanted member)
      (membersWhile wanted member') := by
  have hitem : Mirrors c c.Started false (fun item : α × List Comment => m item.1)
      (do let a ← member; return (a, ← takeComments))
      (do let a ← member'; return (a, ← takeComments)) :=
    hmember.weaken.bind fun _ _ h => (mirrors_takeComments hsure).bind fun _ _ hcomments =>
      mirrors_pure ⟨fun hp => by rw [h.same hp, hcomments.same hp], h.shown⟩
  refine (mirrors_takeComments hsure).bind fun leading leading' hleading => ?_
  refine (mirrors_manyWhile (.inr hsure) hitem).bind fun members members' hmembers => ?_
  refine mirrors_pure ⟨fun hp => by rw [hleading.same hp, hmembers.same hp], ?_⟩
  simpa [Function.comp_def] using hmembers.shown

theorem mirrors_structMembers :
    Mirrors c pre false
      (fun members => (members.1.map (Parameter.relocate unplaced), members.2.1.map (·.bare)))
      (structMembers Grammar.standard) (structMembers Grammar.standard) := by
  refine (mirrors_membersWhile hsure mirrors_parameter).bind fun _ _ hfields => ?_
  refine (mirrors_membersWhile hsure (mirrors_function hsure)).bind fun _ _ hmethods => ?_
  refine mirrors_pure ⟨fun hp => by rw [hfields.same hp, hmethods.same hp], ?_⟩
  exact Prod.ext hfields.shown hmethods.shown

theorem mirrors_closeStruct {start start' : Position} {name name' : Identifier}
    {generic generic' : Option TypeExpr}
    {members members' : List Parameter × List FunctionDef × List Comment}
    (hstart : Alike c.placed unplaced start start')
    (hname : Alike c.placed (Identifier.relocate unplaced) name name')
    (hgeneric : Alike c.placed (Option.map (TypeExpr.relocate unplaced)) generic generic')
    (hmembers : Alike c.placed
      (fun members => (members.1.map (Parameter.relocate unplaced), members.2.1.map (·.bare)))
      members members') :
    Mirrors c pre false StructDef.bare (closeStruct start name generic members)
      (closeStruct start' name' generic' members') := by
  refine mirrors_kind_sure hsure fun k => ?_
  split
  · refine mirrors_advance.bind fun _ _ _ => (mirrors_spanFrom hstart).bind
      fun _ _ hspan => mirrors_pure ⟨fun hp => ?_, ?_⟩
    · rw [hname.same hp, hgeneric.same hp, hmembers.same hp, hspan.same hp]
    · obtain ⟨hfields, hmethods⟩ := Prod.mk.inj hmembers.shown
      rw [StructDef.bare_mk, StructDef.bare_mk, hname.shown, hgeneric.shown, hfields, hmethods,
        hspan.shown]
  · exact mirrors_unexpected _ _

theorem mirrors_structDef :
    Mirrors c pre false StructDef.bare (structDef Grammar.standard)
      (structDef Grammar.standard) := by
  rw [structDef_eq]
  refine (mirrors_expect _ _).bind fun _ _ hword => (mirrors_identifier _).bind fun _ _ hname => ?_
  refine mirrors_genericClause?.bind fun _ _ hgeneric => (mirrors_expect _ _).bind fun _ _ _ => ?_
  refine (mirrors_structMembers hsure).bind fun _ _ hmembers => ?_
  exact mirrors_closeStruct hsure hword.start_eq hname hgeneric hmembers

theorem mirrors_definition :
    Mirrors c pre false Definition.bare (definition Grammar.standard)
      (definition Grammar.standard) := by
  refine mirrors_kind_sure hsure fun k => ?_
  split
  · exact mirrors_unexpected _ _
  · exact (mirrors_useStatement hsure).bind fun _ _ h =>
      mirrors_pure (h.map Definition.use (congrArg Definition.use))
  · exact (mirrors_function hsure).bind fun _ _ h =>
      mirrors_pure (h.map Definition.function (congrArg Definition.function))
  · exact mirrors_externalFunction.bind fun _ _ h =>
      mirrors_pure (h.map Definition.external (congrArg Definition.external))
  · exact (mirrors_structDef hsure).bind fun _ _ h =>
      mirrors_pure (h.map Definition.struct (congrArg Definition.struct))

/-! ### Files -/

theorem mirrors_skipTokensToDefinition (start : Nat) :
    Mirrors c anywhere false id (skipTokensToDefinition start)
      (skipTokensToDefinition start) := by
  refine mirrors_nest fun more more' hmore => mirrors_get hsure fun u u' hu => ?_
  dsimp only
  rw [hu.kind, hu.depth, hu.index]
  split
  · exact mirrors_pure (.refl _ _)
  · split
    · exact mirrors_advance.bind fun _ _ _ => mirrors_pure (.refl _ _)
    · split
      · refine mirrors_advance.bind fun _ _ _ => mirrors_get hsure fun v v' hv => ?_
        rw [hv.depth]
        split
        · exact mirrors_pure (.refl _ _)
        · exact hmore
      · split
        · exact mirrors_pure (.refl _ _)
        · exact mirrors_advance.bind fun _ _ _ => hmore

theorem mirrors_skipToDefinition (start : Nat) :
    Mirrors c anywhere false id (skipToDefinition start) (skipToDefinition start) := by
  refine (mirrors_skipTokensToDefinition hsure start).bind fun _ _ _ => ?_
  refine mirrors_get hsure fun u u' hu => ?_
  rw [hu.index]
  split
  · exact mirrors_advance.bind fun _ _ _ => mirrors_pure (.refl _ _)
  · exact mirrors_pure (.refl _ _)

theorem mirrors_withFileComments {item item' : Definition}
    (h : Alike c.placed Definition.bare item item') :
    Mirrors c anywhere false Definition.bareAll (withFileComments item)
      (withFileComments item') := by
  refine (mirrors_takeComments hsure).bind fun comments comments' hcomments => mirrors_pure ?_
  refine ⟨fun hp => by rw [h.same hp, hcomments.same hp], ?_⟩
  rw [Definition.bareAll_cons, Definition.bareAll_cons, Definition.bareAll_comments,
    Definition.bareAll_comments, h.shown]

/-- An item of a file is read or skipped in the same way. -/
theorem mirrors_fileItem :
    Mirrors c pre false Definition.bareAll (fileItem Grammar.standard)
      (fileItem Grammar.standard) := by
  refine (mirrors_setDepth 0).bind fun _ _ _ => mirrors_get hsure fun u u' hu => ?_
  refine (mirrors_attempt hsure (mirrors_definition hsure)).bind fun r r' hr => ?_
  rw [hu.index]
  obtain ⟨item, item', rfl, rfl, hitem⟩ | ⟨d, d', rfl, rfl, hd⟩ := attempted_cases hr
  · exact mirrors_withFileComments hsure hitem
  · refine (mirrors_record hd).bind fun _ _ _ => ?_
    refine (mirrors_skipToDefinition hsure _).bind fun _ _ _ => ?_
    refine (mirrors_spanFrom hu.position).bind fun _ _ h => ?_
    exact mirrors_withFileComments hsure (h.map Definition.error (congrArg Definition.error))

omit hsure in
/-- A file is read to its end, so that the end has to be the same. -/
theorem mirrors_sourceFile (hexact : c.Exact) :
    Mirrors c pre false SourceFile.bare (sourceFile Grammar.standard)
      (sourceFile Grammar.standard) := by
  have hsure : c.Sure := .inr hexact
  refine (mirrors_takeComments hsure).bind fun leading leading' hleading => ?_
  refine (mirrors_manyWhile (.inl (by decide)) (mirrors_fileItem hsure)).bind fun items items' hitems => ?_
  refine (mirrors_current hsure).bind fun t u ht => mirrors_pure ⟨fun hp => ?_, ?_⟩
  · rw [hleading.same hp, hitems.same hp, ht.same hp]
  · simp only [SourceFile.bare, Definition.bareAll_append, Definition.bareAll_comments,
      Definition.bareAll_flatten, hitems.shown]
    rfl

end

end FrontEnd.Parser
