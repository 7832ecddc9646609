/-
Types, expressions and statements without blocks behind a front.

* `shifts_typeExpr`, `shifts_goal` — a type or an expression is read as the same tree at its
  new place, or fails in the same way;
* `shifts_namedStmt` and its companions — so is a statement.

A production looks at nothing but the kinds and the texts of tokens, and takes places only
from what it has read.
-/
import FrontEnd.Proofs.Grammar.Expressions
import FrontEnd.Proofs.Parser.Shifting
import FrontEnd.Stmt.Parser

namespace FrontEnd.Parser

variable {α β : Type} {φ : Front} {moved : Bool} {g : Grammar}

/-! ### Types -/

theorem shifts_identifier (production : String) :
    Shifts φ moved (Identifier.relocate φ.move) (identifier production) (identifier production) :=
  (shifts_expect production (by decide)).bind fun _ => shifts_pure rfl

theorem shifts_number (production : String) :
    Shifts φ moved (Number.relocate φ.move) (number production) (number production) := by
  refine (shifts_expect production (by decide)).bind fun token => ?_
  rw [Token.text_relocate]
  split
  · split
    · exact shifts_pure rfl
    · exact shifts_throw rfl
  · exact shifts_throw rfl

theorem shifts_primitiveType :
    Shifts φ true (TypeExpr.relocate φ.move) primitiveType primitiveType := by
  refine shifts_advance.bind fun token => ?_
  rw [Token.kind_relocate]
  split
  · exact shifts_pure rfl
  · exact shifts_throw rfl

theorem shifts_stringType : Shifts φ moved (TypeExpr.relocate φ.move) stringType stringType :=
  (shifts_expect _ (by decide)).bind fun _ => shifts_pure rfl

section

variable {inner inner' : Parser TypeExpr}
  (hinner : Shifts φ true (TypeExpr.relocate φ.move) inner inner')

include hinner

theorem shifts_genericClauseOf :
    Shifts φ moved (TypeExpr.relocate φ.move) (genericClauseOf inner) (genericClauseOf inner') := by
  refine (shifts_expect _ (by decide)).bind fun _ => hinner.bind fun argument => ?_
  rw [TypeExpr.isPlain_relocate]
  split
  · exact (shifts_expect _ (by decide)).bind fun _ => shifts_pure rfl
  · refine shifts_throw ?_
    simp [Diagnostic.relocate]

theorem shifts_namedTypeOf :
    Shifts φ moved (TypeExpr.relocate φ.move) (namedTypeOf inner) (namedTypeOf inner') := by
  refine (shifts_identifier _).bind fun name => shifts_kind fun k => ?_
  split
  · refine (shifts_genericClauseOf hinner).bind fun argument => ?_
    exact (shifts_spanFrom _).bind fun span => shifts_pure rfl
  · exact shifts_pure rfl

theorem shifts_pointerTypeOf :
    Shifts φ moved (TypeExpr.relocate φ.move) (pointerTypeOf inner) (pointerTypeOf inner') := by
  refine (shifts_expect _ (by decide)).bind fun star => hinner.bind fun pointee => ?_
  exact (shifts_spanFrom _).bind fun span => shifts_pure rfl

theorem shifts_referenceTypeOf :
    Shifts φ moved (TypeExpr.relocate φ.move) (referenceTypeOf inner)
      (referenceTypeOf inner') := by
  refine (shifts_expect _ (by decide)).bind fun mark => hinner.bind fun referent => ?_
  exact (shifts_spanFrom _).bind fun span => shifts_pure rfl

theorem shifts_doubleReferenceTypeOf :
    Shifts φ moved (TypeExpr.relocate φ.move) (doubleReferenceTypeOf inner)
      (doubleReferenceTypeOf inner') := by
  refine (shifts_expect _ (by decide)).bind fun marks => hinner.bind fun referent => ?_
  have hstart := Position.shift_next φ.shift marks.span.start '&'
  simp only [Token.span_relocate, Span.start_relocate, ← hstart]
  refine (shifts_spanFrom _).bind fun inside => ?_
  exact (shifts_spanFrom _).bind fun outside => shifts_pure rfl

theorem shifts_arrayTypeOf :
    Shifts φ moved (TypeExpr.relocate φ.move) (arrayTypeOf inner) (arrayTypeOf inner') := by
  refine (shifts_expect _ (by decide)).bind fun bracket => hinner.bind fun element => ?_
  refine (shifts_expect _ (by decide)).bind fun _ => (shifts_number _).bind fun length => ?_
  refine (shifts_expect _ (by decide)).bind fun _ => ?_
  exact (shifts_spanFrom _).bind fun span => shifts_pure rfl

theorem shifts_typeExprOf :
    Shifts φ true (TypeExpr.relocate φ.move) (typeExprOf g inner) (typeExprOf g inner') := by
  refine shifts_kind fun k => ?_
  split
  · exact shifts_unexpected _ _
  · exact shifts_pointerTypeOf hinner
  · exact shifts_referenceTypeOf hinner
  · exact shifts_doubleReferenceTypeOf hinner
  · exact shifts_arrayTypeOf hinner
  · exact shifts_stringType
  · exact shifts_namedTypeOf hinner
  · exact shifts_primitiveType

end

theorem shifts_typeExpr : Shifts φ true (TypeExpr.relocate φ.move) (typeExpr g) (typeExpr g) :=
  shifts_nest fun _ _ hinner => shifts_typeExprOf hinner

theorem shifts_genericClause :
    Shifts φ moved (TypeExpr.relocate φ.move) (genericClause g) (genericClause g) :=
  shifts_genericClauseOf shifts_typeExpr

theorem shifts_genericClause? :
    Shifts φ true (Option.map (TypeExpr.relocate φ.move)) (genericClause? g)
      (genericClause? g) := by
  refine shifts_kind fun k => ?_
  split
  · exact shifts_genericClause.bind fun _ => shifts_pure rfl
  · exact shifts_pure rfl

/-! ### Literals and lists -/

theorem placeSegments_shift (δ : Shift) (p : Position) (segments : List Literal.Segment) :
    placeSegments (p.shift δ) segments =
      (placeSegments p segments).map (·.relocate (Position.shift δ)) := by
  induction segments generalizing p with
  | nil => rfl
  | cons segment rest ih =>
    simp only [placeSegments, ← Position.shift_along, ih]
    rfl

theorem literalParts_relocate (δ : Shift) (token : Token) (quote : Char) :
    literalParts (token.relocate (Position.shift δ)) quote =
      (literalParts token quote).map (·.relocate (Position.shift δ)) := by
  unfold literalParts literalParts?
  cases hscan : Literal.scanString? quote token.text with
  | none => simp [Token.relocate, hscan]
  | some literal =>
    simp only [Token.relocate, hscan, Option.map_some, Option.getD_some]
    rw [← placeSegments_shift, Position.shift_along]
    rfl

/-- A literal is taken apart in the same way wherever it stands. -/
theorem shifts_takeApart (token : Token) (quote : Char) :
    Shifts φ true (List.map (·.relocate φ.move)) (takeApart token quote)
      (takeApart (token.relocate φ.move) quote) := by
  intro s s' h hne
  rw [takeApart_run, takeApart_run]
  rw [show φ.move = Position.shift φ.shift from rfl, literalParts_relocate]
  refine .ok ?_ (hne rfl)
  exact ⟨h.rest, h.consumed, h.depth, h.commentsFrom, h.ahead, h.eof, h.commentsIn, h.diagnostics⟩

theorem shifts_stringLiteral :
    Shifts φ moved (StringLiteral.relocate φ.move) stringLiteral stringLiteral :=
  (shifts_expect _ (by decide)).bind fun token =>
    (shifts_takeApart token '"').bind fun _ => shifts_pure rfl

theorem shifts_charLiteral :
    Shifts φ moved (CharLiteral.relocate φ.move) charLiteral charLiteral :=
  (shifts_expect _ (by decide)).bind fun token =>
    (shifts_takeApart token '\'').bind fun _ => shifts_pure rfl

theorem shifts_constant : Shifts φ moved (Expr.relocate φ.move) constant constant := by
  refine shifts_advanceThen (fun token heof => ?_) fun token => ?_
  · rw [Token.kind_relocate, heof]
    exact shifts_throw rfl
  · rw [Token.kind_relocate]
    split
    · exact shifts_pure rfl
    · exact shifts_pure rfl
    · exact shifts_pure rfl
    · exact shifts_throw rfl

theorem shifts_commaSeparated {m : α → β} {item : Parser α} {item' : Parser β}
    (hitem : Shifts φ true m item item') :
    Shifts φ true (List.map m) (commaSeparated item) (commaSeparated item') := by
  have hothers : Shifts φ true m (do let _ ← advance; item) (do let _ ← advance; item') :=
    shifts_advance.bind fun _ => hitem
  refine hitem.bind fun first => ?_
  exact (shifts_manyWhile hothers).bind fun others => shifts_pure rfl

theorem shifts_genericThen {m : α → β} {f : Bool → Parser α} {f' : Bool → Parser β}
    (mark : Symbol) (hf : ∀ found, Shifts φ moved m (f found) (f' found)) :
    Shifts φ moved m (genericThen g mark >>= f) (genericThen g mark >>= f') := by
  have hkind : Shifts φ true id (do return (← kind) == .symbol mark)
      (do return (← kind) == .symbol mark) := shifts_kind fun k => shifts_pure rfl
  have hclause : Shifts φ moved id
      (do let _ ← advance; let _ ← genericClause g; return (← kind) == .symbol mark)
      (do let _ ← advance; let _ ← genericClause g; return (← kind) == .symbol mark) :=
    shifts_advanceThen (fun _ _ => shifts_genericClause.bind fun _ => hkind)
      fun _ => shifts_genericClause.bind fun _ => hkind
  rw [genericThen, bind_assoc, bind_assoc]
  refine shifts_speculateThen hclause fun found => ?_
  rw [Option.map_id, pure_bind, pure_bind]
  exact hf _

/-! ### Expressions -/

section

-- The expressions inside an expression are shifted.
variable {inner inner' : Goal → Parser Expr}
  (hinner : ∀ goal, Shifts φ true (Expr.relocate φ.move) (inner goal) (inner' goal))

include hinner

theorem shifts_argumentsOf :
    Shifts φ moved (List.map (Expr.relocate φ.move)) (argumentsOf inner) (argumentsOf inner') := by
  refine (shifts_expect _ (by decide)).bind fun _ => shifts_kind fun k => ?_
  split
  · exact (shifts_expect _ (by decide)).bind fun _ => shifts_pure rfl
  · refine (shifts_commaSeparated (hinner _)).bind fun arguments => ?_
    exact (shifts_expect _ (by decide)).bind fun _ => shifts_pure rfl

theorem shifts_callOf (hasGeneric : Bool) :
    Shifts φ moved (Call.relocate φ.move) (callOf g inner hasGeneric)
      (callOf g inner' hasGeneric) := by
  -- What comes behind the name and the generic argument.
  have hcall : ∀ (function : Identifier) (generic : Option TypeExpr), Shifts φ true
      (Call.relocate φ.move)
      (do
        let arguments ← argumentsOf inner
        return ⟨function, generic, arguments, ← spanFrom function.span.start⟩)
      (do
        let arguments ← argumentsOf inner'
        return ⟨function.relocate φ.move, generic.map (·.relocate φ.move), arguments,
          ← spanFrom (φ.move function.span.start)⟩) := by
    intro function generic
    refine (shifts_argumentsOf hinner).bind fun arguments => ?_
    refine (shifts_spanFrom _).bind fun span => shifts_pure ?_
    simp [Call.relocate]
  refine (shifts_identifier _).bind fun function => ?_
  cases hasGeneric with
  | false => exact hcall function none
  | true =>
    have hsome : Shifts φ true (Option.map (TypeExpr.relocate φ.move)) (some <$> genericClause g)
        (some <$> genericClause g) := shifts_genericClause.map fun _ => rfl
    exact hsome.bind fun generic => hcall function generic

theorem shifts_fieldAccessOf :
    Shifts φ moved (Expr.relocate φ.move) (fieldAccessOf inner) (fieldAccessOf inner') := by
  refine (shifts_identifier _).bind fun object => (shifts_expect _ (by decide)).bind fun _ => ?_
  refine (hinner _).bind fun member => ?_
  exact (shifts_spanFrom _).bind fun span => shifts_pure rfl

theorem shifts_arrayAccessOf :
    Shifts φ moved (Expr.relocate φ.move) (arrayAccessOf inner) (arrayAccessOf inner') := by
  refine (shifts_identifier _).bind fun base => (shifts_expect _ (by decide)).bind fun _ => ?_
  refine (hinner _).bind fun index => (shifts_expect _ (by decide)).bind fun _ => ?_
  exact (shifts_spanFrom _).bind fun span => shifts_pure rfl

theorem shifts_namedOf :
    Shifts φ moved (Expr.relocate φ.move) (namedOf g inner) (namedOf g inner') := by
  refine shifts_peekKind fun k => ?_
  split
  · exact (shifts_callOf hinner false).bind fun _ => shifts_pure rfl
  · refine shifts_genericThen _ fun found => ?_
    cases found with
    | true => exact (shifts_callOf hinner true).bind fun _ => shifts_pure rfl
    | false => exact (shifts_identifier _).bind fun _ => shifts_pure rfl
  · exact shifts_fieldAccessOf hinner
  · exact shifts_arrayAccessOf hinner
  · exact (shifts_identifier _).bind fun _ => shifts_pure rfl

theorem shifts_rangeOf :
    Shifts φ true (Range.relocate φ.move) (rangeOf inner) (rangeOf inner') := by
  refine (hinner _).bind fun first => (shifts_expect _ (by decide)).bind fun _ => ?_
  refine (shifts_skip? _).bind fun inclusive => (hinner _).bind fun last => shifts_pure ?_
  simp only [Expr.span_relocate]
  rfl

omit hinner in
theorem shifts_constantList :
    Shifts φ true (ConstantList.relocate φ.move) constantList constantList := by
  have hvalue : Shifts φ true (Number.relocate φ.move)
      (do let value ← number "constant_list"; let _ ← skip? Symbol.pipe; return value)
      (do let value ← number "constant_list"; let _ ← skip? Symbol.pipe; return value) :=
    (shifts_number _).bind fun _ => (shifts_skip? _).bind fun _ => shifts_pure rfl
  refine shifts_position fun start => (shifts_number _).bind fun first => ?_
  refine (shifts_expect _ (by decide)).bind fun _ => (shifts_manyWhile hvalue).bind fun others => ?_
  exact (shifts_spanFrom _).bind fun span => shifts_pure rfl

theorem shifts_matchKeyOf :
    Shifts φ true (MatchKey.relocate φ.move) (matchKeyOf inner) (matchKeyOf inner') := by
  refine shifts_kind fun k => shifts_peekKind fun next => ?_
  split
  · exact (shifts_identifier _).bind fun _ => shifts_pure rfl
  · exact shifts_constantList.bind fun _ => shifts_pure rfl
  · exact (shifts_number _).bind fun _ => shifts_pure rfl
  · exact shifts_charLiteral.bind fun _ => shifts_pure rfl
  · exact (shifts_rangeOf hinner).bind fun _ => shifts_pure rfl

theorem shifts_matchArmOf :
    Shifts φ true (MatchArm.relocate φ.move) (matchArmOf inner) (matchArmOf inner') := by
  refine shifts_position fun start => (shifts_matchKeyOf hinner).bind fun key => ?_
  refine (shifts_expect _ (by decide)).bind fun _ => (hinner _).bind fun value => ?_
  refine (shifts_expect _ (by decide)).bind fun _ => ?_
  exact (shifts_spanFrom _).bind fun span => shifts_pure rfl

theorem shifts_matchOf :
    Shifts φ moved (Match.relocate φ.move) (matchOf inner) (matchOf inner') := by
  refine (shifts_expect _ (by decide)).bind fun word => (hinner _).bind fun value => ?_
  refine (shifts_expect _ (by decide)).bind fun _ => ?_
  refine (shifts_manyWhile (shifts_matchArmOf hinner)).bind fun arms => ?_
  refine (shifts_expect _ (by decide)).bind fun _ => ?_
  refine (shifts_spanFrom _).bind fun span => shifts_pure ?_
  simp [Match.relocate]

theorem shifts_primaryOf :
    Shifts φ moved (Expr.relocate φ.move) (primaryOf g inner) (primaryOf g inner') := by
  refine shifts_kind fun k => ?_
  split
  · exact shifts_unexpected _ _
  · exact (shifts_number _).bind fun _ => shifts_pure rfl
  · exact shifts_charLiteral.bind fun _ => shifts_pure rfl
  · exact shifts_stringLiteral.bind fun _ => shifts_pure rfl
  · exact shifts_constant
  · exact shifts_namedOf hinner
  · exact (shifts_matchOf hinner).bind fun _ => shifts_pure rfl

theorem shifts_binaryOf (left : Expr) (power : BindingPower) :
    Shifts φ true (Expr.relocate φ.move) (binaryOf inner left power)
      (binaryOf inner' (left.relocate φ.move) power) := by
  refine shifts_kind fun k => ?_
  split
  · exact shifts_unexpected _ _
  · refine shifts_advance.bind fun token => (hinner _).bind fun right => shifts_pure ?_
    simp only [Expr.span_relocate]
    rfl

omit hinner in
theorem shifts_castTarget :
    Shifts φ true (TypeExpr.relocate φ.move) (castTarget g) (castTarget g) := by
  intro s s' h hne
  rw [castTarget_run, castTarget_run, h.kind, h.peek, Token.kind_relocate]
  have htype : Shifts φ true (TypeExpr.relocate φ.move) (typeExpr g) (typeExpr g) :=
    shifts_typeExpr
  -- A failure goes back to the name, which is then the type.
  have hname : Shifts φ true (TypeExpr.relocate φ.move)
      (identifier "type" >>= fun name => pure (.named name))
      (identifier "type" >>= fun name => pure (.named name)) :=
    (shifts_identifier _).bind fun _ => shifts_pure rfl
  split
  · rcases htype.run h hne with
      ⟨target, s₁, s₁', hrun, hrun', h₁, hne₁⟩ | ⟨d, s₁, s₁', hrun, hrun', h₁, hne₁⟩
    · rw [hrun, hrun']
      exact .ok h₁ hne₁
    · rw [hrun, hrun']
      obtain ⟨cause, span⟩ := d
      cases cause with
      | malformedGeneric => exact .error h₁ hne₁
      | _ => exact hname _ _ (h.restore h₁) hne
  · exact htype s s' h hne

omit hinner in
theorem shifts_typecastOf (left : Expr) :
    Shifts φ moved (Expr.relocate φ.move) (typecastOf g left)
      (typecastOf g (left.relocate φ.move)) := by
  refine (shifts_expect _ (by decide)).bind fun _ => shifts_castTarget.bind fun target => ?_
  rw [Expr.span_relocate]
  exact (shifts_spanFrom _).bind fun span => shifts_pure rfl

theorem shifts_operatorsOf (power : BindingPower) (left : Expr) :
    Shifts φ true (Expr.relocate φ.move) (operatorsOf g inner power left)
      (operatorsOf g inner' power (left.relocate φ.move)) := by
  refine shifts_fix (Expr.relocate φ.move) (fun more more' hmore left => ?_) left
  refine shifts_kind fun k => ?_
  split
  · exact shifts_pure rfl
  · split
    · split
      · exact (shifts_binaryOf hinner left _).bind fun e => hmore e
      · exact (shifts_typecastOf left).bind fun e => hmore e
    · exact shifts_pure rfl

theorem shifts_goalOf (goal : Goal) :
    Shifts φ true (Expr.relocate φ.move) (goalOf g inner goal) (goalOf g inner' goal) := by
  cases goal with
  | primary => exact shifts_primaryOf hinner
  | above power => exact (shifts_primaryOf hinner).bind fun e => shifts_operatorsOf hinner power e

end

theorem shifts_goal (goal : Goal) :
    Shifts φ true (Expr.relocate φ.move) (Parser.goal g goal) (Parser.goal g goal) :=
  shifts_fix id (fun _ _ hinner goal => shifts_goalOf hinner goal) goal

theorem shifts_expression (power : BindingPower) :
    Shifts φ true (Expr.relocate φ.move) (expression g power) (expression g power) :=
  shifts_goal _

theorem shifts_primary : Shifts φ moved (Expr.relocate φ.move) (primary g) (primary g) := by
  intro s s' h hne
  unfold primary Parser.goal
  rw [fix_run, fix_run, h.length_rest]
  exact shifts_primaryOf (fun goal => shifts_guarded _ (shifts_goal goal)) s s' h hne

theorem shifts_fieldInit :
    Shifts φ moved (FieldInit.relocate φ.move) (fieldInit g) (fieldInit g) := by
  refine (shifts_identifier _).bind fun name => (shifts_expect _ (by decide)).bind fun _ => ?_
  refine (shifts_expression _).bind fun value => (shifts_skip? _).bind fun _ => ?_
  exact (shifts_spanFrom _).bind fun span => shifts_pure rfl

theorem shifts_structInit :
    Shifts φ moved (StructInit.relocate φ.move) (structInit g) (structInit g) := by
  refine (shifts_identifier _).bind fun name => shifts_genericClause?.bind fun generic => ?_
  refine (shifts_expect _ (by decide)).bind fun _ => ?_
  refine (shifts_manyWhile shifts_fieldInit).bind fun fields => ?_
  refine (shifts_expect _ (by decide)).bind fun _ => ?_
  refine (shifts_spanFrom _).bind fun span => shifts_pure ?_
  simp [StructInit.relocate]

theorem shifts_structInitAhead :
    Shifts φ true id (structInitAhead g) (structInitAhead g) := by
  refine shifts_kind fun k => shifts_peekKind fun next => ?_
  split
  · exact shifts_pure rfl
  · rw [← bind_pure (genericThen g .openCurly)]
    exact shifts_genericThen _ fun _ => shifts_pure rfl
  · exact shifts_pure rfl

theorem shifts_initializer :
    Shifts φ true (Expr.relocate φ.move) (initializer g) (initializer g) := by
  refine shifts_structInitAhead.bind fun ahead => ?_
  cases ahead with
  | true => exact shifts_structInit.bind fun _ => shifts_pure rfl
  | false => exact shifts_expression _

/-! ### Statements without blocks -/

theorem shifts_breakStmt : Shifts φ moved (Stmt.relocate φ.move) breakStmt breakStmt := by
  refine (shifts_expect _ (by decide)).bind fun word => ?_
  refine (shifts_expect _ (by decide)).bind fun _ => ?_
  exact (shifts_spanFrom _).bind fun span => shifts_pure rfl

theorem shifts_continueStmt :
    Shifts φ moved (Stmt.relocate φ.move) continueStmt continueStmt := by
  refine (shifts_expect _ (by decide)).bind fun word => ?_
  refine (shifts_expect _ (by decide)).bind fun _ => ?_
  exact (shifts_spanFrom _).bind fun span => shifts_pure rfl

theorem shifts_mutMarker? :
    Shifts φ true (Option.map (Span.relocate φ.move)) mutMarker? mutMarker? := by
  refine shifts_kind fun k => ?_
  split
  · exact shifts_advance.bind fun _ => shifts_pure rfl
  · exact shifts_pure rfl

theorem targetText_relocate (f : Position → Position) (e : Expr) :
    targetText (e.relocate f) = targetText e := by
  cases e with
  | call c => obtain ⟨_, _, _, _⟩ := c; rfl
  | matching m => obtain ⟨_, _, _⟩ := m; rfl
  | structInit i => obtain ⟨_, _, _, _⟩ := i; rfl
  | range r => obtain ⟨_, _, _, _⟩ := r; rfl
  | _ => rfl

theorem invalidTarget_relocate (f : Position → Position) (e : Expr) (production : String) :
    invalidTarget (e.relocate f) production = (invalidTarget e production).relocate f := by
  unfold invalidTarget
  rw [targetText_relocate, Expr.span_relocate]
  rfl

theorem shifts_assignmentTo (target value : Expr) (start : Position) :
    Shifts φ moved (Stmt.relocate φ.move) (assignmentTo target value start)
      (assignmentTo (target.relocate φ.move) (value.relocate φ.move) (φ.move start)) := by
  -- The form of the target decides, and its place does not change it.
  have hthrow : ∀ (e : Expr) (production : String), Shifts φ true (Stmt.relocate φ.move)
      (throw (invalidTarget e production))
      (throw (invalidTarget (e.relocate φ.move) production)) :=
    fun e production => shifts_throw (invalidTarget_relocate φ.move e production)
  cases target with
  | identifier name =>
    refine (shifts_expect _ (by decide)).bind fun _ => (shifts_spanFrom _).bind fun span => ?_
    exact shifts_pure rfl
  | fieldAccess object member _ =>
    refine (shifts_expect _ (by decide)).bind fun _ => (shifts_spanFrom _).bind fun span => ?_
    cases member with
    | identifier => exact shifts_pure rfl
    | arrayAccess => exact shifts_pure rfl
    | _ => exact hthrow _ _
  | arrayAccess base index _ =>
    refine (shifts_expect _ (by decide)).bind fun _ => (shifts_spanFrom _).bind fun span => ?_
    exact shifts_pure rfl
  | _ =>
    refine (shifts_expect _ (by decide)).bind fun _ => (shifts_spanFrom _).bind fun span => ?_
    exact hthrow _ _

theorem shifts_returnStmt :
    Shifts φ moved (Stmt.relocate φ.move) (returnStmt g) (returnStmt g) := by
  refine (shifts_expect _ (by decide)).bind fun word => (shifts_expression _).bind fun value => ?_
  refine (shifts_expect _ (by decide)).bind fun _ => ?_
  exact (shifts_spanFrom _).bind fun span => shifts_pure rfl

theorem shifts_declarationStmt :
    Shifts φ moved (Stmt.relocate φ.move) (declarationStmt g) (declarationStmt g) := by
  refine (shifts_expect _ (by decide)).bind fun word => shifts_mutMarker?.bind fun mutability => ?_
  refine (shifts_identifier _).bind fun name => (shifts_expect _ (by decide)).bind fun _ => ?_
  refine shifts_typeExpr.bind fun type => shifts_skipThen shifts_initializer fun value => ?_
  refine (shifts_expect _ (by decide)).bind fun _ => ?_
  exact (shifts_spanFrom _).bind fun span => shifts_pure rfl

theorem shifts_namedStmt : Shifts φ moved (Stmt.relocate φ.move) (namedStmt g) (namedStmt g) := by
  refine shifts_position fun start => shifts_primary.bind fun target => shifts_kind fun k => ?_
  split
  · refine shifts_advance.bind fun _ => (shifts_expression _).bind fun value => ?_
    exact shifts_assignmentTo target value start
  · refine shifts_advance.bind fun _ => shifts_primary.bind fun index => ?_
    refine (shifts_expect _ (by decide)).bind fun _ => (shifts_expect _ (by decide)).bind fun _ => ?_
    refine (shifts_expression _).bind fun value => (shifts_expect _ (by decide)).bind fun _ => ?_
    exact (shifts_spanFrom _).bind fun span => shifts_pure rfl
  · cases target with
    | call c =>
      refine (shifts_expect _ (by decide)).bind fun _ => ?_
      exact (shifts_spanFrom _).bind fun span => shifts_pure rfl
    | _ => exact shifts_unexpected _ _

theorem shifts_matchStmt : Shifts φ moved (Stmt.relocate φ.move) (matchStmt g) (matchStmt g) := by
  have hmatch : Shifts φ moved (Match.relocate φ.move) (matchExpr g) (matchExpr g) :=
    shifts_matchOf shifts_goal
  refine shifts_position fun start => hmatch.bind fun m => ?_
  refine (shifts_expect _ (by decide)).bind fun _ => ?_
  exact (shifts_spanFrom _).bind fun span => shifts_pure rfl

theorem shifts_iterable : Shifts φ true (Expr.relocate φ.move) (iterable g) (iterable g) := by
  have hrange : Shifts φ true (Range.relocate φ.move) (range g) (range g) :=
    shifts_rangeOf shifts_goal
  refine shifts_kind fun k => shifts_peekKind fun next => ?_
  split
  · exact (shifts_identifier _).bind fun _ => shifts_pure rfl
  · exact hrange.bind fun _ => shifts_pure rfl

end FrontEnd.Parser
