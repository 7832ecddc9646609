/-
Every tree has the shapes of the grammar.

The tree of a text, however broken it is, holds nothing that no production could make of any
tokens: struct initializations and ranges stand only where they are allowed, and what is indexed,
assigned to or given as an argument has one of the forms for these.

* `Expr.endsInName`, `primary_endsInName` — the longest name is read, so that no bracket follows
  an expression that ends in a name;
* `targets_namedStmt` — what is followed by a second index is therefore a target;
* `loose_block`, `loose_definition` — what is read is shaped, and what is skipped has no children;
* `parseSource_shaped` — so is the tree of every text;
* `generics_under_arrays` — a generic type in a generic argument stands in an array,
  `shapes_kept` — the shapes of all nodes.

The check on generic arguments looks at their outermost form only, and a generic type may hide in
an array (`generic_in_array`).
-/
import FrontEnd.Proofs.Expr.Lookahead
import FrontEnd.Proofs.Grammar.Origins
import FrontEnd.Proofs.Tree.Shape

namespace FrontEnd

/-! ### Targets -/

/-- The expression is a name, or its last member is one. -/
def Expr.endsInName : Expr → Bool
  | .identifier _ => true
  | .fieldAccess _ member _ => member.endsInName
  | _ => false

theorem Expr.endsInName_of_memberEnd (e : Expr) (h : e.toNode.memberEnd.kind = .identifier) :
    e.endsInName := by
  match e with
  | .identifier _ => rfl
  | .fieldAccess object member span =>
    rw [toNode, Node.memberEnd] at h
    exact endsInName_of_memberEnd member h
  | .call ⟨_, _, _, _⟩ | .matching ⟨_, _, _⟩ | .structInit ⟨_, _, _, _⟩ | .range ⟨_, _, _, _⟩
  | .bool true _ | .bool false _ | .number _ | .char _ | .string _ | .null _ | .binary ..
  | .typecast .. | .arrayAccess .. =>
    rw [Node.memberEnd_of_kind (by simp [toNode, Call.toNode, Match.toNode, StructInit.toNode,
      Range.toNode, Number.toNode, CharLiteral.toNode, StringLiteral.toNode])] at h
    simp [toNode, Call.toNode, Match.toNode, StructInit.toNode, Range.toNode, Number.toNode,
      CharLiteral.toNode, StringLiteral.toNode] at h

namespace Parser

variable {α β : Type} {s s' : State}

/-- What is read has a spelling. -/
theorem Meets.spelling {p : Parser α} {V : α → List Token → Prop} (h : Meets [] s p V) {a : α}
    (hrun : p s = .ok a s') : ∃ ts, V a ts := by
  obtain ⟨ts, -, -, ha⟩ := h.of_ok hrun
  exact ⟨ts, ha⟩

/-- What an expression is that starts with a name, and where it ends. -/
theorem primary_of_name {e : Expr} (hname : s.current.kind = .identifier)
    (hrun : primary Grammar.standard s = .ok e s') :
    (∃ c, e = .call c) ∨ (∃ base index span, e = .arrayAccess base index span) ∨
      (∃ object member span s₁, e = .fieldAccess object member span ∧
        s₁.rest.length < s.rest.length ∧ primary Grammar.standard s₁ = .ok member s') ∨
      ∃ name, e = .identifier name ∧ s'.current.kind ≠ .symbol .openBracket := by
  have hproper : s.current.kind ≠ .eof := by simp [hname]
  have hbody : primary Grammar.standard =
      primaryOf Grammar.standard (goal Grammar.standard) := Recursion.expression.eq_body .primary
  rw [hbody, primaryOf, kind_bind_run, hname] at hrun
  have hrun : named Grammar.standard s = .ok e s' := hrun
  by_cases hless : (s.peek 1).kind = .symbol .less
  · by_cases hangled : ∃ argument s₁, Angled s argument .openParen s₁
    · obtain ⟨argument, s₁, hangled⟩ := hangled
      rw [named_of_angled hname hangled] at hrun
      obtain ⟨arguments, s₂, -, hrun⟩ := bind_eq_ok hrun
      obtain ⟨rfl, -⟩ := EStateM.Result.ok.inj hrun
      exact .inl ⟨_, rfl⟩
    · rw [named_of_not_angled hname hless hangled] at hrun
      obtain ⟨rfl, rfl⟩ := EStateM.Result.ok.inj hrun
      exact .inr (.inr (.inr ⟨_, rfl, by rw [current_advance hproper, hless]; simp⟩))
  · have hnext : s.advance.current.kind = (s.peek 1).kind := by rw [current_advance hproper]
    unfold named namedOf at hrun
    rw [peekKind_bind_run] at hrun
    generalize (s.peek 1).kind = next at hless hrun hnext
    split at hrun
    · obtain ⟨c, s₁, -, hrun⟩ := bind_eq_ok hrun
      obtain ⟨rfl, -⟩ := EStateM.Result.ok.inj hrun
      exact .inl ⟨_, rfl⟩
    · contradiction
    · obtain ⟨object, s₁, hobject, hrun⟩ := bind_eq_ok hrun
      obtain ⟨dot, s₂, hdot, hrun⟩ := bind_eq_ok hrun
      obtain ⟨member, s₃, hmember, hrun⟩ := bind_eq_ok hrun
      obtain ⟨rfl, rfl⟩ := EStateM.Result.ok.inj hrun
      obtain ⟨us, hread⟩ := meets_identifier.reads hobject
      obtain ⟨hkind, -, rfl⟩ := expect_eq_ok hdot
      have hlt := length_rest_advance (s := s₁) (by rw [hkind]; simp)
      have hle : s₁.rest.length ≤ s.rest.length := by simp [hread.rest]
      exact .inr (.inr (.inl ⟨object, member, _, _, rfl, by omega, hmember⟩))
    · obtain ⟨base, s₁, -, hrun⟩ := bind_eq_ok hrun
      obtain ⟨o, s₂, -, hrun⟩ := bind_eq_ok hrun
      obtain ⟨index, s₃, -, hrun⟩ := bind_eq_ok hrun
      obtain ⟨c, s₄, -, hrun⟩ := bind_eq_ok hrun
      obtain ⟨rfl, -⟩ := EStateM.Result.ok.inj hrun
      exact .inr (.inl ⟨_, _, _, rfl⟩)
    · next hbracket =>
      rw [bind_of_ok (identifier_of_kind hname _)] at hrun
      obtain ⟨rfl, rfl⟩ := EStateM.Result.ok.inj hrun
      exact .inr (.inr (.inr ⟨_, rfl, hnext ▸ hbracket⟩))

/-- An expression that does not start with a name does not end in one. -/
theorem endsInName_of_primary {e : Expr} (hname : s.current.kind ≠ .identifier)
    (hrun : primary Grammar.standard s = .ok e s') : e.endsInName = false := by
  have hmeets : Meets [] s (primary Grammar.standard) Expr.PrimaryBy := meets_primary
  obtain ⟨ts, hread, -, hprimary⟩ := hmeets.of_ok hrun
  cases hprimary with
  | identifier name => exact absurd (by rw [current_of_rest hread.rest]; rfl) hname
  | fieldAccess object => exact absurd (by rw [current_of_rest hread.rest]; rfl) hname
  | _ => rfl

/-- The longest name is read: a bracket behind it starts its index. -/
theorem primary_endsInName {e : Expr} (hrun : primary Grammar.standard s = .ok e s')
    (hends : e.endsInName) : s'.current.kind ≠ .symbol .openBracket := by
  induction hn : s.rest.length using Nat.strong_induction_on generalizing s e with
  | _ n ih =>
    by_cases hname : s.current.kind = .identifier
    · rcases primary_of_name hname hrun with ⟨c, rfl⟩ | ⟨base, index, span, rfl⟩ |
        ⟨object, member, span, s₁, rfl, hlt, hmember⟩ | ⟨name, rfl, hnext⟩
      · cases hends
      · cases hends
      · exact ih _ (hn ▸ hlt) hmember hends rfl
      · exact hnext
    · rw [endsInName_of_primary hname hrun] at hends
      cases hends

/-- An expression that starts with a name and stands before a bracket is a target. -/
theorem isTarget_of_primary {e : Expr} (hname : s.current.kind = .identifier)
    (hrun : primary Grammar.standard s = .ok e s')
    (hnext : s'.current.kind = .symbol .openBracket) : e.toNode.IsTarget where
  kind := by
    rcases primary_of_name hname hrun with ⟨⟨_, _, _, _⟩, rfl⟩ | ⟨base, index, span, rfl⟩ |
      ⟨object, member, span, s₁, rfl, -, -⟩ | ⟨name, rfl, -⟩
    all_goals simp [Expr.toNode, Call.toNode, Identifier.toNode]
  indexed _ hend := primary_endsInName hrun (e.endsInName_of_memberEnd hend) hnext

theorem isTarget_identifier (name : Identifier) : (Expr.identifier name).toNode.IsTarget := by
  rw [Expr.toNode]
  exact ⟨by simp [Identifier.toNode], fun hkind => nomatch hkind⟩

/-- What a parser gives satisfies `P`. -/
def Gives (p : Parser α) (P : α → Prop) : Prop := ∀ s a s', p s = .ok a s' → P a

theorem Gives.bind {p : Parser α} {f : α → Parser β} {P : β → Prop} (h : ∀ a, Gives (f a) P) :
    Gives (p >>= f) P := by
  intro s b s' hrun
  obtain ⟨a, s₁, -, hrun⟩ := bind_eq_ok hrun
  exact h a s₁ b s' hrun

theorem Gives.pure {P : α → Prop} {a : α} (h : P a) : Gives (Pure.pure a) P := by
  intro s b s' hrun
  rw [← (EStateM.Result.ok.inj hrun).1]
  exact h

theorem gives_throw {P : α → Prop} {d : Diagnostic} : Gives (throw d : Parser α) P :=
  fun _ _ _ hrun => nomatch hrun

/-! Of the statements without blocks, only those that start with a name assign elements. -/

section

variable {stmt : Stmt}

theorem targets_returnStmt : returnStmt Grammar.standard s = .ok stmt s' → stmt.Targets :=
  Gives.bind (fun _ => .bind fun _ => .bind fun _ => .bind fun _ => .pure trivial) _ _ _

theorem targets_declarationStmt :
    declarationStmt Grammar.standard s = .ok stmt s' → stmt.Targets := by
  refine Gives.bind (fun _ => .bind fun _ => .bind fun _ => .bind fun _ => .bind fun _ =>
    .bind fun found => ?_) _ _ _
  cases found with
  | false | true => exact .bind fun _ => .bind fun _ => .bind fun _ => .pure trivial

theorem targets_breakStmt : breakStmt s = .ok stmt s' → stmt.Targets :=
  Gives.bind (fun _ => .bind fun _ => .bind fun _ => .pure trivial) _ _ _

theorem targets_continueStmt : continueStmt s = .ok stmt s' → stmt.Targets :=
  Gives.bind (fun _ => .bind fun _ => .bind fun _ => .pure trivial) _ _ _

theorem targets_matchStmt : matchStmt Grammar.standard s = .ok stmt s' → stmt.Targets :=
  Gives.bind (fun _ => .bind fun _ => .bind fun _ => .bind fun _ => .pure trivial) _ _ _

end

theorem targets_assignmentTo (target value : Expr) (start : Position) :
    Gives (assignmentTo target value start) Stmt.Targets := by
  refine .bind fun semi => .bind fun span => ?_
  cases target with
  | identifier name => exact .pure trivial
  | fieldAccess object member span =>
    cases member with
    | identifier | arrayAccess => exact .pure trivial
    | _ => exact gives_throw
  | arrayAccess base index span => exact .pure (isTarget_identifier base)
  | _ => exact gives_throw

/-- A statement that starts with a name assigns elements of targets only. -/
theorem targets_namedStmt {stmt : Stmt} (hname : s.current.kind = .identifier)
    (hrun : namedStmt Grammar.standard s = .ok stmt s') : stmt.Targets := by
  obtain ⟨start, s₀, hstart, hrun⟩ := bind_eq_ok hrun
  obtain ⟨-, rfl⟩ := EStateM.Result.ok.inj hstart
  obtain ⟨target, s₁, htarget, hrun⟩ := bind_eq_ok hrun
  have hbracket := isTarget_of_primary hname htarget
  rw [kind_bind_run] at hrun
  generalize s₁.current.kind = next at hbracket hrun
  split at hrun
  · obtain ⟨eq, s₂, -, hrun⟩ := bind_eq_ok hrun
    obtain ⟨value, s₃, -, hrun⟩ := bind_eq_ok hrun
    exact targets_assignmentTo _ _ _ _ _ _ hrun
  · obtain ⟨o, s₂, -, hrun⟩ := bind_eq_ok hrun
    obtain ⟨index, s₃, -, hrun⟩ := bind_eq_ok hrun
    obtain ⟨c, s₄, -, hrun⟩ := bind_eq_ok hrun
    obtain ⟨eq, s₅, -, hrun⟩ := bind_eq_ok hrun
    obtain ⟨value, s₆, -, hrun⟩ := bind_eq_ok hrun
    obtain ⟨semi, s₇, -, hrun⟩ := bind_eq_ok hrun
    obtain ⟨rfl, -⟩ := EStateM.Result.ok.inj hrun
    exact hbracket rfl
  · split at hrun
    · obtain ⟨semi, s₂, -, hrun⟩ := bind_eq_ok hrun
      obtain ⟨rfl, -⟩ := EStateM.Result.ok.inj hrun
      trivial
    · cases hrun

/-! ### Statements -/

theorem loose_comment (c : Comment) : c.toNode.Loose := .leaf rfl rfl trivial

theorem loose_errorNode (span : Span) : (errorNode span).Loose := .leaf rfl rfl trivial

theorem loose_flat {p : Parser Stmt} {form : StatementForm} {stmt : Stmt}
    (h : Meets [] s p Stmt.SpelledBy)
    (hform : Grammar.standard.statement? s.current.kind = some form)
    (hflat : form ≠ .conditional ∧ form ≠ .whileLoop ∧ form ≠ .forLoop)
    (hrun : p s = .ok stmt s') (htargets : stmt.Targets) : stmt.toNode.Loose := by
  obtain ⟨ts, hread, -, hspelled⟩ := h.of_ok hrun
  exact hspelled.loose (holdsBlock_eq_false hread.toPasses hspelled hform hflat) htargets

section

-- The blocks inside a statement are shaped.
variable {inner : Parser Block} {stmt : Stmt} (hinner : Gives inner fun b => b.toNode.Loose)

include hinner

theorem loose_ifStmtOf (hrun : ifStmtOf Grammar.standard inner s = .ok stmt s') :
    stmt.toNode.Loose := by
  obtain ⟨word, s₁, -, hrun⟩ := bind_eq_ok hrun
  obtain ⟨condition, s₂, hcondition, hrun⟩ := bind_eq_ok hrun
  obtain ⟨ifBlock, s₃, hif, hrun⟩ := bind_eq_ok hrun
  obtain ⟨found, s₄, -, hrun⟩ := bind_eq_ok hrun
  obtain ⟨ts, hcondition⟩ := meets_expression.spelling hcondition
  have hif := (hinner _ _ _ hif).labelled .ifBlock
  cases found with
  | false =>
    obtain ⟨rfl, -⟩ := EStateM.Result.ok.inj hrun
    rw [Stmt.toNode]
    exact .node rfl rfl (by simp [hcondition.loose, hif]) trivial
  | true =>
    obtain ⟨_, s₅, hsome, hrun⟩ := bind_eq_ok hrun
    rw [map_run] at hsome
    obtain ⟨elseBlock, s₆, helse, hpure⟩ := bind_eq_ok hsome
    obtain ⟨rfl, -⟩ := EStateM.Result.ok.inj hpure
    obtain ⟨rfl, -⟩ := EStateM.Result.ok.inj hrun
    have helse := (hinner _ _ _ helse).labelled .elseBlock
    rw [Stmt.toNode]
    exact .node rfl rfl (by simp [hcondition.loose, hif, helse]) trivial

theorem loose_whileStmtOf (hrun : whileStmtOf Grammar.standard inner s = .ok stmt s') :
    stmt.toNode.Loose := by
  obtain ⟨word, s₁, -, hrun⟩ := bind_eq_ok hrun
  obtain ⟨condition, s₂, hcondition, hrun⟩ := bind_eq_ok hrun
  obtain ⟨body, s₃, hbody, hrun⟩ := bind_eq_ok hrun
  obtain ⟨rfl, -⟩ := EStateM.Result.ok.inj hrun
  obtain ⟨ts, hcondition⟩ := meets_expression.spelling hcondition
  rw [Stmt.toNode]
  exact .node rfl rfl (by simp [hcondition.loose, hinner _ _ _ hbody]) trivial

/-- A loop is the only statement with a range among its parts. -/
theorem loose_forStmtOf (hrun : forStmtOf Grammar.standard inner s = .ok stmt s') :
    stmt.toNode.Loose := by
  obtain ⟨word, s₁, -, hrun⟩ := bind_eq_ok hrun
  obtain ⟨hasLet, s₂, -, hrun⟩ := bind_eq_ok hrun
  obtain ⟨binding, s₃, -, hrun⟩ := bind_eq_ok hrun
  obtain ⟨inside, s₄, -, hrun⟩ := bind_eq_ok hrun
  obtain ⟨values, s₅, hvalues, hrun⟩ := bind_eq_ok hrun
  obtain ⟨body, s₆, hbody, hrun⟩ := bind_eq_ok hrun
  obtain ⟨rfl, -⟩ := EStateM.Result.ok.inj hrun
  obtain ⟨ts, hvalues⟩ := meets_iterable.spelling hvalues
  obtain ⟨hshaped, hform⟩ := hvalues.shaped
  have hbody := hinner _ _ _ hbody
  rw [Stmt.toNode]
  refine ⟨.mk ⟨?_, ?_, by simp [NodeKind.takesArgument], hform⟩ ?_, rfl⟩
  · intro c hc hkind
    simp only [List.mem_cons, List.not_mem_nil, or_false] at hc
    rcases hc with rfl | rfl | rfl
    · exact absurd hkind binding.loose.kind_ne.1
    · rw [hkind] at hform
      simp at hform
    · exact absurd hkind hbody.kind_ne.1
  · rintro (_ | _ | _ | i) c hc hkind
    · obtain rfl := Option.some.inj hc
      exact absurd hkind binding.loose.kind_ne.2
    · exact .inl ⟨rfl, rfl⟩
    · obtain rfl := Option.some.inj hc
      exact absurd hkind hbody.kind_ne.2
    · simp at hc
  · simp [binding.loose.shaped, hshaped, hbody.shaped]

theorem loose_statementOf (hrun : statementOf Grammar.standard inner s = .ok stmt s') :
    stmt.toNode.Loose := by
  rw [statementOf, kind_bind_run] at hrun
  cases hform : Grammar.standard.statement? s.current.kind with
  | none =>
    simp only [hform] at hrun
    cases hrun
  | some form =>
    simp only [hform] at hrun
    cases form with
    | returning => exact loose_flat meets_returnStmt hform (by decide) hrun (targets_returnStmt hrun)
    | declaration =>
      exact loose_flat meets_declarationStmt hform (by decide) hrun (targets_declarationStmt hrun)
    | conditional => exact loose_ifStmtOf hinner hrun
    | whileLoop => exact loose_whileStmtOf hinner hrun
    | forLoop => exact loose_forStmtOf hinner hrun
    | breakLoop => exact loose_flat meets_breakStmt hform (by decide) hrun (targets_breakStmt hrun)
    | continueLoop =>
      exact loose_flat meets_continueStmt hform (by decide) hrun (targets_continueStmt hrun)
    | matching => exact loose_flat meets_matchStmt hform (by decide) hrun (targets_matchStmt hrun)
    | named =>
      have hname : s.current.kind = .identifier := by
        simp only [Grammar.standard] at hform
        split at hform <;> simp_all
      exact loose_flat meets_namedStmt hform (by decide) hrun (targets_namedStmt hname hrun)

theorem loose_blockItemOf {depth : Nat} {items : List Stmt}
    (hrun : blockItemOf Grammar.standard inner depth s = .ok items s') :
    ∀ item ∈ items, item.toNode.Loose := by
  have hcomments : ∀ s₁ : State, ∀ item ∈ s₁.comments.map Stmt.comment, item.toNode.Loose := by
    intro s₁ item hitem
    obtain ⟨c, -, rfl⟩ := List.mem_map.mp hitem
    rw [Stmt.toNode]
    exact loose_comment c
  cases hstmt : statementOf Grammar.standard inner s with
  | ok stmt s₁ =>
    rw [blockItemOf_of_ok hstmt, withComments_run] at hrun
    obtain ⟨rfl, -⟩ := EStateM.Result.ok.inj hrun
    exact List.forall_mem_cons.mpr ⟨loose_statementOf hinner hstmt, hcomments s₁⟩
  | error d s₁ =>
    obtain ⟨us, s₂, hrecover, -, -⟩ := recoverStatement_reads d depth s.index s.position s₁
    rw [blockItemOf_of_error hstmt, bind_of_ok hrecover, withComments_run] at hrun
    obtain ⟨rfl, -⟩ := EStateM.Result.ok.inj hrun
    refine List.forall_mem_cons.mpr ⟨?_, hcomments s₂⟩
    rw [Stmt.toNode]
    exact loose_errorNode _

theorem loose_blockOf {b : Block} (hrun : blockOf Grammar.standard inner s = .ok b s') :
    b.toNode.Loose := by
  obtain ⟨-, items, s₁, hitems, hclose⟩ := blockOf_eq_ok hrun
  have hloose : ∀ item ∈ items.flatten, item.toNode.Loose := by
    refine manyWhile_induction (motive := fun _ items _ =>
      ∀ item ∈ items.flatten, item.toNode.Loose) (fun _ => by simp) ?_ hitems
    intro s items s₁ more s' _ hitem hmore
    rw [List.flatten_cons, List.forall_mem_append]
    exact ⟨loose_blockItemOf hinner hitem, hmore⟩
  refine .node (by rw [Block.kind_toNode]; rfl) (by rw [Block.kind_toNode]; rfl) ?_ ?_
  · intro c hc
    rw [Block.children_toNode, (closeBlock_cases hclose).1, List.map_append,
      List.mem_append] at hc
    rcases hc with hc | hc
    · rw [Stmt.map_toNode_comment] at hc
      obtain ⟨comment, -, rfl⟩ := List.mem_map.mp hc
      exact loose_comment comment
    · obtain ⟨item, hitem, rfl⟩ := List.mem_map.mp hc
      exact hloose item hitem
  · rw [Node.Fits, Block.kind_toNode]
    trivial

end

/-- A block is shaped, however broken its statements are. -/
theorem loose_block : Gives (block Grammar.standard) fun b => b.toNode.Loose := by
  intro s b s' hrun
  induction hn : s.rest.length using Nat.strong_induction_on generalizing s b s' with
  | _ n ih =>
    rw [block, nest_run] at hrun
    refine loose_blockOf (fun s₁ c s₂ hinner => ?_) hrun
    obtain ⟨hlt, hinner⟩ := guarded_eq_ok hinner
    exact ih _ (hn ▸ hlt) _ _ _ hinner rfl

/-! ### Definitions -/

theorem loose_function : Gives (function Grammar.standard) fun f => f.toNode.Loose := by
  intro s f s' hrun
  obtain ⟨word, s₁, -, hrun⟩ := bind_eq_ok hrun
  obtain ⟨name, s₂, -, hrun⟩ := bind_eq_ok hrun
  obtain ⟨generic, s₃, hgeneric, hrun⟩ := bind_eq_ok hrun
  obtain ⟨parameters, s₄, hparameters, hrun⟩ := bind_eq_ok hrun
  obtain ⟨returnType, s₅, hreturn, hrun⟩ := bind_eq_ok hrun
  obtain ⟨body, s₆, hbody, hrun⟩ := bind_eq_ok hrun
  obtain ⟨rfl, -⟩ := EStateM.Result.ok.inj hrun
  obtain ⟨gs, hgeneric⟩ := meets_genericClause?.spelling hgeneric
  obtain ⟨ps, hparameters⟩ := meets_parameterList.spelling hparameters
  obtain ⟨rs, hreturn⟩ := meets_returnType?.spelling hreturn
  have hbody := (loose_block _ _ _ hbody).labelled .funcBlock
  refine ⟨shaped_of_generic name hgeneric (parameters.map (·.toNode) ++
    returnTypeNodes returnType ++ [body.toNode.labelled .funcBlock]) ?_ ?_ ?_ trivial, rfl⟩
  · simp only [List.mem_append, List.mem_singleton]
    rintro c ((hc | hc) | rfl)
    · exact hparameters.loose c hc
    · exact hreturn.loose c hc
    · exact hbody
  · simp only [List.mem_append, List.mem_singleton, List.mem_map, returnTypeNodes]
    rintro c ((⟨p, -, rfl⟩ | ⟨type, -, rfl⟩) | rfl) hlabel
    · rfl
    · cases hlabel
    · cases hlabel
  · simp only [FunctionDef.toNode, List.mem_cons, List.mem_append]
    tauto

/-- The members of a struct are shaped, whatever stands between them. -/
theorem loose_noted {wanted : Kind → Bool} {member : Parser α} {P : α → Prop}
    {items : List (α × List Comment)} (hmember : Gives member P)
    (hrun : manyWhile wanted (noted member) s = .ok items s') : ∀ m ∈ items.map (·.1), P m := by
  refine manyWhile_induction (motive := fun _ items _ => ∀ m ∈ items.map (·.1), P m)
    (fun _ => by simp) ?_ hrun
  intro s item s₁ more s' _ hitem hmore
  obtain ⟨m, s₂, hm, hitem⟩ := bind_eq_ok hitem
  obtain ⟨comments, s₃, -, hitem⟩ := bind_eq_ok hitem
  obtain ⟨rfl, -⟩ := EStateM.Result.ok.inj hitem
  rw [List.map_cons, List.forall_mem_cons]
  exact ⟨hmember _ _ _ hm, hmore⟩

theorem loose_structDef : Gives (structDef Grammar.standard) fun d => d.toNode.Loose := by
  intro s d s' hrun
  rw [structDef_eq] at hrun
  obtain ⟨word, s₁, -, hrun⟩ := bind_eq_ok hrun
  obtain ⟨name, s₂, -, hrun⟩ := bind_eq_ok hrun
  obtain ⟨generic, s₃, hgeneric, hrun⟩ := bind_eq_ok hrun
  obtain ⟨o, s₄, -, hrun⟩ := bind_eq_ok hrun
  obtain ⟨members, s₅, hmembers, hrun⟩ := bind_eq_ok hrun
  obtain ⟨-, rfl, -⟩ := closeStruct_eq_ok hrun
  obtain ⟨gs, hgeneric⟩ := meets_genericClause?.spelling hgeneric
  obtain ⟨fields, methods, s₆, hfields, hmethods, rfl⟩ := structMembers_eq_ok hmembers
  have hfields := loose_noted (P := fun p => p.toNode.Loose) (fun s p s' hp => by
    obtain ⟨ts, hp⟩ := meets_parameter.spelling hp
    exact hp.loose) hfields
  have hmethods := loose_noted loose_function hmethods
  refine ⟨shaped_of_generic name hgeneric (fields.map (·.1.toNode) ++
    methods.map (·.1.toNode) ++ (s₄.comments ++ fields.flatMap (·.2) ++
      (s₆.comments ++ methods.flatMap (·.2))).map (·.toNode)) ?_ ?_ ?_ trivial, rfl⟩
  · simp only [List.mem_append, List.mem_map]
    rintro c ((⟨p, hp, rfl⟩ | ⟨f, hf, rfl⟩) | ⟨comment, -, rfl⟩)
    · exact hfields p.1 (List.mem_map_of_mem hp)
    · exact hmethods f.1 (List.mem_map_of_mem hf)
    · exact loose_comment comment
  · simp only [List.mem_append, List.mem_map]
    rintro c ((⟨p, -, rfl⟩ | ⟨f, -, rfl⟩) | ⟨comment, -, rfl⟩) hlabel
    · rfl
    · rfl
    · rfl
  · simp only [StructDef.toNode, List.mem_cons, List.mem_append, List.mem_mergeSort,
      List.map_map]
    tauto

theorem loose_definition : Gives (definition Grammar.standard) fun d => d.toNode.Loose := by
  intro s d s' hrun
  rw [definition, kind_bind_run] at hrun
  cases hform : Grammar.standard.definition? s.current.kind with
  | none =>
    simp only [hform] at hrun
    cases hrun
  | some form =>
    simp only [hform] at hrun
    cases form with
    | use =>
      obtain ⟨u, s₁, -, hrun⟩ := bind_eq_ok hrun
      obtain ⟨rfl, -⟩ := EStateM.Result.ok.inj hrun
      exact u.loose
    | function =>
      obtain ⟨f, s₁, hf, hrun⟩ := bind_eq_ok hrun
      obtain ⟨rfl, -⟩ := EStateM.Result.ok.inj hrun
      exact loose_function _ _ _ hf
    | external =>
      obtain ⟨f, s₁, hf, hrun⟩ := bind_eq_ok hrun
      obtain ⟨rfl, -⟩ := EStateM.Result.ok.inj hrun
      obtain ⟨ts, hf⟩ := meets_externalFunction.spelling hf
      exact hf.loose
    | struct =>
      obtain ⟨d, s₁, hd, hrun⟩ := bind_eq_ok hrun
      obtain ⟨rfl, -⟩ := EStateM.Result.ok.inj hrun
      exact loose_structDef _ _ _ hd

/-! ### Files -/

theorem loose_fileItem {items : List Definition} (heof : s.current.kind ≠ .eof)
    (hrun : fileItem Grammar.standard s = .ok items s') : ∀ item ∈ items, item.toNode.Loose := by
  have hcomments : ∀ s₁ : State, ∀ item ∈ s₁.comments.map Definition.comment, item.toNode.Loose := by
    intro s₁ item hitem
    obtain ⟨c, -, rfl⟩ := List.mem_map.mp hitem
    exact loose_comment c
  cases hdef : definition Grammar.standard { s with depth := 0 } with
  | ok item s₁ =>
    rw [fileItem_of_ok hdef, withFileComments_run] at hrun
    obtain ⟨rfl, -⟩ := EStateM.Result.ok.inj hrun
    exact List.forall_mem_cons.mpr ⟨loose_definition _ _ _ hdef, hcomments s₁⟩
  | error d s₁ =>
    obtain ⟨ts, n, hcross, -⟩ := works_definition.of_error hdef
    obtain ⟨s₂, us, hrecover, -, -⟩ :=
      recoverDefinition_reads hcross.toWalks.of_depth.toPasses heof d
    rw [fileItem_of_error hdef, bind_of_ok hrecover, withFileComments_run] at hrun
    obtain ⟨rfl, -⟩ := EStateM.Result.ok.inj hrun
    exact List.forall_mem_cons.mpr ⟨loose_errorNode _, hcomments s₂⟩

end Parser

/-- Every node in the tree of every text is shaped. -/
theorem parseSource_shaped (source : String) :
    (parseSource source).file.toNode.Everywhere Node.Shaped := by
  obtain ⟨items, s, -, hitems, -⟩ := Parser.fileItems_total (startOf source).commented
  have hloose : ∀ item ∈ items.flatten, item.toNode.Loose := by
    refine Parser.manyWhile_induction (motive := fun _ items _ =>
      ∀ item ∈ items.flatten, item.toNode.Loose) (fun _ => by simp) ?_ hitems
    intro s items s₁ more s' heof hitem hmore
    rw [List.flatten_cons, List.forall_mem_append]
    exact ⟨Parser.loose_fileItem (of_decide_eq_true heof) hitem, hmore⟩
  rw [parseSource_eq (Parser.sourceFile_run hitems)]
  refine Node.everywhere_shaped (fun c hc => ?_) (fun h => nomatch h) trivial
  rw [SourceFile.toNode, List.map_append, List.mem_append] at hc
  rcases hc with hc | hc
  · obtain ⟨d, hd, rfl⟩ := List.mem_map.mp hc
    obtain ⟨comment, -, rfl⟩ := List.mem_map.mp hd
    exact Parser.loose_comment comment
  · obtain ⟨item, hitem, rfl⟩ := List.mem_map.mp hc
    exact hloose item hitem

/-- The node is a generic argument of the other one. -/
def Node.Argues (n c : Node) : Prop :=
  n.kind.takesArgument ∧ c ∈ n.children ∧ c.label = none ∧ c.kind.isType

/-- **Generics do not nest but in arrays.**  Of the generic types, functions, structs, calls and
struct initializations in the tree of every text, none has a generic argument that is a generic
type, a pointer or a reference: it is a primitive, `string` or a name, with nothing below it, or an
array.  A generic type that stands anywhere in the argument therefore stands in that array. -/
theorem generics_under_arrays (source : String) :
    ∀ n ∈ (parseSource source).file.toNode.nodes, ∀ c, n.Argues c →
      (c.kind = .arrayType ∨
        c.kind ∈ [.primitiveType, .stringType, .typeIdentifier] ∧ c.children = []) ∧
      ∀ m ∈ c.nodes, m.kind = .genericType → c.kind = .arrayType ∧ m ≠ c := by
  rintro n hn c ⟨htakes, hc, hlabel, htype⟩
  have hshaped := (parseSource_shaped source).of_mem_nodes hn
  have hargument := hshaped.argument htakes c hc hlabel htype
  refine ⟨hargument, fun m hm hgeneric => ?_⟩
  rcases hargument with harray | ⟨hleaf, hchildren⟩
  · refine ⟨harray, ?_⟩
    rintro rfl
    rw [hgeneric] at harray
    cases harray
  · -- Nothing stands below a leaf, and the leaf itself is no generic type.
    rw [Node.nodes_eq, hchildren, List.flatMap_nil, List.mem_singleton] at hm
    rw [← hm, hgeneric] at hleaf
    simp at hleaf

/-- In every place for a generic argument, an array of generic types. -/
def nestedText : String :=
  "struct s<[b<c>;3]> \x7b\x7d fn f<[b<c>;3]>(x: a<[b<c>;3]>) \x7b let y: d = s<[b<c>;3]> \x7b\x7d; " ++
  "f<[b<c>;3]>(); \x7d"

theorem generics_under_arrays_nestedText :
    ∃ n ∈ (parseSource nestedText).file.toNode.nodes, ∃ c, n.Argues c ∧ c.kind = .arrayType ∧
      ∃ m ∈ c.nodes, m.kind = .genericType ∧ m ≠ c := by
  obtain ⟨n, hn, htakes, c, hc, ⟨hlabel, htype⟩, m, hm, hgeneric⟩ :
      ∃ n ∈ (parseSource nestedText).file.toNode.nodes, n.kind.takesArgument ∧
        ∃ c ∈ n.children, (c.label = none ∧ c.kind.isType) ∧
          ∃ m ∈ c.nodes, m.kind = .genericType := by
    decide +kernel
  have hargues : n.Argues c := ⟨htakes, hc, hlabel, htype⟩
  obtain ⟨harray, hne⟩ := (generics_under_arrays nestedText n hn c hargues).2 m hm hgeneric
  exact ⟨n, hn, c, hargues, harray, m, hm, hgeneric, hne⟩

/-- In that text, which is read without diagnostics, constructs of all five kinds have a generic
type in their generic arguments. -/
theorem generic_in_array :
    (parseSource nestedText).diagnostics = [] ∧
      ∀ kind ∈ [NodeKind.genericType, .functionDefinition, .structDefinition, .callExpression,
          .structInitialization],
        ∃ n ∈ (parseSource nestedText).file.toNode.nodes, n.kind = kind ∧
          ∃ c ∈ n.children, (c.label = none ∧ c.kind.isType) ∧
            ∃ m ∈ c.nodes, m.kind = .genericType := by
  decide +kernel

/-- **The shape of every tree.**  However broken a text is, all nodes in its tree are shaped: what
is run over, indexed, assigned to, or given as an argument has one of the forms for its place, and
lists of constants are not empty.  A struct initialization or a range is never the whole tree, so
that each of them stands where one is allowed. -/
theorem shapes_kept (source : String) :
    ∀ n ∈ (parseSource source).file.toNode.nodes, n.Shaped ∧
      (n.kind.isBound → ∃ m ∈ (parseSource source).file.toNode.nodes, n ∈ m.children ∧
        (m.kind = .variableDeclaration ∨ m.kind = .forStatement ∨ m.kind = .matchArm)) := by
  intro n hn
  refine ⟨(parseSource_shaped source).of_mem_nodes hn, fun hbound => ?_⟩
  rcases (Node.mem_nodes_iff _).mp hn with rfl | ⟨m, hm, hchild⟩
  · cases hbound
  · have hshaped := (parseSource_shaped source).of_mem_nodes hm
    refine ⟨m, hm, hchild, ?_⟩
    have hkinds : n.kind = .structInitialization ∨ n.kind = .range := by
      unfold NodeKind.isBound at hbound
      split at hbound <;> simp_all
    rcases hkinds with hkind | hkind
    · exact .inl (hshaped.structInit n hchild hkind).1
    · obtain ⟨i, hi⟩ := List.mem_iff_getElem?.mp hchild
      exact .inr ((hshaped.range i n hi hkind).imp And.left And.left)

/-- A text with all the constructs whose parts have a form of their own. -/
def shapedText : String :=
  "fn f() \x7b let p: q = s<i32> \x7b a: 1 \x7d; for i in 0..n[i] \x7b p.q[0][i] = 1; p.q[r] = 2; \x7d " ++
  "match p.q \x7b 1 | 2 => 3, 4 .. 5 => 6, \x7d; \x7d"

theorem shapes_kept_shapedText :
    (∃ n ∈ (parseSource shapedText).file.toNode.nodes, n.kind = .arrayAssignment ∧ n.Shaped) ∧
      ∃ n ∈ (parseSource shapedText).file.toNode.nodes, n.kind = .range ∧
        ∃ m ∈ (parseSource shapedText).file.toNode.nodes, n ∈ m.children := by
  have hfound : ∀ kind ∈ [NodeKind.arrayAssignment, .range],
      ∃ n ∈ (parseSource shapedText).file.toNode.nodes, n.kind = kind := by
    decide +kernel
  constructor
  · obtain ⟨n, hn, hkind⟩ := hfound .arrayAssignment (by simp)
    exact ⟨n, hn, hkind, (shapes_kept shapedText n hn).1⟩
  · obtain ⟨n, hn, hkind⟩ := hfound .range (by simp)
    obtain ⟨m, hm, hchild, -⟩ := (shapes_kept shapedText n hn).2 (by rw [hkind]; rfl)
    exact ⟨n, hn, hkind, m, hm, hchild⟩

end FrontEnd
