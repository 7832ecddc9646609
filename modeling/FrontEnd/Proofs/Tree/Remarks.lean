/-
Comments and skipped stretches in a tree.

Two kinds of nodes are made of no production: comments, and the stretches of tokens that were
skipped.  They stand only where a statement, a definition or a member of a struct can stand,
never inside an expression or a type.

* `Node.Phrase` — a tree with neither such nodes nor places for them;
* `Remark` — a comment or a skipped stretch;
* `SourceFile.remarks` — those of a file, in the order of its tree;
* `SourceFile.remarks_toNode` — a walk over the tree visits them as the nodes of these two
  kinds, in that order;
* `SourceFile.comments` — the comments among them.

The members of a struct are kept apart by kind and stand in its tree by where they start.
`Member` puts them back together, so that the order is that of a typed list; `structRow` is the
order in which they are read.
-/
import FrontEnd.Definition.Basic
import FrontEnd.Proofs.Tree.Placement

namespace FrontEnd

/-! ### Nodes -/

/-- A node of this kind is made of no production. -/
def NodeKind.isRemark : NodeKind → Bool
  | .comment | .error => true
  | _ => false

namespace Node

/-- The node and all nodes below it, parents first. -/
def nodes (n : Node) : List Node := (n.preorder 0).map (·.2)

mutual

theorem map_preorder (depth : Nat) (n : Node) :
    (n.preorder depth).map (·.2) = n :: n.children.flatMap nodes := by
  match n with
  | ⟨kind, span, text, label, children⟩ =>
    rw [preorder, List.map_cons, map_preorders]

theorem map_preorders (depth : Nat) (ns : List Node) :
    (preorders depth ns).map (·.2) = ns.flatMap nodes := by
  match ns with
  | [] => rfl
  | n :: ns =>
    rw [preorders, List.map_append, List.flatMap_cons, map_preorder, map_preorders, nodes,
      map_preorder]

end

theorem nodes_eq (n : Node) : n.nodes = n :: n.children.flatMap nodes := map_preorder 0 n

/-- The nodes below a node are the children of nodes in it. -/
theorem mem_nodes_iff {c : Node} : (n : Node) → (c ∈ n.nodes ↔
    c = n ∨ ∃ m ∈ n.nodes, c ∈ m.children)
  | ⟨kind, span, text, label, children⟩ => by
    have hchild : ∀ k ∈ children, (c ∈ k.nodes ↔ c = k ∨ ∃ m ∈ k.nodes, c ∈ m.children) :=
      fun k _ => mem_nodes_iff k
    rw [nodes_eq]
    simp only [List.mem_cons, List.mem_flatMap, exists_eq_or_imp]
    refine or_congr_right ?_
    constructor
    · rintro ⟨k, hk, hc⟩
      rcases (hchild k hk).mp hc with rfl | ⟨m, hm, hc⟩
      · exact .inl hk
      · exact .inr ⟨m, ⟨k, hk, hm⟩, hc⟩
    · rintro (hk | ⟨m, ⟨k, hk, hm⟩, hc⟩)
      · exact ⟨c, hk, (hchild c hk).mpr (.inl rfl)⟩
      · exact ⟨k, hk, (hchild k hk).mpr (.inr ⟨m, hm, hc⟩)⟩

theorem Everywhere.of_mem_nodes {P : Node → Prop} {n m : Node} (h : n.Everywhere P)
    (hm : m ∈ n.nodes) : P m := by
  obtain ⟨entry, hentry, rfl⟩ := List.mem_map.mp hm
  exact h.of_mem_preorder hentry

/-- What holds everywhere in a tree holds everywhere in the trees below. -/
theorem Everywhere.subtree {P : Node → Prop} {n m : Node} (h : n.Everywhere P) (hm : m ∈ n.nodes) :
    m.Everywhere P := by
  have htwice : n.Everywhere (Everywhere P) := by
    clear hm
    induction h with
    | mk here below ih => exact .mk (.mk here below) ih
  exact htwice.of_mem_nodes hm

/-- The comments and the skipped stretches in a tree. -/
def remarks (n : Node) : List Node := n.nodes.filter (·.kind.isRemark)

theorem remarks_eq (n : Node) :
    n.remarks = (if n.kind.isRemark then [n] else []) ++ n.children.flatMap remarks := by
  rw [remarks, nodes_eq, List.filter_cons, List.filter_flatMap]
  split <;> rfl

/-- Nodes of kinds that are made of no production are found among these. -/
theorem filter_nodes {wanted : NodeKind → Bool} (h : ∀ k, wanted k → k.isRemark) (n : Node) :
    n.nodes.filter (wanted ·.kind) = n.remarks.filter (wanted ·.kind) := by
  rw [remarks, List.filter_filter]
  refine List.filter_congr fun m _ => ?_
  by_cases hwanted : wanted m.kind
  · simp [hwanted, h m.kind hwanted]
  · simp [hwanted]

/-- A node that is none itself has those of its children. -/
theorem remarks_of_kind {n : Node} (h : n.kind.isRemark = false) :
    n.remarks = n.children.flatMap remarks := by
  rw [remarks_eq, h]
  rfl

end Node

/-! ### Phrases -/

/-- Comments can stand among the children of a node of this kind. -/
def NodeKind.isPlace : NodeKind → Bool
  | .block | .structDefinition | .sourceFile => true
  | _ => false

/-- A node of this kind is no remark and no place for one. -/
def NodeKind.isPhrase (k : NodeKind) : Bool := !k.isRemark && !k.isPlace

theorem NodeKind.isPhrase_iff {k : NodeKind} :
    k.isPhrase ↔ k.isRemark = false ∧ k.isPlace = false := by
  simp [NodeKind.isPhrase]

theorem NodeKind.ne_comment_of_isPhrase {k : NodeKind} (h : k.isPhrase) : k ≠ .comment := by
  rintro rfl
  exact nomatch h

/-- There are no remarks in the tree, and no places for any. -/
def Node.Phrase (n : Node) : Prop := n.Everywhere (·.kind.isPhrase)

namespace Node.Phrase

variable {n : Node}

theorem node (hkind : n.kind.isPhrase) (h : ∀ c ∈ n.children, c.Phrase) : n.Phrase := .mk hkind h

theorem leaf (hkind : n.kind.isPhrase) (hchildren : n.children = []) : n.Phrase :=
  .node hkind (by simp [hchildren])

theorem labelled (h : n.Phrase) (label : Label) : (n.labelled label).Phrase :=
  .mk h.here h.of_mem_children

/-- There are no remarks in a phrase. -/
theorem eq_nil (h : n.Phrase) : n.remarks = [] := by
  induction h with
  | mk here _ ih =>
    rw [Node.remarks_of_kind (NodeKind.isPhrase_iff.mp here).1]
    exact List.flatMap_eq_nil_iff.mpr ih

end Node.Phrase

theorem Identifier.phrase (name : Identifier) : name.toNode.Phrase := .leaf rfl rfl

theorem Number.phrase (n : Number) : n.toNode.Phrase := .leaf rfl rfl

theorem Operator.phrase (o : Operator) : o.toNode.Phrase := .leaf rfl rfl

theorem LiteralPart.phrase (p : LiteralPart) : p.toNode.Phrase := by
  obtain ⟨segment, span⟩ := p
  cases segment <;> exact .leaf rfl rfl

theorem StringLiteral.phrase (l : StringLiteral) : l.toNode.Phrase := by
  refine .node rfl fun c hc => ?_
  obtain ⟨part, -, rfl⟩ := List.mem_map.mp hc
  exact part.phrase

theorem CharLiteral.phrase (l : CharLiteral) : l.toNode.Phrase := by
  refine .node rfl fun c hc => ?_
  obtain ⟨part, -, rfl⟩ := List.mem_map.mp hc
  exact part.phrase

theorem ConstantList.phrase (l : ConstantList) : l.toNode.Phrase := by
  refine .node rfl fun c hc => ?_
  obtain ⟨n, -, rfl⟩ := List.mem_map.mp hc
  exact n.phrase

theorem TypeExpr.phrase (type : TypeExpr) : type.toNode.Phrase := by
  induction type with
  | primitive | string | named => exact .leaf rfl rfl
  | array element length span ih =>
    exact .node rfl (by simp [TypeExpr.toNode, ih, length.phrase])
  | pointer pointee span ih => exact .node rfl (by simp [TypeExpr.toNode, ih])
  | reference referent span ih => exact .node rfl (by simp [TypeExpr.toNode, ih])
  | generic name argument span ih =>
    exact .node rfl (by simp [TypeExpr.toNode, ih, name.phrase])

theorem phrase_genericNodes (generic : Option TypeExpr) : ∀ n ∈ genericNodes generic, n.Phrase := by
  intro n hn
  obtain ⟨type, -, rfl⟩ := List.mem_map.mp hn
  exact type.phrase

mutual

theorem Expr.phrase : ∀ e : Expr, e.toNode.Phrase
  | .binary left operator right span => by
    have hleft := (left.phrase.labelled .left)
    have hoperator := (operator.phrase.labelled .operator)
    have hright := (right.phrase.labelled .right)
    rw [Expr.toNode]
    exact .node rfl (by simp [hleft, hoperator, hright])
  | .number n => by
    rw [Expr.toNode]
    exact n.phrase
  | .char l => by
    rw [Expr.toNode]
    exact l.phrase
  | .string l => by
    rw [Expr.toNode]
    exact l.phrase
  | .null span => by
    rw [Expr.toNode]
    exact .leaf rfl rfl
  | .bool value span => by
    rw [Expr.toNode]
    cases value <;> exact .leaf rfl rfl
  | .call c => by
    rw [Expr.toNode]
    exact c.phrase
  | .fieldAccess object member span => by
    have hobject := (object.phrase.labelled .object)
    rw [Expr.toNode]
    exact .node rfl (by simp [hobject, member.phrase])
  | .identifier name => by
    rw [Expr.toNode]
    exact name.phrase
  | .matching m => by
    rw [Expr.toNode]
    exact m.phrase
  | .typecast value target span => by
    have hvalue := (value.phrase.labelled .value)
    have htarget := (target.phrase.labelled .type)
    rw [Expr.toNode]
    exact .node rfl (by simp [hvalue, htarget])
  | .arrayAccess base index span => by
    rw [Expr.toNode]
    exact .node rfl (by simp [base.phrase, index.phrase])
  | .structInit init => by
    rw [Expr.toNode]
    exact init.phrase
  | .range r => by
    rw [Expr.toNode]
    exact r.phrase

theorem Call.phrase : ∀ c : Call, c.toNode.Phrase
  | ⟨function, generic, arguments, span⟩ => by
    have hfunction := (function.phrase.labelled .function)
    rw [Call.toNode]
    refine .node rfl fun n hn => ?_
    rcases List.mem_cons.mp hn with rfl | hn
    · exact hfunction
    · rcases List.mem_append.mp hn with hn | hn
      · exact phrase_genericNodes generic n hn
      · exact Expr.phrase_toNodes arguments n hn

theorem Match.phrase : ∀ m : Match, m.toNode.Phrase
  | ⟨value, arms, span⟩ => by
    have hvalue := (value.phrase.labelled .value)
    rw [Match.toNode]
    refine .node rfl fun n hn => ?_
    rcases List.mem_cons.mp hn with rfl | hn
    · exact hvalue
    · exact MatchArm.phrase_toNodes arms n hn

theorem MatchArm.phrase : ∀ a : MatchArm, a.toNode.Phrase
  | ⟨key, value, span⟩ => by
    have hvalue := (value.phrase.labelled .value)
    rw [MatchArm.toNode]
    exact .node rfl (by simp [key.phrase, hvalue])

theorem MatchKey.phrase : ∀ k : MatchKey, k.toNode.Phrase
  | .identifier name => by
    rw [MatchKey.toNode]
    exact name.phrase
  | .constants l => by
    rw [MatchKey.toNode]
    exact l.phrase
  | .number n => by
    rw [MatchKey.toNode]
    exact n.phrase
  | .char l => by
    rw [MatchKey.toNode]
    exact l.phrase
  | .range r => by
    rw [MatchKey.toNode]
    exact r.phrase

theorem Range.phrase : ∀ r : Range, r.toNode.Phrase
  | ⟨first, inclusive, last, span⟩ => by
    rw [Range.toNode]
    exact .node rfl (by simp [first.phrase, last.phrase])

theorem StructInit.phrase : ∀ i : StructInit, i.toNode.Phrase
  | ⟨name, generic, fields, span⟩ => by
    have hname := (name.phrase.labelled .name)
    rw [StructInit.toNode]
    refine .node rfl fun n hn => ?_
    rcases List.mem_cons.mp hn with rfl | hn
    · exact hname
    · rcases List.mem_append.mp hn with hn | hn
      · exact phrase_genericNodes generic n hn
      · exact FieldInit.phrase_toNodes fields n hn

theorem FieldInit.phrase : ∀ i : FieldInit, i.toNode.Phrase
  | ⟨name, value, span⟩ => by
    have hname := (name.phrase.labelled .name)
    have hvalue := (value.phrase.labelled .value)
    rw [FieldInit.toNode]
    exact .node rfl (by simp [hname, hvalue])

theorem Expr.phrase_toNodes : ∀ (es : List Expr), ∀ n ∈ Expr.toNodes es, n.Phrase
  | [], n, hn => by simp [Expr.toNodes] at hn
  | e :: es, n, hn => by
    rw [Expr.toNodes] at hn
    rcases List.mem_cons.mp hn with rfl | hn
    · exact e.phrase
    · exact Expr.phrase_toNodes es n hn

theorem MatchArm.phrase_toNodes :
    ∀ (as : List MatchArm), ∀ n ∈ MatchArm.toNodes as, n.Phrase
  | [], n, hn => by simp [MatchArm.toNodes] at hn
  | a :: as, n, hn => by
    rw [MatchArm.toNodes] at hn
    rcases List.mem_cons.mp hn with rfl | hn
    · exact a.phrase
    · exact MatchArm.phrase_toNodes as n hn

theorem FieldInit.phrase_toNodes :
    ∀ (is : List FieldInit), ∀ n ∈ FieldInit.toNodes is, n.Phrase
  | [], n, hn => by simp [FieldInit.toNodes] at hn
  | i :: is, n, hn => by
    rw [FieldInit.toNodes] at hn
    rcases List.mem_cons.mp hn with rfl | hn
    · exact i.phrase
    · exact FieldInit.phrase_toNodes is n hn

end

theorem phrase_mutNode (span : Span) : (mutNode span).Phrase := .leaf rfl rfl

/-- The statement is no remark and holds no block. -/
def Stmt.isPhrase : Stmt → Bool
  | .conditional .. | .whileLoop .. | .forLoop .. | .comment _ | .error _ => false
  | _ => true

theorem Stmt.phrase {stmt : Stmt} (h : stmt.isPhrase) : stmt.toNode.Phrase := by
  cases stmt with
  | conditional | whileLoop | forLoop | comment | error => exact nomatch h
  | returning value span =>
    rw [Stmt.toNode]
    exact .node rfl (by simp [value.phrase])
  | declaration mutability name type value span =>
    have hname := name.phrase.labelled .name
    have htype := type.phrase.labelled .type
    have hvalue := fun e : Expr => e.phrase.labelled .value
    rw [Stmt.toNode]
    exact .node rfl (by simp [or_imp, forall_and, hname, htype, hvalue, phrase_mutNode])
  | assignment name value span =>
    have hname := name.phrase.labelled .name
    have hvalue := value.phrase.labelled .value
    rw [Stmt.toNode]
    exact .node rfl (by simp [hname, hvalue])
  | fieldAssignment object name value span =>
    have hobject := object.phrase.labelled .object
    have hname := name.phrase.labelled .name
    have hvalue := value.phrase.labelled .value
    rw [Stmt.toNode]
    exact .node rfl (by simp [hobject, hname, hvalue])
  | arrayAssignment name index value span =>
    have hname := name.phrase.labelled .name
    have hvalue := value.phrase.labelled .value
    rw [Stmt.toNode]
    exact .node rfl (by simp [hname, index.phrase, hvalue])
  | breakLoop span | continueLoop span =>
    rw [Stmt.toNode]
    exact .leaf rfl rfl
  | call c span =>
    rw [Stmt.toNode]
    exact .node rfl (by simp [c.phrase])
  | matching m span =>
    rw [Stmt.toNode]
    exact .node rfl (by simp [m.phrase])

theorem Parameter.phrase (p : Parameter) : p.toNode.Phrase := by
  have hname := p.name.phrase.labelled .name
  have htype := p.type.phrase.labelled .type
  have hmut := fun span => (phrase_mutNode span).labelled .mutability
  exact .node rfl (by simp [Parameter.toNode, or_imp, forall_and, hname, htype, hmut])

theorem phrase_parameters (ps : List Parameter) : ∀ n ∈ ps.map (·.toNode), n.Phrase := by
  intro n hn
  obtain ⟨p, -, rfl⟩ := List.mem_map.mp hn
  exact p.phrase

theorem phrase_returnTypeNodes (type : Option TypeExpr) :
    ∀ n ∈ returnTypeNodes type, n.Phrase := by
  intro n hn
  obtain ⟨t, -, rfl⟩ := List.mem_map.mp hn
  exact t.phrase.labelled .returnType

theorem ExternalFunction.phrase (f : ExternalFunction) : f.toNode.Phrase := by
  refine .node rfl fun n hn => ?_
  rcases List.mem_cons.mp hn with rfl | hn
  · exact f.name.phrase.labelled .name
  · rcases List.mem_append.mp hn with hn | hn
    · exact phrase_parameters _ n hn
    · exact phrase_returnTypeNodes _ n hn

theorem UseStatement.phrase (u : UseStatement) : u.toNode.Phrase := by
  refine .node rfl fun n hn => ?_
  obtain ⟨name, -, rfl⟩ := List.mem_map.mp hn
  exact name.phrase

/-! ### Remarks -/

/-- A comment, or a stretch of tokens that was skipped. -/
inductive Remark where
  | comment (c : Comment)
  | error (span : Span)
deriving DecidableEq, Repr

namespace Remark

/-- The uniform view of a remark. -/
def toNode : Remark → Node
  | comment c => c.toNode
  | error span => errorNode span

/-- The comment that a remark is. -/
def comment? : Remark → Option Comment
  | comment c => some c
  | error _ => none

/-- The remark is a skipped stretch. -/
def isError : Remark → Bool
  | comment _ => false
  | error _ => true

theorem remarks_toNode (r : Remark) : r.toNode.remarks = [r.toNode] := by
  cases r <;> exact Node.remarks_eq _

end Remark

mutual

/-- The remarks in a statement. -/
def Stmt.remarks : Stmt → List Remark
  | .conditional _ ifBlock none _ => ifBlock.remarks
  | .conditional _ ifBlock (some elseBlock) _ => ifBlock.remarks ++ elseBlock.remarks
  | .whileLoop _ body _ | .forLoop _ _ _ body _ => body.remarks
  | .comment c => [.comment c]
  | .error span => [.error span]
  | .returning .. | .declaration .. | .assignment .. | .fieldAssignment .. | .arrayAssignment ..
  | .breakLoop .. | .continueLoop .. | .call .. | .matching .. => []

/-- The remarks in a block. -/
def Block.remarks : Block → List Remark
  | ⟨statements, _⟩ => Stmt.remarksOf statements

/-- The remarks in statements. -/
def Stmt.remarksOf : List Stmt → List Remark
  | [] => []
  | s :: ss => s.remarks ++ Stmt.remarksOf ss

end

theorem Stmt.remarks_comment (c : Comment) : (Stmt.comment c).remarks = [.comment c] := by
  rw [Stmt.remarks]

theorem Stmt.remarksOf_eq_flatMap (ss : List Stmt) :
    Stmt.remarksOf ss = ss.flatMap (·.remarks) := by
  induction ss with
  | nil => rfl
  | cons s ss ih => rw [Stmt.remarksOf, ih, List.flatMap_cons]

/-- The remarks in a function. -/
def FunctionDef.remarks (f : FunctionDef) : List Remark := f.body.remarks

/-- What stands between the braces of a struct. -/
inductive Member where
  | field (p : Parameter)
  | method (f : FunctionDef)
  | comment (c : Comment)

namespace Member

/-- The uniform view of a member. -/
def toNode : Member → Node
  | field p => p.toNode
  | method f => f.toNode
  | comment c => c.toNode

/-- Where a member starts. -/
def start (m : Member) : Nat := m.toNode.span.start.offset

/-- The remarks in a member. -/
def remarks : Member → List Remark
  | field _ => []
  | method f => f.remarks
  | comment c => [.comment c]

theorem remarks_comment (c : Comment) : (comment c).remarks = [.comment c] := rfl

end Member

/-- Members with the comments behind each of them. -/
def memberRow {α : Type} (wrap : α → Member) (items : List (α × List Comment)) : List Member :=
  items.flatMap fun m => wrap m.1 :: m.2.map Member.comment

/-- Members with their comments between them, and all members before all comments. -/
theorem perm_memberRow {α : Type} (wrap : α → Member) (items : List (α × List Comment)) :
    ((items.map (·.1)).map wrap ++ (items.flatMap (·.2)).map Member.comment).Perm
      (memberRow wrap items) := by
  unfold memberRow
  induction items with
  | nil => exact .refl _
  | cons m items ih =>
    simp only [List.flatMap_cons, List.map_cons, List.map_append, List.cons_append]
    refine .cons _ ((List.perm_append_comm_assoc _ _ _).trans (ih.append_left _))

/-- What stands between the braces of a struct, as it was read: comments, fields and methods. -/
def structRow (leading : List Comment) (fields : List (Parameter × List Comment))
    (methods : List (FunctionDef × List Comment)) : List Member :=
  leading.map Member.comment ++ memberRow .field fields ++ memberRow .method methods

theorem perm_gathered {α : Type} (fields methods leading inFields inMethods : List α) :
    (fields ++ methods ++ (leading ++ inFields ++ inMethods)).Perm
      (leading ++ (fields ++ inFields) ++ (methods ++ inMethods)) := by
  simp only [List.append_assoc]
  have hfirst : (fields ++ (methods ++ (leading ++ (inFields ++ inMethods)))).Perm
      (fields ++ (leading ++ (methods ++ (inFields ++ inMethods)))) :=
    (List.perm_append_comm_assoc _ _ _).append_left _
  have hsecond : (methods ++ (inFields ++ inMethods)).Perm (inFields ++ (methods ++ inMethods)) :=
    List.perm_append_comm_assoc _ _ _
  refine hfirst.trans ((List.perm_append_comm_assoc _ _ _).trans ?_)
  exact (hsecond.append_left fields).append_left leading

/-- Comments gathered behind all members go back to where they stand: before the fields, among
them and among the methods. -/
theorem perm_structRow (leading : List Comment) (fields : List (Parameter × List Comment))
    (methods : List (FunctionDef × List Comment)) :
    ((fields.map (·.1)).map Member.field ++ (methods.map (·.1)).map Member.method ++
      (leading ++ fields.flatMap (·.2) ++ methods.flatMap (·.2)).map Member.comment).Perm
      (structRow leading fields methods) := by
  rw [List.map_append, List.map_append]
  refine (perm_gathered _ _ _ _ _).trans ?_
  exact ((perm_memberRow .field fields).append_left _).append (perm_memberRow .method methods)

namespace StructDef

/-- The members of a struct and the comments between them, by where they start. -/
def members (s : StructDef) : List Member :=
  (s.fields.map Member.field ++ s.methods.map Member.method ++
    s.comments.map Member.comment).mergeSort (fun a b => a.start ≤ b.start)

/-- The remarks in a struct. -/
def remarks (s : StructDef) : List Remark := s.members.flatMap (·.remarks)

theorem children_toNode (s : StructDef) :
    s.toNode.children = s.name.toNode.labelled .name ::
      (genericNodes s.generic ++ s.members.map (·.toNode)) := by
  have hviews : (s.fields.map Member.field ++ s.methods.map Member.method ++
      s.comments.map Member.comment).map (·.toNode) =
        s.fields.map (·.toNode) ++ s.methods.map (·.toNode) ++ s.comments.map (·.toNode) := by
    simp only [List.map_append, List.map_map]
    rfl
  have hsorted : s.members.map (·.toNode) =
      (s.fields.map (·.toNode) ++ s.methods.map (·.toNode) ++ s.comments.map (·.toNode)).mergeSort
        (fun a b => a.span.start.offset ≤ b.span.start.offset) := by
    rw [← hviews]
    exact List.map_mergeSort fun _ _ _ _ => rfl
  rw [hsorted]
  rfl

end StructDef

/-- The remarks in a definition. -/
def Definition.remarks : Definition → List Remark
  | function f => f.remarks
  | struct s => s.remarks
  | comment c => [.comment c]
  | error span => [.error span]
  | external _ | use _ => []

theorem Definition.remarks_comment (c : Comment) :
    (Definition.comment c).remarks = [.comment c] := rfl

namespace SourceFile

/-- The remarks in a file. -/
def remarks (f : SourceFile) : List Remark := f.definitions.flatMap (·.remarks)

/-- The comments in a file. -/
def comments (f : SourceFile) : List Comment := f.remarks.filterMap Remark.comment?

end SourceFile

/-! ### Remarks and nodes -/

mutual

theorem Stmt.remarks_toNode : ∀ stmt : Stmt, stmt.toNode.remarks = stmt.remarks.map (·.toNode)
  | .conditional condition ifBlock none span => by
    rw [Stmt.toNode, Node.remarks_of_kind rfl, Stmt.remarks]
    simp [condition.phrase.eq_nil, ifBlock.remarks_toNode_labelled]
  | .conditional condition ifBlock (some elseBlock) span => by
    rw [Stmt.toNode, Node.remarks_of_kind rfl, Stmt.remarks]
    simp [condition.phrase.eq_nil, ifBlock.remarks_toNode_labelled,
      elseBlock.remarks_toNode_labelled]
  | .whileLoop condition body span => by
    rw [Stmt.toNode, Node.remarks_of_kind rfl, Stmt.remarks]
    simp [condition.phrase.eq_nil, body.remarks_toNode]
  | .forLoop hasLet binding iterable body span => by
    rw [Stmt.toNode, Node.remarks_of_kind rfl, Stmt.remarks]
    simp [binding.phrase.eq_nil, iterable.phrase.eq_nil, body.remarks_toNode]
  | .comment c => by
    rw [Stmt.toNode, Stmt.remarks]
    exact Remark.remarks_toNode (.comment c)
  | .error span => by
    rw [Stmt.toNode, Stmt.remarks]
    exact Remark.remarks_toNode (.error span)
  | .returning .. | .declaration .. | .assignment .. | .fieldAssignment .. | .arrayAssignment ..
  | .breakLoop .. | .continueLoop .. | .call .. | .matching .. => by
    rw [Stmt.remarks]
    exact (Stmt.phrase rfl).eq_nil

theorem Block.remarks_toNode : ∀ b : Block, b.toNode.remarks = b.remarks.map (·.toNode)
  | ⟨statements, span⟩ => by
    rw [Block.toNode, Node.remarks_of_kind rfl, Block.remarks]
    exact Stmt.remarks_toNodes statements

theorem Block.remarks_toNode_labelled : ∀ (b : Block) (label : Label),
    (b.toNode.labelled label).remarks = b.remarks.map (·.toNode)
  | ⟨statements, span⟩, label => by
    rw [Block.toNode, Node.remarks_of_kind rfl, Block.remarks]
    exact Stmt.remarks_toNodes statements

theorem Stmt.remarks_toNodes : ∀ ss : List Stmt,
    (Stmt.toNodes ss).flatMap Node.remarks = (Stmt.remarksOf ss).map (·.toNode)
  | [] => rfl
  | s :: ss => by
    rw [Stmt.toNodes, Stmt.remarksOf, List.flatMap_cons, List.map_append, s.remarks_toNode,
      Stmt.remarks_toNodes ss]

end

/-- There are no remarks among phrases. -/
theorem flatMap_remarks_phrases {ns : List Node} (h : ∀ n ∈ ns, n.Phrase) :
    ns.flatMap Node.remarks = [] :=
  List.flatMap_eq_nil_iff.mpr fun n hn => (h n hn).eq_nil

theorem FunctionDef.remarks_toNode (f : FunctionDef) :
    f.toNode.remarks = f.remarks.map (·.toNode) := by
  have hname := (f.name.phrase.labelled .name).eq_nil
  have hgeneric := flatMap_remarks_phrases (phrase_genericNodes f.generic)
  have hparameters := flatMap_remarks_phrases (phrase_parameters f.parameters)
  have hreturn := flatMap_remarks_phrases (phrase_returnTypeNodes f.returnType)
  rw [FunctionDef.toNode, Node.remarks_of_kind rfl, FunctionDef.remarks]
  simp [hname, hgeneric, hparameters, hreturn, f.body.remarks_toNode_labelled]

theorem Member.remarks_toNode (m : Member) : m.toNode.remarks = m.remarks.map (·.toNode) := by
  cases m with
  | field p => exact p.phrase.eq_nil
  | method f => exact f.remarks_toNode
  | comment c => exact Remark.remarks_toNode (.comment c)

theorem StructDef.remarks_toNode (s : StructDef) :
    s.toNode.remarks = s.remarks.map (·.toNode) := by
  have hname := (s.name.phrase.labelled .name).eq_nil
  have hgeneric := flatMap_remarks_phrases (phrase_genericNodes s.generic)
  rw [Node.remarks_of_kind rfl, s.children_toNode, StructDef.remarks]
  simp [hname, hgeneric, List.flatMap_map, List.map_flatMap, Member.remarks_toNode]

theorem Definition.remarks_toNode (d : Definition) :
    d.toNode.remarks = d.remarks.map (·.toNode) := by
  cases d with
  | function f => exact f.remarks_toNode
  | external f => exact f.phrase.eq_nil
  | struct s => exact s.remarks_toNode
  | use u => exact u.phrase.eq_nil
  | comment c => exact Remark.remarks_toNode (.comment c)
  | error span => exact Remark.remarks_toNode (.error span)

/-- The comments and skipped stretches that a walk over a file visits are its remarks. -/
theorem SourceFile.remarks_toNode (f : SourceFile) :
    f.toNode.remarks = f.remarks.map (·.toNode) := by
  rw [SourceFile.toNode, Node.remarks_of_kind rfl, SourceFile.remarks]
  simp [List.flatMap_map, List.map_flatMap, Definition.remarks_toNode]

/-- The comments of a file are the nodes of this kind that a walk over it visits. -/
theorem SourceFile.comments_toNode (f : SourceFile) :
    f.toNode.nodes.filter (·.kind = .comment) = f.comments.map (·.toNode) := by
  have hkind : ∀ k, decide (k = NodeKind.comment) → k.isRemark := by
    intro k hk
    rw [of_decide_eq_true hk]
    rfl
  rw [Node.filter_nodes hkind, f.remarks_toNode, SourceFile.comments]
  induction f.remarks with
  | nil => rfl
  | cons r rs ih =>
    cases r with
    | comment c => exact congrArg (c.toNode :: ·) ih
    | error span => exact ih

/-- The skipped stretches of a file are the error nodes that a walk over it visits. -/
theorem SourceFile.countP_errors (f : SourceFile) :
    f.toNode.nodes.countP (·.kind = .error) = f.remarks.countP (·.isError) := by
  have hkind : ∀ k, decide (k = NodeKind.error) → k.isRemark := by
    intro k hk
    rw [of_decide_eq_true hk]
    rfl
  rw [List.countP_eq_length_filter, Node.filter_nodes hkind, f.remarks_toNode,
    ← List.countP_eq_length_filter, List.countP_map]
  refine List.countP_congr fun r _ => ?_
  cases r <;> simp [Remark.toNode, Remark.isError, Comment.toNode, errorNode]

end FrontEnd
