/-
Shapes of trees.

The trees could hold any expression wherever one can stand.  The grammar is narrower: a struct
initialization is only the value of a new variable, a range is only run over or matched, and what
is indexed, assigned to or given as an argument has one of a few forms.

* `Node.Shaped` — what the grammar says about the children of a node;
* `Node.Loose` — all of that in a whole tree, which may then stand anywhere in another;
* `Expr.PrimaryBy.primary`, `Expr.SpelledBy.loose` — expressions with a spelling are such trees;
* `Stmt.SpelledBy.loose` — so are the statements without blocks, if what they assign to is a
  target.

A spelling does not say where a target has to end, so that this is left open here.
-/
import FrontEnd.Proofs.Grammar.Layout

namespace FrontEnd

/-! ### Kinds of nodes -/

namespace NodeKind

/-- A node of this kind can only stand at a few places. -/
def isBound : NodeKind → Bool
  | structInitialization | range => true
  | _ => false

/-- The node is a type. -/
def isType : NodeKind → Bool
  | primitiveType | stringType | typeIdentifier | arrayType | pointerType | refType
  | genericType => true
  | _ => false

/-- The node is an expression without operators. -/
def isPrimary : NodeKind → Bool
  | number | charLiteral | stringLiteral | null | trueLiteral | falseLiteral | callExpression
  | fieldAccess | identifier | matchExpression | arrayAccess => true
  | _ => false

/-- A type among the children of the node, if it has no label, is its generic argument. -/
def takesArgument : NodeKind → Bool
  | genericType | functionDefinition | structDefinition | callExpression
  | structInitialization => true
  | _ => false

end NodeKind

namespace Node

/-! ### What is asked of a node -/

/-- The node is a type that can be a generic argument: an array, or a type that is a leaf. -/
def IsArgument (n : Node) : Prop :=
  n.kind = .arrayType ∨ n.kind ∈ [.primitiveType, .stringType, .typeIdentifier] ∧ n.children = []

/-- The last member, where members of members are taken one after the other. -/
def memberEnd : Node → Node
  | ⟨.fieldAccess, _, _, _, [_, member]⟩ => member.memberEnd
  | n => n

/-- The elements of what the node is can be assigned to.  A member that is only a name is
followed by its index, and so part of an array access. -/
structure IsTarget (n : Node) : Prop where
  kind : n.kind ∈ [.identifier, .callExpression, .fieldAccess, .arrayAccess]
  indexed : n.kind = .fieldAccess → n.memberEnd.kind ≠ .identifier

theorem memberEnd_of_kind {n : Node} (h : n.kind ≠ .fieldAccess) : n.memberEnd = n := by
  rw [memberEnd.eq_def]
  split
  · exact absurd rfl h
  · rfl

theorem memberEnd_labelled (n : Node) (label : Label) :
    (n.labelled label).memberEnd.kind = n.memberEnd.kind := by
  obtain ⟨kind, span, text, label', children⟩ := n
  rw [labelled, memberEnd.eq_def, memberEnd.eq_def ⟨kind, span, text, label', children⟩]
  split
  · next heq =>
    obtain ⟨rfl, -, -, -, rfl⟩ := Node.mk.inj heq
    rfl
  · next hnot =>
    split
    · next heq =>
      obtain ⟨rfl, -, -, -, rfl⟩ := Node.mk.inj heq
      exact absurd rfl (hnot _ _ _ _ _)
    · rfl

theorem IsTarget.labelled {n : Node} (h : n.IsTarget) (label : Label) :
    (n.labelled label).IsTarget where
  kind := h.kind
  indexed hkind := by
    rw [memberEnd_labelled]
    exact h.indexed hkind

/-- The parts of the node have the forms that their places ask for. -/
def Fits (n : Node) : Prop :=
  match n.kind, n.children with
  | .forStatement, [_, values, _] => values.kind = .identifier ∨ values.kind = .range
  | .fieldAssignment, [_, name, _] => name.kind = .identifier ∨ name.kind = .arrayAccess
  | .arrayAssignment, [target, index, _] => target.IsTarget ∧ index.kind.isPrimary
  | .arrayAccess, [_, index] => index.kind.isPrimary
  | .fieldAccess, [_, member] => member.kind.isPrimary
  | .forStatement, _ | .fieldAssignment, _ | .arrayAssignment, _ | .arrayAccess, _
  | .fieldAccess, _ => False
  | .constantList, values => values ≠ []
  | _, _ => True

/-- What the grammar says about the children of a node. -/
structure Shaped (n : Node) : Prop where
  /-- A struct initialization is the value of a new variable. -/
  structInit : ∀ c ∈ n.children, c.kind = .structInitialization →
    n.kind = .variableDeclaration ∧ c.label = some .value
  /-- A loop runs over a range, or an arm of a match is for one. -/
  range : ∀ i c, n.children[i]? = some c → c.kind = .range →
    n.kind = .forStatement ∧ i = 1 ∨ n.kind = .matchArm ∧ i = 0
  argument : n.kind.takesArgument → ∀ c ∈ n.children, c.label = none → c.kind.isType →
    c.IsArgument
  fits : n.Fits

/-! ### Trees -/

/-- All nodes are shaped, and the tree may stand anywhere in another one. -/
structure Loose (n : Node) : Prop where
  shaped : n.Everywhere Shaped
  unbound : n.kind.isBound = false

theorem Loose.kind_ne {n : Node} (h : n.Loose) :
    n.kind ≠ .structInitialization ∧ n.kind ≠ .range := by
  constructor <;> (intro hkind; have hbound := h.unbound; rw [hkind] at hbound; cases hbound)

/-- A node around loose ones, of which those without a label that are types may be generic
arguments. -/
theorem everywhere_shaped {n : Node} (h : ∀ c ∈ n.children, c.Loose)
    (hargument : n.kind.takesArgument → ∀ c ∈ n.children, c.label = none → c.kind.isType →
      c.IsArgument)
    (hfits : n.Fits) : n.Everywhere Shaped := by
  refine .mk ⟨fun c hc hkind => ?_, fun i c hc hkind => ?_, hargument, hfits⟩
    fun c hc => (h c hc).shaped
  · exact absurd hkind (h c hc).kind_ne.1
  · exact absurd hkind (h c (List.mem_of_getElem? hc)).kind_ne.2

theorem Everywhere.labelled_shaped {n : Node} (h : n.Everywhere Shaped) (label : Label) :
    (n.labelled label).Everywhere Shaped :=
  .mk ⟨h.here.structInit, h.here.range, h.here.argument, h.here.fits⟩ h.of_mem_children

namespace Loose

variable {n : Node}

theorem labelled (h : n.Loose) (label : Label) : (n.labelled label).Loose :=
  ⟨h.shaped.labelled_shaped label, h.unbound⟩

theorem generic (hkind : n.kind.isBound = false) (h : ∀ c ∈ n.children, c.Loose)
    (hargument : ∀ c ∈ n.children, c.label = none → c.kind.isType → c.IsArgument)
    (hfits : n.Fits) : n.Loose :=
  ⟨everywhere_shaped h (fun _ => hargument) hfits, hkind⟩

theorem node (hkind : n.kind.isBound = false) (htakes : n.kind.takesArgument = false)
    (h : ∀ c ∈ n.children, c.Loose) (hfits : n.Fits) : n.Loose :=
  ⟨everywhere_shaped h (by simp [htakes]) hfits, hkind⟩

theorem leaf (hkind : n.kind.isBound = false) (hchildren : n.children = [])
    (hfits : n.Fits) : n.Loose :=
  .generic hkind (by simp [hchildren]) (by simp [hchildren]) hfits

end Loose

end Node

/-! ### Names, literals and types -/

theorem Identifier.loose (name : Identifier) : name.toNode.Loose := .leaf rfl rfl trivial

theorem Number.loose (n : Number) : n.toNode.Loose := .leaf rfl rfl trivial

theorem LiteralPart.loose (p : LiteralPart) : p.toNode.Loose := by
  obtain ⟨segment, span⟩ := p
  cases segment <;> exact .leaf rfl rfl trivial

theorem StringLiteral.loose (l : StringLiteral) : l.toNode.Loose := by
  refine .node rfl rfl (fun c hc => ?_) trivial
  obtain ⟨part, -, rfl⟩ := List.mem_map.mp hc
  exact part.loose

theorem CharLiteral.loose (l : CharLiteral) : l.toNode.Loose := by
  refine .node rfl rfl (fun c hc => ?_) trivial
  obtain ⟨part, -, rfl⟩ := List.mem_map.mp hc
  exact part.loose

theorem Operator.loose (o : Operator) : o.toNode.Loose := .leaf rfl rfl trivial

theorem loose_mutNode (span : Span) : (mutNode span).Loose := .leaf rfl rfl trivial

/-- A plain type is an array or a leaf. -/
theorem TypeExpr.isArgument {type : TypeExpr} (h : type.isPlain) : type.toNode.IsArgument := by
  cases type with
  | primitive | string | named => exact .inr ⟨by simp [toNode], rfl⟩
  | array => exact .inl rfl
  | pointer | reference | generic => cases h

theorem TypeExpr.SpelledBy.loose {type : TypeExpr} {ts : List Token} (h : type.SpelledBy ts) :
    type.toNode.Loose := by
  induction h with
  | primitive | string | named => exact .leaf rfl rfl trivial
  | @array _ _ _ _ _ length _ _ _ _ _ _ ih =>
    rw [toNode]
    exact .node rfl rfl (by simp [ih, length.loose]) trivial
  | pointer _ _ ih | reference _ _ ih =>
    rw [toNode]
    exact .node rfl rfl (by simp [ih]) trivial
  | doubleReference _ _ ih =>
    rw [toNode, toNode]
    refine .node rfl rfl ?_ trivial
    rw [List.forall_mem_singleton]
    exact .node rfl rfl (by simp [ih]) trivial
  | generic name _ _ hplain _ ih =>
    have hargument := TypeExpr.isArgument hplain
    rw [toNode]
    refine .generic rfl (by simp [ih, name.loose]) ?_ trivial
    simp [Identifier.toNode, NodeKind.isType, hargument]

/-- Among the children of a node the generic argument stands without a label. -/
theorem loose_genericNodes {generic : Option TypeExpr} {ts : List Token}
    (h : Perhaps GenericClause generic ts) :
    ∀ c ∈ genericNodes generic, c.Loose ∧ c.IsArgument := by
  cases h with
  | none => simp [genericNodes]
  | some h =>
    obtain ⟨ho, hargument, hplain, hc⟩ := h
    simp [genericNodes, hargument.loose, TypeExpr.isArgument hplain]

/-- A construct with a name and perhaps a generic argument, around parts that are no types without
a label. -/
theorem shaped_of_generic {n : Node} (name : Identifier) {generic : Option TypeExpr}
    {gs : List Token} (hgeneric : Perhaps GenericClause generic gs) (parts : List Node)
    (hparts : ∀ c ∈ parts, c.Loose)
    (htypes : ∀ c ∈ parts, c.label = none → c.kind.isType = false)
    (hchildren : ∀ c ∈ n.children,
      c = name.toNode.labelled .name ∨ c = name.toNode.labelled .function ∨
        c ∈ genericNodes generic ∨ c ∈ parts)
    (hfits : n.Fits) : n.Everywhere Node.Shaped := by
  have hclause := loose_genericNodes hgeneric
  refine Node.everywhere_shaped (fun c hc => ?_) (fun _ c hc hlabel htype => ?_) hfits
  · rcases hchildren c hc with rfl | rfl | hc | hc
    · exact name.loose.labelled _
    · exact name.loose.labelled _
    · exact (hclause c hc).1
    · exact hparts c hc
  · rcases hchildren c hc with rfl | rfl | hc | hc
    · cases hlabel
    · cases hlabel
    · exact (hclause c hc).2
    · rw [htypes c hc hlabel] at htype
      cases htype

theorem ConstantList.SpelledBy.loose {l : ConstantList} {ts : List Token} (h : l.SpelledBy ts) :
    l.toNode.Loose := by
  cases h with
  | mk hfirst hbar hothers =>
    refine .node rfl rfl (fun c hc => ?_) (by simp [Node.Fits, ConstantList.toNode])
    obtain ⟨n, -, rfl⟩ := List.mem_map.mp hc
    exact n.loose

/-! ### Expressions -/

/-- No expression is a type. -/
theorem Expr.isType_toNode (e : Expr) : e.toNode.kind.isType = false := by
  cases e with
  | call c => obtain ⟨_, _, _, _⟩ := c; simp [Expr.toNode, Call.toNode, NodeKind.isType]
  | matching m => obtain ⟨_, _, _⟩ := m; simp [Expr.toNode, Match.toNode, NodeKind.isType]
  | structInit i => obtain ⟨_, _, _, _⟩ := i; simp [Expr.toNode, StructInit.toNode, NodeKind.isType]
  | range r => obtain ⟨_, _, _, _⟩ := r; simp [Expr.toNode, Range.toNode, NodeKind.isType]
  | bool value => cases value <;> simp [Expr.toNode, NodeKind.isType]
  | _ => simp [Expr.toNode, Number.toNode, CharLiteral.toNode, StringLiteral.toNode,
      Identifier.toNode, NodeKind.isType]

/-- An expression without operators is a node of one of the kinds for these. -/
theorem Expr.PrimaryBy.primary {e : Expr} {ts : List Token} (h : e.PrimaryBy ts) :
    e.toNode.kind.isPrimary := by
  cases h with
  | @call c _ _ => obtain ⟨_, _, _, _⟩ := c; rfl
  | @matching m _ _ => obtain ⟨_, _, _⟩ := m; rfl
  | _ => rfl

theorem Each.loose {α : Type} {V : α → List Token → Prop} {view : α → Node} {as : List α}
    {ts : List Token} (h : Each V as ts) (hv : ∀ a ∈ as, ∀ us, V a us → (view a).Loose) :
    ∀ c ∈ as.map view, c.Loose := by
  intro c hc
  obtain ⟨a, ha, rfl⟩ := List.mem_map.mp hc
  obtain ⟨us, -, hus⟩ := h.of_mem ha
  exact hv a ha us hus

theorem Separated.of_mem {α : Type} {k : Kind} {V : α → List Token → Prop} {as : List α}
    {ts : List Token} (h : Separated k V as ts) {a : α} (ha : a ∈ as) : ∃ us, V a us := by
  induction h with
  | nil => simp at ha
  | one hv => exact ⟨_, by rwa [List.mem_singleton.mp ha]⟩
  | more hv _ _ ih =>
    rcases List.mem_cons.mp ha with rfl | hmem
    · exact ⟨_, hv⟩
    · exact ih hmem

mutual

theorem Expr.PrimaryBy.loose {e : Expr} {ts : List Token} (h : e.PrimaryBy ts) :
    e.toNode.Loose := by
  cases h with
  | @number n => rw [Expr.toNode]; exact n.loose
  | @char l => rw [Expr.toNode]; exact l.loose
  | @string l => rw [Expr.toNode]; exact l.loose
  | null | true | false => rw [Expr.toNode]; exact .leaf rfl rfl trivial
  | identifier name => rw [Expr.toNode]; exact name.loose
  | call h => rw [Expr.toNode]; exact h.loose
  | fieldAccess object hdot hmember =>
    rw [Expr.toNode]
    exact .node rfl rfl (by simp [object.loose.labelled, hmember.loose]) hmember.primary
  | arrayAccess base ho hindex hc =>
    rw [Expr.toNode]
    exact .node rfl rfl (by simp [base.loose, hindex.loose]) hindex.primary
  | matching h => rw [Expr.toNode]; exact h.loose
termination_by (sizeOf e, 0)

theorem Expr.SpelledBy.loose {e : Expr} {ts : List Token} (h : e.SpelledBy ts) :
    e.toNode.Loose := by
  cases h with
  | primary hprimary => exact hprimary.loose
  | @binary _ _ _ _ op t hleft hop hright =>
    rw [Expr.toNode]
    refine .node rfl rfl ?_ trivial
    simp [hleft.loose.labelled, hright.loose.labelled, (Operator.loose ⟨op, t.span⟩).labelled]
  | typecast hvalue hword htarget =>
    rw [Expr.toNode]
    exact .node rfl rfl (by simp [hvalue.loose.labelled, htarget.loose.labelled]) trivial
termination_by (sizeOf e, 1)
decreasing_by
  -- An expression without operators is the same expression, read by the first of the two.
  · subst_vars
    exact Prod.Lex.right _ (by decide)
  all_goals decreasing_tactic

theorem Call.SpelledBy.loose {c : Call} {ts : List Token} (h : c.SpelledBy ts) :
    c.toNode.Loose := by
  cases h with
  | @mk function generic _ _ _ arguments _ hgeneric ho harguments hc =>
    rw [Call.toNode, Expr.toNodes_eq_map]
    refine ⟨shaped_of_generic function hgeneric (arguments.map (·.toNode))
      (fun n hn => ?_) (fun n hn _ => ?_) (by simp; tauto) trivial, rfl⟩
    · obtain ⟨e, he, rfl⟩ := List.mem_map.mp hn
      obtain ⟨us, hus⟩ := harguments.of_mem he
      exact hus.loose
    · obtain ⟨e, -, rfl⟩ := List.mem_map.mp hn
      exact e.isType_toNode
termination_by (sizeOf c, 0)

theorem Match.SpelledBy.loose {m : Match} {ts : List Token} (h : m.SpelledBy ts) :
    m.toNode.Loose := by
  cases h with
  | mk hword hvalue ho harms hc =>
    have harms := harms.loose fun a ha us hus => hus.loose
    rw [Match.toNode, MatchArm.toNodes_eq_map]
    refine .node rfl rfl (List.forall_mem_cons.mpr ⟨hvalue.loose.labelled _, harms⟩) trivial
termination_by (sizeOf m, 0)

/-- The key of an arm is the only place for a range in an expression. -/
theorem MatchArm.SpelledBy.loose {a : MatchArm} {ts : List Token} (h : a.SpelledBy ts) :
    a.toNode.Loose := by
  cases h with
  | mk hkey harrow hvalue hcomma =>
    obtain ⟨hshaped, hinit⟩ := hkey.shaped
    have hvalue := hvalue.loose.labelled .value
    rw [MatchArm.toNode]
    refine ⟨.mk ⟨?_, ?_, by simp [NodeKind.takesArgument], trivial⟩ ?_, rfl⟩
    · intro c hc hkind
      simp only [List.mem_cons, List.not_mem_nil, or_false] at hc
      rcases hc with rfl | rfl
      · exact absurd hkind hinit
      · exact absurd hkind hvalue.kind_ne.1
    · rintro (_ | _ | i) c hc hkind
      · exact .inr ⟨rfl, rfl⟩
      · obtain rfl := Option.some.inj hc
        exact absurd hkind hvalue.kind_ne.2
      · simp at hc
    · simp [hshaped, hvalue.shaped]
termination_by (sizeOf a, 0)

theorem MatchKey.SpelledBy.shaped {key : MatchKey} {ts : List Token} (h : key.SpelledBy ts) :
    key.toNode.Everywhere Node.Shaped ∧ key.toNode.kind ≠ .structInitialization := by
  cases h with
  | identifier name => rw [MatchKey.toNode]; exact ⟨name.loose.shaped, by simp [Identifier.toNode]⟩
  | constants h => rw [MatchKey.toNode]; exact ⟨h.loose.shaped, by simp [ConstantList.toNode]⟩
  | @number n => rw [MatchKey.toNode]; exact ⟨n.loose.shaped, by simp [Number.toNode]⟩
  | @char l => rw [MatchKey.toNode]; exact ⟨l.loose.shaped, by simp [CharLiteral.toNode]⟩
  | @range r _ h =>
    rw [MatchKey.toNode]
    refine ⟨h.shaped, ?_⟩
    obtain ⟨_, _, _, _⟩ := r
    simp [Range.toNode]
termination_by (sizeOf key, 0)

theorem Range.SpelledBy.shaped {r : Range} {ts : List Token} (h : r.SpelledBy ts) :
    r.toNode.Everywhere Node.Shaped := by
  cases h with
  | mk hfirst hdots hinclusive hlast =>
    rw [Range.toNode]
    exact Node.everywhere_shaped (by simp [hfirst.loose, hlast.loose])
      (by simp [NodeKind.takesArgument]) trivial
termination_by (sizeOf r, 0)

end

theorem FieldInit.SpelledBy.loose {f : FieldInit} {ts : List Token} (h : f.SpelledBy ts) :
    f.toNode.Loose := by
  cases h with
  | mk name hcolon hvalue hsemi =>
    rw [FieldInit.toNode]
    exact .node rfl rfl (by simp [name.loose.labelled, hvalue.loose.labelled]) trivial

theorem StructInit.SpelledBy.shaped {i : StructInit} {ts : List Token} (h : i.SpelledBy ts) :
    i.toNode.Everywhere Node.Shaped := by
  cases h with
  | @mk name generic _ _ _ fields _ hgeneric ho hfields hc =>
    rw [StructInit.toNode, FieldInit.toNodes_eq_map]
    refine shaped_of_generic name hgeneric (fields.map (·.toNode))
      (hfields.loose fun f _ us (hf : f.SpelledBy us) => hf.loose) (fun n hn _ => ?_)
      (by simp; tauto) trivial
    obtain ⟨⟨_, _, _⟩, -, rfl⟩ := List.mem_map.mp hn
    rfl

theorem InitializerBy.shaped {e : Expr} {ts : List Token} (h : InitializerBy e ts) :
    e.toNode.Everywhere Node.Shaped ∧ e.toNode.kind ≠ .range := by
  cases h with
  | @structInit init _ h =>
    rw [Expr.toNode]
    refine ⟨h.shaped, ?_⟩
    obtain ⟨_, _, _, _⟩ := init
    simp [StructInit.toNode]
  | expression h => exact ⟨h.loose.shaped, h.loose.kind_ne.2⟩

theorem IterableBy.shaped {e : Expr} {ts : List Token} (h : IterableBy e ts) :
    e.toNode.Everywhere Node.Shaped ∧ (e.toNode.kind = .identifier ∨ e.toNode.kind = .range) := by
  cases h with
  | identifier name => rw [Expr.toNode]; exact ⟨name.loose.shaped, .inl rfl⟩
  | @range r _ h =>
    rw [Expr.toNode]
    refine ⟨h.shaped, .inr ?_⟩
    obtain ⟨_, _, _, _⟩ := r
    rfl

/-! ### Statements and definitions without blocks -/

/-- What the statement assigns elements of is a target. -/
def Stmt.Targets : Stmt → Prop
  | .arrayAssignment target _ _ _ => target.toNode.IsTarget
  | _ => True

/-- The value of a new variable is the only place for a struct initialization. -/
theorem loose_declaration {ns : List Node} {value : Node} {span : Span}
    (hparts : ∀ c ∈ ns, c.Loose) (hvalue : value.Everywhere Node.Shaped)
    (hrange : value.kind ≠ .range) :
    ({ kind := .variableDeclaration, span, children := ns ++ [value.labelled .value] } :
      Node).Loose := by
  refine ⟨.mk ⟨fun c hc _ => ⟨rfl, ?_⟩, fun i c hc hkind => ?_, by simp [NodeKind.takesArgument],
    trivial⟩ ?_, rfl⟩
  · rcases List.mem_append.mp hc with hc | hc
    · exact absurd ‹_› (hparts c hc).kind_ne.1
    · rw [List.mem_singleton.mp hc]
      rfl
  · rcases List.mem_append.mp (List.mem_of_getElem? hc) with hc | hc
    · exact absurd hkind (hparts c hc).kind_ne.2
    · rw [List.mem_singleton.mp hc] at hkind
      exact absurd hkind hrange
  · intro c hc
    rcases List.mem_append.mp hc with hc | hc
    · exact (hparts c hc).shaped
    · rw [List.mem_singleton.mp hc]
      exact hvalue.labelled_shaped _

theorem Stmt.SpelledBy.loose {stmt : Stmt} {ts : List Token} (h : stmt.SpelledBy ts)
    (hflat : stmt.holdsBlock = false) (htargets : stmt.Targets) : stmt.toNode.Loose := by
  cases h with
  | returning hword hvalue hsemi =>
    rw [Stmt.toNode]
    exact .node rfl rfl (by simp [hvalue.loose]) trivial
  | declaration name hword hmut hcolon htype hvalue hsemi =>
    have hname := name.loose.labelled .name
    have htype := htype.loose.labelled .type
    cases hvalue with
    | none =>
      rw [Stmt.toNode]
      exact .node rfl rfl (by simp [or_imp, forall_and, hname, htype, loose_mutNode]) trivial
    | some hbehind =>
      obtain ⟨-, hvalue⟩ := hbehind
      rw [Stmt.toNode]
      exact loose_declaration (by simp [or_imp, forall_and, hname, htype, loose_mutNode])
        hvalue.shaped.1 hvalue.shaped.2
  | assignment name heq hvalue hsemi =>
    rw [Stmt.toNode]
    exact .node rfl rfl (by simp [name.loose.labelled, hvalue.loose.labelled]) trivial
  | @fieldAssignment object dot eq semi member value ms vs hdot hmember hform heq hvalue hsemi =>
    have hfits : member.toNode.kind = .identifier ∨ member.toNode.kind = .arrayAccess := by
      cases member with
      | identifier | arrayAccess => simp [Expr.toNode, Identifier.toNode]
      | _ => cases hform
    rw [Stmt.toNode]
    refine .node rfl rfl ?_ hfits
    simp [object.loose.labelled, hmember.loose.labelled, hvalue.loose.labelled]
  | arrayAssignment htarget ho hindex hc heq hvalue hsemi =>
    rw [Stmt.toNode]
    refine .node rfl rfl ?_ ⟨htargets.labelled _, hindex.primary⟩
    simp [htarget.loose.labelled, hindex.loose, hvalue.loose.labelled]
  | conditional | whileLoop | forLoop => cases hflat
  | breakLoop | continueLoop =>
    rw [Stmt.toNode]
    exact .leaf rfl rfl trivial
  | call hcall hsemi =>
    rw [Stmt.toNode]
    exact .node rfl rfl (by simp [hcall.loose]) trivial
  | matching hmatch hsemi =>
    rw [Stmt.toNode]
    exact .node rfl rfl (by simp [hmatch.loose]) trivial

theorem Parameter.SpelledBy.loose {p : Parameter} {ts : List Token} (h : p.SpelledBy ts) :
    p.toNode.Loose := by
  cases h with
  | mk name hcolon hmut htype hcomma =>
    have hname := name.loose.labelled .name
    have htype := htype.loose.labelled .type
    refine .node rfl rfl ?_ trivial
    simp only [toNode, List.mem_cons, List.mem_append, List.mem_map, List.not_mem_nil, or_false]
    rintro c (rfl | ⟨span, -, rfl⟩ | rfl)
    · exact hname
    · exact (loose_mutNode span).labelled _
    · exact htype

theorem ParameterList.loose {parameters : List Parameter} {ts : List Token}
    (h : ParameterList parameters ts) : ∀ c ∈ parameters.map (·.toNode), c.Loose := by
  cases h with
  | mk ho hparameters hc => exact hparameters.loose fun _ _ _ hp => hp.loose

theorem ReturnTypeBy.loose {type : Option TypeExpr} {ts : List Token} (h : ReturnTypeBy type ts) :
    ∀ c ∈ returnTypeNodes type, c.Loose := by
  cases h with
  | none => simp [returnTypeNodes]
  | some hbehind =>
    obtain ⟨-, htype⟩ := hbehind
    simp [returnTypeNodes, htype.loose.labelled]

theorem ExternalFunction.SpelledBy.loose {f : ExternalFunction} {ts : List Token}
    (h : f.SpelledBy ts) : f.toNode.Loose := by
  cases h with
  | mk name hword hfn hparameters hreturn hsemi =>
    refine .node rfl rfl (fun c hc => ?_) trivial
    simp only [toNode, List.mem_cons, List.mem_append] at hc
    rcases hc with rfl | hc | hc
    · exact name.loose.labelled _
    · exact hparameters.loose c hc
    · exact hreturn.loose c hc

theorem UseStatement.loose (u : UseStatement) : u.toNode.Loose := by
  refine .node rfl rfl (fun c hc => ?_) trivial
  obtain ⟨name, -, rfl⟩ := List.mem_map.mp hc
  exact name.loose

end FrontEnd
