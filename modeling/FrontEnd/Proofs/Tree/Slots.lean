/-
Where a tree has room for a mark.

Some marks of the language may be left out: a comma behind a parameter or a field, a semicolon
behind the value of a field, a bar behind a number of a list and the mark behind a name of a path.
A tree does not say whether they are there, but it says where they may be.

* `Separator` — the four sorts of such marks; a path has two marks to choose from;
* `Slot` — a place for a mark of one sort;
* `Node.slots` — the places in a tree.

What has no place for a mark of its own has those of its children (`Node.slots_mk`).
-/
import FrontEnd.Proofs.Tree.Remarks
import FrontEnd.Token.Kind

namespace FrontEnd

/-- The sorts of marks that may be left out. -/
inductive Separator where
  /-- Behind a parameter or a field. -/
  | comma
  /-- Behind the value of a field. -/
  | semicolon
  /-- Behind a number of a list. -/
  | bar
  /-- Behind a name of a path. -/
  | path
deriving DecidableEq, Repr

namespace Separator

/-- The marks of a sort. -/
def marks : Separator → List Symbol
  | comma => [.comma]
  | semicolon => [.semicolon]
  | bar => [.pipe]
  | path => [.colonColon, .dot]

/-- The kinds of tokens that marks of a sort are. -/
def kinds (s : Separator) : List Kind := s.marks.map Kind.symbol

end Separator

/-- A place for a mark. -/
structure Slot where
  separator : Separator
  /-- The offset at which the last token ends that stands before the mark. -/
  place : Nat
deriving DecidableEq, Repr

namespace Node

/-- The places for marks right behind the node, for a parameter, or its children. -/
def ownSlots (n : Node) : List Slot :=
  match n.kind with
  | .parameter => [⟨.comma, n.span.stop.offset⟩]
  | .fieldInit => (n.child? .value).toList.map fun v => ⟨.semicolon, v.span.stop.offset⟩
  -- the bar behind the first number is needed
  | .constantList => n.children.tail.map fun v => ⟨.bar, v.span.stop.offset⟩
  | .useStatement => n.children.map fun v => ⟨.path, v.span.stop.offset⟩
  | _ => []

/-- The places for marks in a tree. -/
def slots (n : Node) : List Slot := n.nodes.flatMap ownSlots

theorem slots_eq (n : Node) : n.slots = n.ownSlots ++ n.children.flatMap slots := by
  rw [slots, nodes_eq, List.flatMap_cons, List.flatMap_assoc]
  rfl

@[simp] theorem slots_mk (kind : NodeKind) (span : Span) (text : Option String)
    (label : Option Label) (children : List Node) :
    slots ⟨kind, span, text, label, children⟩ =
      ownSlots ⟨kind, span, text, label, children⟩ ++ children.flatMap slots := slots_eq _

@[simp] theorem slots_labelled (n : Node) (label : Label) : (n.labelled label).slots = n.slots := by
  rw [slots_eq, slots_eq]
  rfl

end Node

/-! ### Leaves and types -/

@[simp] theorem Identifier.slots_toNode (i : Identifier) : i.toNode.slots = [] := by
  simp [Identifier.toNode, Node.ownSlots]

@[simp] theorem Number.slots_toNode (n : Number) : n.toNode.slots = [] := by
  simp [Number.toNode, Node.ownSlots]

@[simp] theorem Operator.slots_toNode (o : Operator) : o.toNode.slots = [] := by
  simp [Operator.toNode, Node.ownSlots]

@[simp] theorem Comment.slots_toNode (c : Comment) : c.toNode.slots = [] := by
  simp [Comment.toNode, Node.ownSlots]

@[simp] theorem slots_mutNode (span : Span) : (mutNode span).slots = [] := by
  simp [mutNode, Node.ownSlots]

@[simp] theorem LiteralPart.slots_toNode (p : LiteralPart) : p.toNode.slots = [] := by
  rw [Node.slots_eq]
  cases hp : p.segment <;> simp [LiteralPart.toNode, hp, Node.ownSlots]

@[simp] theorem StringLiteral.slots_toNode (l : StringLiteral) : l.toNode.slots = [] := by
  simp [StringLiteral.toNode, Node.ownSlots, List.flatMap_map]

@[simp] theorem CharLiteral.slots_toNode (l : CharLiteral) : l.toNode.slots = [] := by
  simp [CharLiteral.toNode, Node.ownSlots, List.flatMap_map]

/-- There is no place for a mark in a type. -/
@[simp] theorem TypeExpr.slots_toNode (t : TypeExpr) : t.toNode.slots = [] := by
  induction t with
  | array element length span ih => simp [TypeExpr.toNode, Node.ownSlots, ih]
  | pointer pointee span ih | reference referent span ih =>
    simp [TypeExpr.toNode, Node.ownSlots, ih]
  | generic name argument span ih => simp [TypeExpr.toNode, Node.ownSlots, ih]
  | _ => simp [TypeExpr.toNode, Node.ownSlots]

@[simp] theorem slots_genericNodes (generic : Option TypeExpr) :
    (genericNodes generic).flatMap Node.slots = [] := by
  cases generic <;> simp [genericNodes]

@[simp] theorem slots_returnTypeNodes (type : Option TypeExpr) :
    (returnTypeNodes type).flatMap Node.slots = [] := by
  cases type <;> simp [returnTypeNodes]

/-! ### Constructs with places of their own -/

theorem Parameter.slots_toNode (p : Parameter) :
    p.toNode.slots = [⟨.comma, p.span.stop.offset⟩] := by
  cases hm : p.mutability <;> simp [Parameter.toNode, Node.ownSlots, hm]

theorem UseStatement.slots_toNode (u : UseStatement) :
    u.toNode.slots = u.path.map fun i => ⟨.path, i.span.stop.offset⟩ := by
  have hleaves : u.toNode.children.flatMap Node.slots = [] := by
    simp [UseStatement.toNode, List.flatMap_map]
  rw [Node.slots_eq, hleaves, List.append_nil]
  exact List.map_map

theorem ConstantList.slots_toNode (first : Number) (others : List Number) (span : Span) :
    (ConstantList.toNode ⟨first :: others, span⟩).slots =
      others.map fun n => ⟨.bar, n.span.stop.offset⟩ := by
  have hleaves :
      (ConstantList.toNode ⟨first :: others, span⟩).children.flatMap Node.slots = [] := by
    simp [ConstantList.toNode, List.flatMap_map]
  rw [Node.slots_eq, hleaves, List.append_nil]
  exact List.map_map

theorem FieldInit.slots_toNode (name : Identifier) (value : Expr) (span : Span) :
    (FieldInit.toNode ⟨name, value, span⟩).slots =
      ⟨.semicolon, value.toNode.span.stop.offset⟩ :: value.toNode.slots := by
  rw [FieldInit.toNode, Node.slots_mk, List.flatMap_cons, List.flatMap_cons, Node.slots_labelled,
    Node.slots_labelled, Identifier.slots_toNode]
  simp [Node.ownSlots, Node.child?, Node.labelled]

/-- In what order the members of a struct stand does not matter. -/
theorem StructDef.mem_slots_toNode (d : StructDef) (x : Slot) :
    x ∈ d.toNode.slots ↔
      x ∈ d.fields.flatMap (·.toNode.slots) ∨ x ∈ d.methods.flatMap (·.toNode.slots) := by
  have hsorted : ∀ (members : List Node) (r : Node → Node → Bool),
      x ∈ (members.mergeSort r).flatMap Node.slots ↔ x ∈ members.flatMap Node.slots := fun _ _ => by
    simp only [List.mem_flatMap, List.mem_mergeSort]
  rw [StructDef.toNode, Node.slots_mk, List.flatMap_cons, List.flatMap_append, Node.slots_labelled,
    Identifier.slots_toNode, slots_genericNodes, List.nil_append, List.nil_append]
  simp [Node.ownSlots, hsorted, List.flatMap_map]

end FrontEnd
