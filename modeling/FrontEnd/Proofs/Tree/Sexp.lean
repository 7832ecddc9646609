/-
Trees are told from their S-expressions.

A written tree mixes the names of kinds, labels, texts that stand bare and texts in quotes.  Each of
them tells where it ends: a name and a bare text at a blank or a closing parenthesis, a label at the
opening parenthesis behind it, and a quoted text at a quote.  So a text starts with one written tree
at most, and this gives all of the tree but where it stands.

* `Node.Alike` — nodes that are equal as labelled trees;
* `Node.Legible` — the text of a node is one of those that its kind has, and ends as they do;
* `Node.sexp_cancel` — the first tree that is written in a text;
* `Node.sexp_eq_iff` — two trees are written alike just if they are alike.
-/
import FrontEnd.Proofs.Literal.Scan
import FrontEnd.Proofs.Text.Quoting
import FrontEnd.Proofs.Tree.Placement
import Mathlib.Data.List.Nodup
import Mathlib.Data.List.TakeWhile

namespace FrontEnd

/-- Two texts that both go on up to a character of a sort, but not beyond one, are the same up to
there. -/
theorem cancel_stop (stops : Char → Bool) {as bs cs ds : List Char} {x y : Char}
    (ha : as.all (!stops ·)) (hb : bs.all (!stops ·)) (hx : stops x) (hy : stops y)
    (h : as ++ x :: cs = bs ++ y :: ds) : as = bs ∧ x :: cs = y :: ds := by
  have hcut : ∀ {es : List Char} {z : Char} (fs : List Char), es.all (!stops ·) →
      stops z → (es ++ z :: fs).takeWhile (!stops ·) = es := by
    intro es z fs hes hz
    rw [takeWhile_append_stop (by simp [hz]), List.takeWhile_eq_self_iff]
    exact List.all_eq_true.mp hes
  have htake := congrArg (List.takeWhile (!stops ·)) h
  rw [hcut cs ha hx, hcut ds hb hy] at htake
  rw [htake] at h
  exact ⟨htake, List.append_cancel_left h⟩

/-! ### Names and labels -/

/-- What ends a name or a bare text in a written tree. -/
def endsName (c : Char) : Bool := c == ' ' || c == ')'

/-- All kinds of nodes. -/
def NodeKind.all : List NodeKind :=
  [sourceFile, useStatement, structDefinition, functionDefinition, externFunctionDefinition,
   parameter, mutMarker, comment, error, primitiveType, stringType, typeIdentifier, arrayType,
   pointerType, refType, genericType, block, returnStatement, variableDeclaration,
   variableAssignment, fieldAssignment, arrayAssignment, ifStatement, whileStatement, forStatement,
   breakStatement, continueStatement, callStatement, matchStatement, binaryExpression, operator,
   number, charLiteral, stringLiteral, stringContent, escapeSequence, null, trueLiteral,
   falseLiteral, callExpression, fieldAccess, identifier, matchExpression, matchArm, constantList,
   typecast, arrayAccess, structInitialization, fieldInit, range]

/-- All labels. -/
def Label.all : List Label :=
  [name, type, mutability, value, object, function, left, operator, right, ifBlock, elseBlock,
   funcBlock, returnType]

theorem NodeKind.mem_all (kind : NodeKind) : kind ∈ all := by cases kind <;> decide

theorem Label.mem_all (label : Label) : label ∈ all := by cases label <;> decide

theorem NodeKind.name_injective : Function.Injective name := by
  have hnodup : (all.map name).Nodup := by decide +kernel
  intro kind kind' h
  exact List.inj_on_of_nodup_map hnodup kind.mem_all kind'.mem_all h

/-- Nothing ends the name of a kind within it. -/
theorem NodeKind.all_name (kind : NodeKind) : kind.name.toList.all (!endsName ·) := by
  have hall : all.all (·.name.toList.all (!endsName ·)) := by decide +kernel
  exact List.all_eq_true.mp hall kind kind.mem_all

namespace Node

/-- The labels under which a node can be held, if under any. -/
theorem mem_labels (label : Option Label) : label ∈ none :: Label.all.map some := by
  cases label with
  | none => simp
  | some label => simp [label.mem_all]

theorem labelText_injective : Function.Injective labelText := by
  have hnodup : ((none :: Label.all.map some).map labelText).Nodup := by decide +kernel
  intro label label' h
  exact List.inj_on_of_nodup_map hnodup (mem_labels label) (mem_labels label') h

/-- There is no parenthesis in a label. -/
theorem all_labelText (label : Option Label) : (labelText label).toList.all (· != '(') := by
  have hall : (none :: Label.all.map some).all fun l => (labelText l).toList.all (· != '(') := by
    decide +kernel
  exact List.all_eq_true.mp hall label (mem_labels label)

end Node

/-! ### Texts -/

/-- How the text of a node stands in the written tree. -/
inductive Wording where
  | silent
  | bare
  | quoted
deriving DecidableEq

namespace Wording

/-- The texts that stand so: none, one that ends like a name, or one in quotes. -/
def Allows : Wording → Option String → Prop
  | silent, text => text = none
  | bare, text => ∃ word, text = some word ∧ word.toList.all (!endsName ·)
  | quoted, text => ∃ raw, text = some (Text.quoted raw)

/-- What stands behind the name of the kind, in front of `cs`. -/
def before (text : Option String) (cs : List Char) : List Char :=
  match text with
  | none => cs
  | some text => ' ' :: (text.toList ++ cs)

theorem before_ends (text : Option String) {x : Char} (hx : endsName x) (cs : List Char) :
    ∃ y ds, before text (x :: cs) = y :: ds ∧ endsName y := by
  cases text with
  | none => exact ⟨x, cs, rfl, hx⟩
  | some text => exact ⟨' ', _, rfl, rfl⟩

/-- Two texts that stand in the same way, up to what stands behind them. -/
theorem Allows.cancel {wording : Wording} {text text' : Option String}
    (h : wording.Allows text) (h' : wording.Allows text') {x y : Char} (hx : endsName x)
    (hy : endsName y) {cs ds : List Char} (heq : before text (x :: cs) = before text' (y :: ds)) :
    text = text' ∧ x :: cs = y :: ds := by
  cases wording with
  | silent =>
    obtain rfl : text = none := h
    obtain rfl : text' = none := h'
    exact ⟨rfl, heq⟩
  | bare =>
    obtain ⟨word, rfl, hword⟩ := h
    obtain ⟨word', rfl, hword'⟩ := h'
    obtain ⟨hsame, hbehind⟩ := cancel_stop endsName hword hword' hx hy (List.cons.inj heq).2
    exact ⟨congrArg some (String.toList_inj.mp hsame), hbehind⟩
  | quoted =>
    obtain ⟨raw, rfl⟩ := h
    obtain ⟨raw', rfl⟩ := h'
    obtain ⟨rfl, hbehind⟩ := Text.quoted_cancel (List.cons.inj heq).2
    exact ⟨rfl, hbehind⟩

end Wording

/-- How the texts of nodes of this kind stand in the written tree. -/
def NodeKind.wording : NodeKind → Wording
  | .identifier | .typeIdentifier | .primitiveType | .operator | .number | .range => .bare
  | .comment | .stringContent | .escapeSequence => .quoted
  | _ => .silent

namespace Node

/-- The node has a text as its kind has one. -/
def Legible (n : Node) : Prop := n.kind.wording.Allows n.text

theorem toList_title (kind : NodeKind) (text : Option String) (cs : List Char) :
    (title kind text).toList ++ cs = kind.name.toList ++ Wording.before text cs := by
  cases text with
  | none => rfl
  | some text => simp [title, Wording.before, String.toList_append]

/-- What a node says by its kind and its text, up to its children or its end. -/
theorem title_cancel {n m : Node} (hn : n.Legible) (hm : m.Legible) {x y : Char}
    (hx : endsName x) (hy : endsName y) {cs ds : List Char}
    (h : (title n.kind n.text).toList ++ x :: cs = (title m.kind m.text).toList ++ y :: ds) :
    n.kind = m.kind ∧ n.text = m.text ∧ x :: cs = y :: ds := by
  rw [toList_title, toList_title] at h
  obtain ⟨x', cs', hcs, hx'⟩ := Wording.before_ends n.text hx cs
  obtain ⟨y', ds', hds, hy'⟩ := Wording.before_ends m.text hy ds
  rw [hcs, hds] at h
  obtain ⟨hname, hbehind⟩ :=
    cancel_stop endsName (NodeKind.all_name _) (NodeKind.all_name _) hx' hy' h
  have hkind := NodeKind.name_injective (String.toList_inj.mp hname)
  rw [← hcs, ← hds] at hbehind
  unfold Legible at hm
  rw [← hkind] at hm
  exact ⟨hkind, hn.cancel hm hx hy hbehind⟩

/-! ### Trees -/

/-- The nodes are equal as labelled trees: they have the same kind, the same text, and as many
children, under the same labels, which are equal one by one. -/
inductive Alike : Node → Node → Prop
  | mk {n m : Node} (hkind : n.kind = m.kind) (htext : n.text = m.text)
    (hlabels : n.children.map (·.label) = m.children.map (·.label))
    (hchildren : List.Forall₂ Alike n.children m.children) : Alike n m

theorem sexp_eq (n : Node) :
    n.sexp = "(" ++ title n.kind n.text ++ sexps n.children ++ ")" := by
  obtain ⟨kind, span, text, label, children⟩ := n
  rw [sexp]

theorem toList_sexp (n : Node) (cs : List Char) :
    n.sexp.toList ++ cs =
      '(' :: ((title n.kind n.text).toList ++ ((sexps n.children).toList ++ ')' :: cs)) := by
  simp [sexp_eq, String.toList_append]

theorem toList_sexps_cons (n : Node) (ns : List Node) (cs : List Char) :
    (sexps (n :: ns)).toList ++ cs =
      ' ' :: ((labelText n.label).toList ++ (n.sexp.toList ++ ((sexps ns).toList ++ cs))) := by
  simp [sexps, String.toList_append]

/-- What a node says ends behind it, whether children stand there or not. -/
theorem toList_sexps_ends (ns : List Node) (cs : List Char) :
    ∃ x ds, (sexps ns).toList ++ ')' :: cs = x :: ds ∧ endsName x := by
  cases ns with
  | nil => exact ⟨')', cs, rfl, rfl⟩
  | cons n ns => exact ⟨' ', _, toList_sexps_cons n ns _, rfl⟩

theorem sizeOf_children_lt (n : Node) : sizeOf n.children < sizeOf n := by
  obtain ⟨kind, span, text, label, children⟩ := n
  simp only [mk.sizeOf_spec]
  omega

mutual

/-- A text starts with one written tree at most. -/
theorem sexp_cancel {n m : Node} (hn : n.Everywhere Legible) (hm : m.Everywhere Legible)
    {cs ds : List Char} (h : n.sexp.toList ++ cs = m.sexp.toList ++ ds) :
    n.Alike m ∧ cs = ds := by
  rw [toList_sexp, toList_sexp] at h
  obtain ⟨x, cs', hcs, hx⟩ := toList_sexps_ends n.children cs
  obtain ⟨y, ds', hds, hy⟩ := toList_sexps_ends m.children ds
  have htitle := (List.cons.inj h).2
  rw [hcs, hds] at htitle
  obtain ⟨hkind, htext, hbehind⟩ := title_cancel hn.here hm.here hx hy htitle
  rw [← hcs, ← hds] at hbehind
  have hsize := sizeOf_children_lt n
  obtain ⟨hlabels, hchildren, hrest⟩ :=
    sexps_cancel hn.of_mem_children hm.of_mem_children hbehind
  exact ⟨.mk hkind htext hlabels hchildren, hrest⟩
termination_by sizeOf n

theorem sexps_cancel {ns ms : List Node} (hns : ∀ n ∈ ns, n.Everywhere Legible)
    (hms : ∀ m ∈ ms, m.Everywhere Legible) {cs ds : List Char}
    (h : (sexps ns).toList ++ ')' :: cs = (sexps ms).toList ++ ')' :: ds) :
    ns.map (·.label) = ms.map (·.label) ∧ List.Forall₂ Alike ns ms ∧ cs = ds := by
  match ns, ms with
  | [], [] => exact ⟨rfl, .nil, (List.cons.inj h).2⟩
  | [], m :: ms =>
    rw [toList_sexps_cons] at h
    exact absurd (List.cons.inj h).1 (by decide)
  | n :: ns, [] =>
    rw [toList_sexps_cons] at h
    exact absurd (List.cons.inj h).1 (by decide)
  | n :: ns, m :: ms =>
    rw [toList_sexps_cons, toList_sexps_cons] at h
    have hlabelled := (List.cons.inj h).2
    rw [toList_sexp, toList_sexp] at hlabelled
    obtain ⟨hlabel, hnodes⟩ :=
      cancel_stop (· == '(') (all_labelText _) (all_labelText _) rfl rfl hlabelled
    rw [← toList_sexp, ← toList_sexp] at hnodes
    obtain ⟨halike, hbehind⟩ := sexp_cancel (hns n (by simp)) (hms m (by simp)) hnodes
    obtain ⟨hlabels, hrest, hend⟩ := sexps_cancel (fun k hk => hns k (by simp [hk]))
      (fun k hk => hms k (by simp [hk])) hbehind
    have hsame := labelText_injective (String.toList_inj.mp hlabel)
    exact ⟨by rw [List.map_cons, List.map_cons, hsame, hlabels], .cons halike hrest, hend⟩
termination_by sizeOf ns

end

mutual

/-- Trees that are alike are written alike. -/
theorem Alike.sexp_eq {n m : Node} (h : n.Alike m) : n.sexp = m.sexp := by
  obtain ⟨hkind, htext, hlabels, hchildren⟩ := h
  have hsize := sizeOf_children_lt n
  rw [sexp_eq, sexp_eq, hkind, htext, sexps_eq_of_alike hlabels hchildren]
termination_by sizeOf n

theorem sexps_eq_of_alike {ns ms : List Node}
    (hlabels : ns.map (·.label) = ms.map (·.label)) (h : List.Forall₂ Alike ns ms) :
    sexps ns = sexps ms := by
  match ns, ms, h with
  | [], [], .nil => rfl
  | n :: ns, m :: ms, .cons halike hrest =>
    obtain ⟨hlabel, hbehind⟩ : n.label = m.label ∧ _ := List.cons.inj hlabels
    rw [sexps, sexps, hlabel, halike.sexp_eq, sexps_eq_of_alike hbehind hrest]
termination_by sizeOf ns

end

/-- Two trees are written alike just if they are alike. -/
theorem sexp_eq_iff {n m : Node} (hn : n.Everywhere Legible) (hm : m.Everywhere Legible) :
    n.sexp = m.sexp ↔ n.Alike m := by
  constructor
  · intro h
    have hlists : n.sexp.toList ++ [] = m.sexp.toList ++ [] := by rw [h]
    exact (sexp_cancel hn hm hlists).1
  · exact Alike.sexp_eq

end Node

end FrontEnd
