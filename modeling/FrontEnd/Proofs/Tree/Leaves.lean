/-
What the leaves of a tree come from.

A leaf says what the token says that it was read from, a part of a literal is a part of the
token, and a comment is one of the comments.  All other nodes have no text of their own.  A
skipped stretch keeps nothing but its place, and only there an integer literal out of range can
be: no node is made of one.

* `Node.Sourced` — what a node says comes from one of some tokens or comments;
* `Builds.tells` — so it is for all nodes that are built over the tokens;
* `parseSource_sourced` — so it is for the tree of every text;
* `Builds.exists_skips` — an integer literal out of range lies in a skipped stretch.
-/
import FrontEnd.Proofs.Tree.Building

namespace FrontEnd

variable {C : Comment → Prop} {t : Token} {ts us : List Token} {n : Node} {ns : List Node}

/-- The node is a block, a skipped stretch or made of its children.  It has no text, but for a
range. -/
def Node.IsSilent (n : Node) : Prop :=
  n.kind = .block ∧ n.text = none ∨ n.kind = .error ∧ n.text = none ∨ n.isCompound

/-- What the node says is said by one of the tokens, or by a comment that `C` holds of, or the
node says nothing. -/
inductive Node.Sourced (C : Comment → Prop) (ts : List Token) : Node → Prop
  | leaf {t : Token} {n : Node} (ht : t ∈ ts) (h : t.Leaf n) : Sourced C ts n
  | part {t : Token} {quote : Char} {part : LiteralPart} (ht : t ∈ ts)
    (hquote : t.kind.Quotes quote) (hpart : part ∈ Parser.literalParts t quote) :
    Sourced C ts part.toNode
  | comment {c : Comment} (h : C c) : Sourced C ts c.toNode
  | silent {n : Node} (h : n.IsSilent) : Sourced C ts n
  | labelled {n : Node} (h : Sourced C ts n) (label : Label) : Sourced C ts (n.labelled label)

namespace Node.Sourced

theorem mono (h : n.Sourced C ts) (hsub : ts ⊆ us) : n.Sourced C us := by
  induction h with
  | leaf ht h => exact .leaf (hsub ht) h
  | part ht hquote hpart => exact .part (hsub ht) hquote hpart
  | comment h => exact .comment h
  | silent h => exact .silent h
  | labelled _ label ih => exact ih.labelled label

end Node.Sourced

/-- All nodes that are made of the tokens say what these and the comments say. -/
def Tells (C : Comment → Prop) (ts : List Token) (ns : List Node) : Prop :=
  ∀ n ∈ ns, n.Everywhere (·.Sourced C ts)

namespace Tells

variable {ms : List Node}

theorem nil : Tells C ts [] := by
  intro n hn
  exact absurd hn List.not_mem_nil

theorem mono (h : Tells C ts ns) (hsub : ts ⊆ us) : Tells C us ns :=
  fun n hn => (h n hn).imp fun _ hm => hm.mono hsub

theorem append (h : Tells C ts ns) (h' : Tells C us ms) : Tells C (ts ++ us) (ns ++ ms) := by
  intro n hn
  rcases List.mem_append.mp hn with hn | hn
  · exact h.mono (List.subset_append_left ts us) n hn
  · exact h'.mono (List.subset_append_right ts us) n hn

theorem node (here : n.Sourced C ts) (h : Tells C ts n.children) : Tells C ts [n] := by
  intro m hm
  obtain rfl := List.mem_singleton.mp hm
  exact .mk here h

theorem labelled (h : Tells C ts [n]) (label : Label) : Tells C ts [n.labelled label] := by
  intro m hm
  obtain rfl := List.mem_singleton.mp hm
  exact (h n (by simp)).labelled fun here => here.labelled label

end Tells

/-- What grows over tokens says what they say. -/
theorem Grows.tells (h : Grows ts ns) : Tells C ts ns := by
  induction h with
  | tokens => exact .nil
  | append _ _ ih ih' => exact ih.append ih'
  | cover _ _ _ hkind ih => exact .node (.silent (.inr (.inr hkind))) ih
  | leaf h =>
    refine .node (.leaf (by simp) h) ?_
    rw [h.children_eq]
    exact .nil
  | literal hquote _ hchildren hkind =>
    refine .node (.silent (.inr (.inr hkind))) ?_
    rw [hchildren]
    intro m hm
    obtain ⟨part, hpart, rfl⟩ := List.mem_map.mp hm
    exact .mk (.part (by simp) hquote hpart) (by simp [LiteralPart.toNode])
  | inner _ _ _ _ hkind ih =>
    exact .node (.silent (.inr (.inr hkind))) (ih.mono (List.subset_cons_self _ _))
  | hull _ hchildren _ _ hkind ih =>
    refine .node (.silent (.inr (.inr hkind))) ?_
    rw [hchildren]
    exact ih
  | labelled _ label ih => exact ih.labelled label

/-- What is built over tokens says what they and the comments say. -/
theorem Builds.tells (h : Builds C ts ns) : Tells C ts ns := by
  induction h with
  | grows h => exact h.tells
  | append _ _ ih ih' => exact ih.append ih'
  | cover _ _ _ hkind ih => exact .node (.silent (hkind.imp_right .inr)) ih
  | skipped => exact .node (.silent (.inr (.inl ⟨rfl, rfl⟩))) .nil
  | comments h =>
    intro m hm
    obtain ⟨c, hc, rfl⟩ := List.mem_map.mp hm
    exact .mk (.comment (h c hc)) (by simp [Comment.toNode])
  | labelled _ label ih => exact ih.labelled label
  | perm _ hperm ih => exact fun m hm => ih m (hperm.mem_iff.mpr hm)

/-- What the nodes of the tree of a text say comes from its tokens and comments. -/
theorem parseSource_sourced (source : String) :
    (parseSource source).file.toNode.Everywhere
      (·.Sourced (startOf source).Holds (startOf source).rest) :=
  .mk (.silent (.inr (.inr rfl))) (parseSource_builds source).tells

/-! ### Integer literals out of range -/

theorem inRange_of_isMark (h : t.kind.isMark) : InRange [t] := by
  refine inRange_of_ne_number fun hkind => ?_
  rw [hkind] at h
  exact nomatch h

theorem Token.Leaf.inRange (h : t.Leaf n) : InRange [t] := by
  cases h with
  | number _ hvalue hlimit => exact inRange_singleton (Token.not_overflows hvalue hlimit)
  | name ht | typeName ht | primitive ht | operator ht | keyword _ ht =>
    exact inRange_of_ne_number (by rw [ht]; simp)

/-- Nothing grows over an integer literal that is out of range. -/
theorem Grows.inRange (h : Grows ts ns) : InRange ts := by
  induction h with
  | tokens h => exact fun t ht => inRange_of_isMark (h t ht) t (by simp)
  | append _ _ ih ih' => exact ih.append ih'
  | cover _ _ _ _ ih => exact ih
  | leaf h => exact h.inRange
  | literal hquote =>
    refine inRange_of_ne_number fun hkind => ?_
    rw [hkind] at hquote
    exact nomatch hquote
  | inner hmarks _ _ _ _ ih => exact (inRange_of_isMark (by rw [hmarks]; rfl)).append ih
  | hull _ _ _ _ _ ih => exact ih
  | labelled _ _ ih => exact ih

/-- The node is a skipped stretch over some of the tokens, next to each other, of which `t` is
one. -/
def Node.Skips (ts : List Token) (t : Token) (n : Node) : Prop :=
  n.kind = .error ∧ n.children = [] ∧ ∃ us, us <:+: ts ∧ t ∈ us ∧ n.span = covering us

theorem Node.Skips.mono (h : n.Skips ts t) (hsub : ts <:+: us) : n.Skips us t := by
  obtain ⟨hkind, hchildren, vs, hvs, ht, hspan⟩ := h
  exact ⟨hkind, hchildren, vs, hvs.trans hsub, ht, hspan⟩

theorem Node.mem_nodes_of_mem_children {c m : Node} (hc : c ∈ n.children) (hm : m ∈ c.nodes) :
    m ∈ n.nodes := by
  rw [Node.nodes_eq]
  exact List.mem_cons_of_mem n (List.mem_flatMap.mpr ⟨c, hc, hm⟩)

theorem Node.mem_nodes_self (n : Node) : n ∈ n.nodes := by
  rw [Node.nodes_eq]
  exact List.mem_cons_self

/-- An integer literal out of range lies in a skipped stretch. -/
theorem Builds.exists_skips (h : Builds C ts ns) (ht : t ∈ ts) (hover : t.Overflows) :
    ∃ n ∈ ns, ∃ m ∈ n.nodes, m.Skips ts t := by
  induction h with
  | grows h => exact absurd hover (h.inRange t ht)
  | @append ts us ns ms _ _ ih ih' =>
    rcases List.mem_append.mp ht with ht | ht
    · obtain ⟨n, hn, m, hm, hskips⟩ := ih ht
      exact ⟨n, List.mem_append_left ms hn, m, hm,
        hskips.mono (List.prefix_append ts us).isInfix⟩
    · obtain ⟨n, hn, m, hm, hskips⟩ := ih' ht
      exact ⟨n, List.mem_append_right ns hn, m, hm,
        hskips.mono (List.suffix_append ts us).isInfix⟩
  | @cover ts n _ _ _ _ ih =>
    obtain ⟨c, hc, m, hm, hskips⟩ := ih ht
    exact ⟨n, by simp, m, Node.mem_nodes_of_mem_children hc hm, hskips⟩
  | @skipped ts =>
    exact ⟨errorNode (covering ts), List.mem_singleton_self _, errorNode (covering ts),
      Node.mem_nodes_self _, rfl, rfl, ts, List.infix_refl ts, ht, rfl⟩
  | comments => exact absurd ht List.not_mem_nil
  | @labelled ts n _ label ih =>
    obtain ⟨n', hn, m, hm, hskips⟩ := ih ht
    obtain rfl := List.mem_singleton.mp hn
    refine ⟨n'.labelled label, List.mem_singleton_self _, ?_⟩
    rw [Node.nodes_eq] at hm
    rcases List.mem_cons.mp hm with rfl | hm
    · exact ⟨m.labelled label, Node.mem_nodes_self _, hskips⟩
    · obtain ⟨c, hc, hm⟩ := List.mem_flatMap.mp hm
      exact ⟨m, Node.mem_nodes_of_mem_children hc hm, hskips⟩
  | perm _ hperm ih =>
    obtain ⟨n, hn, m, hm, hskips⟩ := ih ht
    exact ⟨n, hperm.mem_iff.mp hn, m, hm, hskips⟩

end FrontEnd
