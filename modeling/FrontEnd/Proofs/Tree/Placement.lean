/-
Tokens and nodes at their places.

The tokens of a text stand one after the other, and so do the nodes that are made of them:

* `TokensAt` — tokens between two offsets, in order;
* `Node.Nested` — a node does not end before it starts, its children other than comments lie
  inside it, and all of its children stand one after the other;
* `Node.Covers` — a block leaves no token out: each one between its braces lies inside just one of
  its statements;
* `Node.Sound` — both, and `Node.Everywhere` says it of a node and all below it;
* `NodesAt` — sound nodes between two offsets, in order;
* `Spread` — nodes lie wherever given tokens lie.

A construct that is written with tokens covers them, so that `Spread` goes from the parts of
a construct to the whole (`Spread.cover`).
-/
import FrontEnd.Proofs.Grammar.Sequence
import FrontEnd.Proofs.Parser.Nesting
import FrontEnd.Source.Bytes
import FrontEnd.Tree.Node

namespace FrontEnd

/-! ### Tokens in order -/

/-- The token covers just its text, which is not empty. -/
structure Token.Fits (t : Token) : Prop where
  text_ne_nil : t.text.toList ≠ []
  stop : t.span.stop.offset = t.span.start.offset + byteLength t.text.toList

theorem Token.Fits.start_lt_stop {t : Token} (h : t.Fits) :
    t.span.start.offset < t.span.stop.offset := by
  have hpos := byteLength_pos h.text_ne_nil
  rw [h.stop]
  omega

/-- The tokens stand one after the other between two offsets. -/
def TokensAt : Nat → List Token → Nat → Prop
  | lo, [], hi => lo ≤ hi
  | lo, t :: ts, hi => lo ≤ t.span.start.offset ∧ t.Fits ∧ TokensAt t.span.stop.offset ts hi

namespace TokensAt

variable {lo hi lo' hi' : Nat} {t : Token} {ts us : List Token}

theorem le (h : TokensAt lo ts hi) : lo ≤ hi := by
  induction ts generalizing lo with
  | nil => exact h
  | cons t ts ih =>
    obtain ⟨hlo, hfits, hrest⟩ := h
    have hlt := hfits.start_lt_stop
    have hle := ih hrest
    omega

theorem mono (h : TokensAt lo ts hi) (hlo : lo' ≤ lo) (hhi : hi ≤ hi') : TokensAt lo' ts hi' := by
  induction ts generalizing lo lo' with
  | nil =>
    have hle : lo ≤ hi := h
    show lo' ≤ hi'
    omega
  | cons t ts ih =>
    obtain ⟨hstart, hfits, hrest⟩ := h
    exact ⟨Nat.le_trans hlo hstart, hfits, ih hrest (Nat.le_refl _)⟩

theorem append (h : TokensAt lo ts lo') (h' : TokensAt lo' us hi) : TokensAt lo (ts ++ us) hi := by
  induction ts generalizing lo with
  | nil => exact h'.mono h (Nat.le_refl _)
  | cons t ts ih =>
    obtain ⟨hstart, hfits, hrest⟩ := h
    exact ⟨hstart, hfits, ih hrest⟩

theorem split (h : TokensAt lo (ts ++ us) hi) :
    ∃ mid, TokensAt lo ts mid ∧ TokensAt mid us hi := by
  induction ts generalizing lo with
  | nil => exact ⟨lo, Nat.le_refl lo, h⟩
  | cons t ts ih =>
    obtain ⟨hstart, hfits, hrest⟩ := h
    obtain ⟨mid, hts, hus⟩ := ih hrest
    exact ⟨mid, ⟨hstart, hfits, hts⟩, hus⟩

theorem of_mem (h : TokensAt lo ts hi) (ht : t ∈ ts) :
    lo ≤ t.span.start.offset ∧ t.Fits ∧ t.span.stop.offset ≤ hi := by
  obtain ⟨before, behind, rfl⟩ := List.append_of_mem ht
  obtain ⟨mid, hbefore, hstart, hfits, hbehind⟩ := h.split
  exact ⟨Nat.le_trans hbefore.le hstart, hfits, hbehind.le⟩

theorem pairwise (h : TokensAt lo ts hi) :
    ts.Pairwise fun t u => t.span.stop.offset ≤ u.span.start.offset := by
  induction ts generalizing lo with
  | nil => exact .nil
  | cons t ts ih => exact .cons (fun u hu => (h.2.2.of_mem hu).1) (ih h.2.2)

/-- Tokens from a place before them up to the end of the last. -/
theorem spanning (h : TokensAt lo ts hi) (hne : ts ≠ []) {p : Position} (hp : p.offset ≤ lo) :
    TokensAt lo ts (spanning p ts).stop.offset ∧ (spanning p ts).stop.offset ≤ hi := by
  obtain ⟨us, t, rfl⟩ := List.eq_nil_or_concat ts |>.resolve_left hne
  rw [List.concat_eq_append] at h ⊢
  obtain ⟨mid, hus, hstart, hfits, hhi⟩ := h.split
  have hlt := hfits.start_lt_stop
  have hmid := hus.le
  have hstop : FrontEnd.spanning p (us ++ [t]) = ⟨p, t.span.stop⟩ := by
    rw [spanning_append p us [t] (by simp)]
    show (if t.span.stop.offset < p.offset then _ else _) = _
    rw [if_neg (by omega)]
    rfl
  rw [hstop]
  exact ⟨hus.append ⟨hstart, hfits, Nat.le_refl _⟩, hhi⟩

/-- Tokens between two offsets lie between the ends of what they cover. -/
theorem covering (h : TokensAt lo ts hi) (hne : ts ≠ []) :
    lo ≤ (covering ts).start.offset ∧
      TokensAt (covering ts).start.offset ts (covering ts).stop.offset ∧
      (covering ts).stop.offset ≤ hi := by
  cases ts with
  | nil => exact absurd rfl hne
  | cons t ts =>
    obtain ⟨hstart, hfits, hrest⟩ := h
    have htight : TokensAt t.span.start.offset (t :: ts) hi := ⟨Nat.le_refl _, hfits, hrest⟩
    obtain ⟨hinside, hhi⟩ := htight.spanning hne (Nat.le_refl _)
    rw [covering_cons, spanning_start]
    exact ⟨hstart, hinside, hhi⟩

end TokensAt

/-! ### Nodes -/

theorem Span.contains_iff {a b : Span} :
    a.contains b ↔ a.start.offset ≤ b.start.offset ∧ b.stop.offset ≤ a.stop.offset := by
  simp [Span.contains]

namespace Node

@[simp] theorem span_labelled (n : Node) (label : Label) : (n.labelled label).span = n.span := rfl

/-- The node does not end before it starts, its children other than comments lie inside it,
and its children stand one after the other. -/
structure Nested (n : Node) : Prop where
  ordered : n.span.start.offset ≤ n.span.stop.offset
  inside : ∀ c ∈ n.children, c.kind ≠ .comment → n.span.contains c.span
  apart : n.children.Pairwise fun a b => a.span.stop.offset ≤ b.span.start.offset

/-- How many of the nodes, comments apart, a token lies inside. -/
def holding (t : Token) (ns : List Node) : Nat :=
  ns.countP fun n => n.kind ≠ .comment ∧ n.span.contains t.span

/-- Of the tokens `T` of a text, those inside the node are an opening brace, tokens each of
which lies inside just one of the children that are no comments, and perhaps the closing brace
that matches. -/
def Covers (T : List Token) (n : Node) : Prop :=
  ∃ o ts closing, T.filter (fun t => n.span.contains t.span) = o :: (ts ++ closing) ∧
    o.kind = .symbol .openCurly ∧
    (closing = [] ∨ ∃ c, closing = [c] ∧ c.kind = .symbol .closeCurly ∧ Balanced ts) ∧
    ∀ t ∈ ts, holding t n.children = 1

/-- The node is nested, and a block leaves no token out. -/
structure Sound (T : List Token) (n : Node) : Prop where
  nested : n.Nested
  covers : n.kind = .block → n.Covers T

/-- The node and all nodes below it satisfy `P`. -/
inductive Everywhere (P : Node → Prop) : Node → Prop
  | mk {n : Node} (here : P n) (below : ∀ c ∈ n.children, Everywhere P c) : Everywhere P n

variable {P : Node → Prop} {n : Node}

theorem Everywhere.here (h : n.Everywhere P) : P n := by
  cases h with
  | mk here _ => exact here

theorem Everywhere.of_mem_children (h : n.Everywhere P) : ∀ c ∈ n.children, c.Everywhere P := by
  cases h with
  | mk _ below => exact below

theorem Everywhere.imp {Q : Node → Prop} (h : n.Everywhere P) (himp : ∀ m, P m → Q m) :
    n.Everywhere Q := by
  induction h with
  | mk here _ ih => exact .mk (himp _ here) ih

theorem Everywhere.labelled (h : n.Everywhere P) {label : Label}
    (himp : P n → P (n.labelled label)) : (n.labelled label).Everywhere P :=
  .mk (himp h.here) h.of_mem_children

mutual

/-- What holds everywhere holds of every node that a walk over the tree visits. -/
theorem Everywhere.of_mem_preorder {n : Node} (h : n.Everywhere P) {depth : Nat}
    {entry : Nat × Node} (hentry : entry ∈ n.preorder depth) : P entry.2 := by
  match n, h, hentry with
  | ⟨kind, span, text, label, children⟩, h, hentry =>
    rw [preorder, List.mem_cons] at hentry
    rcases hentry with rfl | hbelow
    · exact h.here
    · exact Everywhere.of_mem_preorders h.of_mem_children hbelow

theorem Everywhere.of_mem_preorders {ns : List Node} (h : ∀ n ∈ ns, n.Everywhere P)
    {depth : Nat} {entry : Nat × Node} (hentry : entry ∈ preorders depth ns) : P entry.2 := by
  match ns, h, hentry with
  | [], h, hentry => simp [preorders] at hentry
  | n :: ns, h, hentry =>
    rw [preorders, List.mem_append] at hentry
    rcases hentry with hfirst | hrest
    · exact Everywhere.of_mem_preorder (h n (by simp)) hfirst
    · exact Everywhere.of_mem_preorders (fun m hm => h m (by simp [hm])) hrest

end

end Node

/-! ### Nodes in order -/

/-- The nodes are sound and stand one after the other between two offsets. -/
def NodesAt (T : List Token) : Nat → List Node → Nat → Prop
  | lo, [], hi => lo ≤ hi
  | lo, n :: ns, hi => lo ≤ n.span.start.offset ∧ n.Everywhere (Node.Sound T) ∧
      NodesAt T n.span.stop.offset ns hi

namespace NodesAt

variable {T : List Token} {lo hi lo' hi' : Nat} {n : Node} {ns ms : List Node}

theorem le (h : NodesAt T lo ns hi) : lo ≤ hi := by
  induction ns generalizing lo with
  | nil => exact h
  | cons n ns ih =>
    obtain ⟨hstart, hsound, hrest⟩ := h
    have hordered := hsound.here.nested.ordered
    have hle := ih hrest
    omega

theorem mono (h : NodesAt T lo ns hi) (hlo : lo' ≤ lo) (hhi : hi ≤ hi') :
    NodesAt T lo' ns hi' := by
  induction ns generalizing lo lo' with
  | nil =>
    have hle : lo ≤ hi := h
    show lo' ≤ hi'
    omega
  | cons n ns ih =>
    obtain ⟨hstart, hsound, hrest⟩ := h
    exact ⟨Nat.le_trans hlo hstart, hsound, ih hrest (Nat.le_refl _)⟩

theorem append (h : NodesAt T lo ns lo') (h' : NodesAt T lo' ms hi) :
    NodesAt T lo (ns ++ ms) hi := by
  induction ns generalizing lo with
  | nil => exact h'.mono h (Nat.le_refl _)
  | cons n ns ih =>
    obtain ⟨hstart, hsound, hrest⟩ := h
    exact ⟨hstart, hsound, ih hrest⟩

theorem split (h : NodesAt T lo (ns ++ ms) hi) :
    ∃ mid, NodesAt T lo ns mid ∧ NodesAt T mid ms hi := by
  induction ns generalizing lo with
  | nil => exact ⟨lo, Nat.le_refl lo, h⟩
  | cons n ns ih =>
    obtain ⟨hstart, hsound, hrest⟩ := h
    obtain ⟨mid, hns, hms⟩ := ih hrest
    exact ⟨mid, ⟨hstart, hsound, hns⟩, hms⟩

theorem of_mem (h : NodesAt T lo ns hi) (hn : n ∈ ns) :
    lo ≤ n.span.start.offset ∧ n.Everywhere (Node.Sound T) ∧ n.span.stop.offset ≤ hi := by
  obtain ⟨before, behind, rfl⟩ := List.append_of_mem hn
  obtain ⟨mid, hbefore, hstart, hsound, hbehind⟩ := h.split
  exact ⟨Nat.le_trans hbefore.le hstart, hsound, hbehind.le⟩

theorem pairwise (h : NodesAt T lo ns hi) :
    ns.Pairwise fun a b => a.span.stop.offset ≤ b.span.start.offset := by
  induction ns generalizing lo with
  | nil => exact .nil
  | cons n ns ih =>
    obtain ⟨-, -, hrest⟩ := h
    exact .cons (fun m hm => (hrest.of_mem hm).1) (ih hrest)

/-- A node around nodes that stand in order is nested. -/
theorem nested (h : NodesAt T lo n.children hi) (hlo : n.span.start.offset ≤ lo)
    (hhi : hi ≤ n.span.stop.offset) : n.Nested where
  ordered := Nat.le_trans hlo (Nat.le_trans h.le hhi)
  inside c hc _ := by
    obtain ⟨hstart, -, hstop⟩ := h.of_mem hc
    exact Span.contains_iff.mpr ⟨Nat.le_trans hlo hstart, Nat.le_trans hstop hhi⟩
  apart := h.pairwise

/-- A node other than a block around nodes that stand in order is sound. -/
theorem everywhere (h : NodesAt T lo n.children hi) (hlo : n.span.start.offset ≤ lo)
    (hhi : hi ≤ n.span.stop.offset) (hkind : n.kind ≠ .block) :
    n.Everywhere (Node.Sound T) :=
  .mk ⟨h.nested hlo hhi, fun hblock => absurd hblock hkind⟩ fun _ hc => (h.of_mem hc).2.1

end NodesAt

/-! ### Nodes made of tokens -/

/-- Wherever the tokens stand in order, the nodes do. -/
def Spread (T : List Token) (ts : List Token) (ns : List Node) : Prop :=
  ∀ lo hi, TokensAt lo ts hi → NodesAt T lo ns hi

namespace Spread

variable {T : List Token} {t : Token} {ts us : List Token} {n : Node} {ns ms : List Node}

theorem append (h : Spread T ts ns) (h' : Spread T us ms) : Spread T (ts ++ us) (ns ++ ms) := by
  intro lo hi htokens
  obtain ⟨mid, hts, hus⟩ := htokens.split
  exact (h lo mid hts).append (h' mid hi hus)

/-- A token that no node is made of. -/
theorem token (h : Spread T ts ns) : Spread T (t :: ts) ns := by
  intro lo hi htokens
  obtain ⟨hstart, hfits, hrest⟩ := htokens
  have hlt := hfits.start_lt_stop
  exact (h _ hi hrest).mono (by omega) (Nat.le_refl _)

/-- Tokens that no node is made of. -/
theorem tokens : Spread T ts [] := fun _ _ h => h.le

theorem tokens_behind (h : Spread T ts ns) : Spread T (ts ++ us) ns := by
  have hboth := h.append (tokens : Spread T us [])
  rwa [List.append_nil] at hboth

/-- A node that covers its tokens, around the nodes they are made into. -/
theorem cover (h : Spread T ts n.children) (hne : ts ≠ []) (hspan : n.span = covering ts)
    (hkind : n.kind ≠ .block) : Spread T ts [n] := by
  intro lo hi htokens
  obtain ⟨hlo, hinside, hhi⟩ := htokens.covering hne
  rw [← hspan] at hlo hinside hhi
  exact ⟨hlo, (h _ _ hinside).everywhere (Nat.le_refl _) (Nat.le_refl _) hkind, hhi⟩

/-- A node that covers a single token, around nodes inside that token. -/
theorem single (hspan : n.span = t.span)
    (hchildren : t.Fits → NodesAt T t.span.start.offset n.children t.span.stop.offset)
    (hkind : n.kind ≠ .block) : Spread T [t] [n] := by
  intro lo hi htokens
  obtain ⟨hstart, hfits, hhi⟩ := htokens
  have hinside := hchildren hfits
  rw [← hspan] at hstart hhi hinside
  exact ⟨hstart, hinside.everywhere (Nat.le_refl _) (Nat.le_refl _) hkind, hhi⟩

theorem leaf (hspan : n.span = t.span) (hchildren : n.children = []) (hkind : n.kind ≠ .block) :
    Spread T [t] [n] := by
  refine single hspan (fun hfits => ?_) hkind
  rw [hchildren]
  exact Nat.le_of_lt hfits.start_lt_stop

/-- A node that starts with the first of its children and ends with the last. -/
theorem hull {a b : Node} (h : Spread T ts (a :: (ns ++ [b])))
    (hchildren : n.children = a :: (ns ++ [b])) (hstart : n.span.start = a.span.start)
    (hstop : n.span.stop = b.span.stop) (hkind : n.kind ≠ .block) : Spread T ts [n] := by
  intro lo hi htokens
  obtain ⟨hlo, ha, hrest⟩ := h lo hi htokens
  obtain ⟨mid, hns, hb, hsound, hhi⟩ := hrest.split
  have hinside : NodesAt T a.span.start.offset n.children b.span.stop.offset := by
    rw [hchildren]
    exact ⟨Nat.le_refl _, ha, hns.append ⟨hb, hsound, Nat.le_refl _⟩⟩
  rw [← hstart, ← hstop] at hinside
  rw [← hstart] at hlo
  rw [← hstop] at hhi
  exact ⟨hlo, hinside.everywhere (Nat.le_refl _) (Nat.le_refl _) hkind, hhi⟩

/-- A label does not move a node. -/
theorem labelled (h : Spread T ts [n]) (label : Label) : Spread T ts [n.labelled label] := by
  intro lo hi htokens
  obtain ⟨hlo, hsound, hhi⟩ := h lo hi htokens
  have hnested := hsound.here.nested
  refine ⟨hlo, .mk ⟨⟨hnested.ordered, hnested.inside, hnested.apart⟩, ?_⟩ ?_, hhi⟩
  · exact hsound.here.covers
  · exact hsound.of_mem_children

end Spread

end FrontEnd
