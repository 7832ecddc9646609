/-
Which tokens lie inside which nodes.

A node that covers its tokens has just these inside it, out of all the tokens of a text.  So
if nodes are made of consecutive tokens, with nothing but comments between them, then every
one of the tokens lies inside just one of the nodes, comments apart.

* `Laid` — a node is made of tokens and covers them;
* `InRow` — what stands in a row of nodes: such a node, or a comment;
* `TokensAt.filter_covering` — the tokens inside what tokens cover are these tokens;
* `Each.holding_eq_one` — every token of a row lies inside just one of its nodes.
-/
import FrontEnd.Proofs.Tree.Placement

namespace FrontEnd

variable {T : List Token} {lo hi : Nat} {n : Node} {t : Token} {ns : List Node}
  {ts us : List Token}

/-! ### Tokens inside what tokens cover -/

theorem TokensAt.contains_of_mem (h : TokensAt lo ts hi) (ht : t ∈ ts) :
    (FrontEnd.covering ts).contains t.span := by
  obtain ⟨-, hinside, -⟩ := h.covering (List.ne_nil_of_mem ht)
  obtain ⟨hstart, -, hstop⟩ := hinside.of_mem ht
  exact Span.contains_iff.mpr ⟨hstart, hstop⟩

/-- What tokens cover is not empty. -/
theorem TokensAt.covering_lt (h : TokensAt lo ts hi) (hne : ts ≠ []) :
    (FrontEnd.covering ts).start.offset < (FrontEnd.covering ts).stop.offset := by
  obtain ⟨t, ht⟩ := List.exists_mem_of_ne_nil ts hne
  obtain ⟨hstart, hstop⟩ := Span.contains_iff.mp (h.contains_of_mem ht)
  have hlt := (h.of_mem ht).2.1.start_lt_stop
  omega

theorem not_contains_of_stop_le {s : Span} (hfits : t.Fits)
    (h : t.span.stop.offset ≤ s.start.offset) : ¬ s.contains t.span := by
  rw [Span.contains_iff]
  have hlt := hfits.start_lt_stop
  omega

theorem not_contains_of_le_start {s : Span} (hfits : t.Fits)
    (h : s.stop.offset ≤ t.span.start.offset) : ¬ s.contains t.span := by
  rw [Span.contains_iff]
  have hlt := hfits.start_lt_stop
  omega

/-- The tokens of a text inside what some of them cover are these. -/
theorem TokensAt.filter_covering {before behind : List Token}
    (h : TokensAt lo (before ++ (ts ++ behind)) hi) (hne : ts ≠ []) :
    (before ++ (ts ++ behind)).filter (fun t => (FrontEnd.covering ts).contains t.span) = ts := by
  obtain ⟨first, hbefore, hrest⟩ := h.split
  obtain ⟨last, hts, hbehind⟩ := hrest.split
  obtain ⟨hfirst, -, hlast⟩ := hts.covering hne
  have hnone : before.filter (fun t => (FrontEnd.covering ts).contains t.span) = [] := by
    refine List.filter_eq_nil_iff.mpr fun t ht => ?_
    obtain ⟨-, hfits, hstop⟩ := hbefore.of_mem ht
    exact not_contains_of_stop_le hfits (Nat.le_trans hstop hfirst)
  have hnone' : behind.filter (fun t => (FrontEnd.covering ts).contains t.span) = [] := by
    refine List.filter_eq_nil_iff.mpr fun t ht => ?_
    obtain ⟨hstart, hfits, -⟩ := hbehind.of_mem ht
    exact not_contains_of_le_start hfits (Nat.le_trans hlast hstart)
  have hall : ts.filter (fun t => (FrontEnd.covering ts).contains t.span) = ts :=
    List.filter_eq_self.mpr fun t ht => hts.contains_of_mem ht
  rw [List.filter_append, List.filter_append, hnone, hnone', hall, List.nil_append,
    List.append_nil]

/-! ### Nodes that cover their tokens -/

/-- The node is made of the tokens and covers them, and it is no comment. -/
structure Laid (T : List Token) (n : Node) (ts : List Token) : Prop where
  spread : Spread T ts [n]
  span_eq : n.span = covering ts
  ne_nil : ts ≠ []
  kind_ne_comment : n.kind ≠ .comment

namespace Laid

/-- A node that covers its tokens, around the nodes they are made into. -/
theorem cover (h : Spread T ts n.children) (hne : ts ≠ []) (hspan : n.span = covering ts)
    (hblock : n.kind ≠ .block) (hcomment : n.kind ≠ .comment) : Laid T n ts :=
  ⟨.cover h hne hspan hblock, hspan, hne, hcomment⟩

/-- A sound node that covers its tokens, wherever these lie. -/
theorem of_everywhere (h : n.Everywhere (Node.Sound T)) (hne : ts ≠ [])
    (hspan : n.span = covering ts) (hcomment : n.kind ≠ .comment) : Laid T n ts := by
  refine ⟨fun lo hi htokens => ?_, hspan, hne, hcomment⟩
  obtain ⟨hlo, -, hhi⟩ := htokens.covering hne
  rw [← hspan] at hlo hhi
  exact ⟨hlo, h, hhi⟩

theorem start_lt_stop (h : Laid T n ts) (htokens : TokensAt lo ts hi) :
    n.span.start.offset < n.span.stop.offset := by
  rw [h.span_eq]
  exact htokens.covering_lt h.ne_nil

end Laid

/-- The node covers the first of the tokens; those behind it only separate. -/
def Heads (T : List Token) (n : Node) (ts : List Token) : Prop := ∃ us, us <+: ts ∧ Laid T n us

theorem Laid.heads (h : Laid T n ts) : Heads T n ts := ⟨ts, List.prefix_refl ts, h⟩

theorem Heads.spread (h : Heads T n ts) : Spread T ts [n] := by
  obtain ⟨us, ⟨vs, rfl⟩, hlaid⟩ := h
  exact hlaid.spread.tokens_behind

theorem Heads.ne_nil (h : Heads T n ts) : ts ≠ [] := by
  obtain ⟨us, ⟨vs, rfl⟩, hlaid⟩ := h
  simp [hlaid.ne_nil]

/-- A node starts with the first of its tokens. -/
theorem Heads.start_eq (h : Heads T n (t :: ts)) : n.span.start = t.span.start := by
  obtain ⟨us, ⟨vs, hall⟩, hlaid⟩ := h
  cases us with
  | nil => exact absurd rfl hlaid.ne_nil
  | cons u us =>
    obtain ⟨rfl, -⟩ := List.cons.inj hall
    rw [hlaid.span_eq, covering_cons, spanning_start]

theorem Heads.kind_ne_comment (h : Heads T n ts) : n.kind ≠ .comment := by
  obtain ⟨us, -, hlaid⟩ := h
  exact hlaid.kind_ne_comment

theorem Heads.start_lt_stop (h : Heads T n ts) (htokens : TokensAt lo ts hi) :
    n.span.start.offset < n.span.stop.offset := by
  obtain ⟨us, ⟨vs, rfl⟩, hlaid⟩ := h
  obtain ⟨mid, hus, -⟩ := htokens.split
  exact hlaid.start_lt_stop hus

/-! ### Rows of nodes -/

/-- What stands in a row: a comment, which is made of no tokens, or a node that is made of
tokens as `V` says. -/
inductive InRow (V : Node → List Token → Prop) : Node → List Token → Prop
  | comment {n : Node} (h : n.kind = .comment) : InRow V n []
  | made {n : Node} {ts : List Token} (h : V n ts) : InRow V n ts

/-- The nodes of a row, comments apart, lie where its tokens lie. -/
theorem Each.within (h : Each (InRow (Laid T)) ns ts) (htokens : TokensAt lo ts hi) (hn : n ∈ ns)
    (hcomment : n.kind ≠ .comment) : lo ≤ n.span.start.offset ∧ n.span.stop.offset ≤ hi := by
  induction h generalizing lo with
  | nil => simp at hn
  | @cons m us ns vs hm _ ih =>
    obtain ⟨mid, hus, hvs⟩ := htokens.split
    rcases List.mem_cons.mp hn with rfl | hmem
    · cases hm with
      | comment h => exact absurd h hcomment
      | made hlaid =>
        obtain ⟨hstart, -, hstop⟩ := hus.covering hlaid.ne_nil
        rw [← hlaid.span_eq] at hstart hstop
        exact ⟨hstart, Nat.le_trans hstop hvs.le⟩
    · obtain ⟨hstart, hstop⟩ := ih hvs hmem
      exact ⟨Nat.le_trans hus.le hstart, hstop⟩

theorem Node.holding_cons (t : Token) (n : Node) (ns : List Node) :
    Node.holding t (n :: ns) =
      Node.holding t ns + if n.kind ≠ .comment ∧ n.span.contains t.span then 1 else 0 := by
  simp [Node.holding, List.countP_cons]

theorem Node.holding_cons_of_comment (h : n.kind = .comment) :
    Node.holding t (n :: ns) = Node.holding t ns := by
  simp [Node.holding_cons, h]

theorem Node.holding_cons_of_not_contains (h : ¬ n.span.contains t.span) :
    Node.holding t (n :: ns) = Node.holding t ns := by
  simp [Node.holding_cons, h]

/-- A token before a row lies inside none of its nodes. -/
theorem Each.holding_eq_zero (h : Each (InRow (Laid T)) ns ts) (htokens : TokensAt lo ts hi)
    (hfits : t.Fits) (ht : t.span.stop.offset ≤ lo) : Node.holding t ns = 0 := by
  induction h generalizing lo with
  | nil => rfl
  | @cons n us ns vs hn _ ih =>
    obtain ⟨mid, hus, hvs⟩ := htokens.split
    have hrest := ih hvs (Nat.le_trans ht hus.le)
    cases hn with
    | comment hcomment => rw [Node.holding_cons_of_comment hcomment, hrest]
    | made hlaid =>
      have hstart := (hus.covering hlaid.ne_nil).1
      rw [← hlaid.span_eq] at hstart
      have hout := not_contains_of_stop_le hfits (Nat.le_trans ht hstart)
      rw [Node.holding_cons_of_not_contains hout, hrest]

/-- Every token that a row is made of lies inside just one of its nodes. -/
theorem Each.holding_eq_one (h : Each (InRow (Laid T)) ns ts) (htokens : TokensAt lo ts hi)
    (ht : t ∈ ts) : Node.holding t ns = 1 := by
  induction h generalizing lo with
  | nil => simp at ht
  | @cons n us ns vs hn hns ih =>
    obtain ⟨mid, hus, hvs⟩ := htokens.split
    cases hn with
    | comment hcomment =>
      rw [Node.holding_cons_of_comment hcomment]
      exact ih hvs ht
    | made hlaid =>
      rcases List.mem_append.mp ht with hmem | hmem
      · -- Inside the first node, and before all of the others.
        obtain ⟨-, hfits, hstop⟩ := hus.of_mem hmem
        have hin : n.span.contains t.span := by
          rw [hlaid.span_eq]
          exact hus.contains_of_mem hmem
        rw [Node.holding_cons, if_pos ⟨hlaid.kind_ne_comment, hin⟩,
          hns.holding_eq_zero hvs hfits hstop]
      · -- Behind the first node.
        obtain ⟨hstart, hfits, -⟩ := hvs.of_mem hmem
        have hstop := (hus.covering hlaid.ne_nil).2.2
        rw [← hlaid.span_eq] at hstop
        have hout := not_contains_of_le_start hfits (Nat.le_trans hstop hstart)
        rw [Node.holding_cons_of_not_contains hout]
        exact ih hvs hmem

/-! ### Nodes by where they start -/

section

variable {α : Type} {key : α → Nat} {as bs : List α} (h : bs.Pairwise fun a b => key a < key b)

include h

theorem eq_of_key_eq {a b : α} (ha : a ∈ bs) (hb : b ∈ bs) (heq : key a = key b) : a = b := by
  have hpair : bs.Pairwise fun x y => key x = key y → x = y :=
    h.imp fun hxy hsame => absurd hsame (Nat.ne_of_lt hxy)
  have hflip : bs.Pairwise (flip fun x y => key x = key y → x = y) :=
    h.imp fun hxy hsame => absurd hsame.symm (Nat.ne_of_lt hxy)
  exact hpair.forall_of_forall_of_flip (fun x _ _ => rfl) hflip ha hb heq

/-- What stands in order is found again by sorting, however it is listed. -/
theorem mergeSort_eq_of_perm (hperm : as.Perm bs) :
    as.mergeSort (fun a b => key a ≤ key b) = bs := by
  have hsorted := (List.mergeSort_perm as fun a b => key a ≤ key b).trans hperm
  refine hsorted.eq_of_pairwise ?_ (List.pairwise_mergeSort ?_ ?_ _) ?_
  · intro a b ha hb hab hba
    simp only [decide_eq_true_eq] at hab hba
    exact eq_of_key_eq h (hsorted.mem_iff.mp ha) hb (Nat.le_antisymm hab hba)
  · intro a b c hab hbc
    simp only [decide_eq_true_eq] at hab hbc ⊢
    exact Nat.le_trans hab hbc
  · intro a b
    simp only [Bool.or_eq_true, decide_eq_true_eq]
    exact Nat.le_total _ _
  · refine h.imp fun hlt => ?_
    simp only [decide_eq_true_eq]
    exact Nat.le_of_lt hlt

end

section

-- None of the nodes is empty, so that no two of them start together.
variable (h : NodesAt T lo ns hi)
  (hsolid : ∀ n ∈ ns, n.span.start.offset < n.span.stop.offset)

include h hsolid

theorem NodesAt.pairwise_start :
    ns.Pairwise fun a b => a.span.start.offset < b.span.start.offset := by
  refine h.pairwise.imp_of_mem fun {a b} ha _ hle => ?_
  have hlt := hsolid a ha
  omega

/-- Nodes that stand in order are found again by sorting them, however they are listed. -/
theorem NodesAt.mergeSort_eq {ms : List Node} (hperm : ms.Perm ns) :
    ms.mergeSort (fun a b => a.span.start.offset ≤ b.span.start.offset) = ns :=
  mergeSort_eq_of_perm (h.pairwise_start hsolid) hperm

end

end FrontEnd
