/-
Where the nodes of a tree start and end.

Every node starts and ends where a token or a comment does, or inside a single token: between
the parts of a literal, and between the two ampersands of a reference to a reference.  So what
holds of these places holds of both ends of every node, whatever the text is.

* `Token.Marked` — a predicate on positions holds of the ends of a token and of the places
  inside it;
* `Marks` — it holds of the ends of nodes if it does of the tokens they are made of;
* `Grows.marks`, `Builds.marks` — it does, for all nodes that tokens are made into.
-/
import FrontEnd.Proofs.Tree.Building

namespace FrontEnd

variable {P : Position → Prop}

/-- Both ends of the span satisfy `P`. -/
def Span.Marked (P : Position → Prop) (s : Span) : Prop := P s.start ∧ P s.stop

/-- The ends of the token satisfy `P`, and so do the places inside it where nodes may start or
end. -/
structure Token.Marked (P : Position → Prop) (t : Token) : Prop where
  span : t.span.Marked P
  parts : ∀ quote, t.kind.Quotes quote → ∀ part ∈ Parser.literalParts t quote, part.span.Marked P
  inner : t.kind = .symbol .and → P (t.span.start.next '&')

/-- If the tokens are marked, so are the nodes and all nodes below them. -/
def Marks (P : Position → Prop) (ts : List Token) (ns : List Node) : Prop :=
  (∀ t ∈ ts, t.Marked P) → ∀ n ∈ ns, n.Everywhere (·.span.Marked P)

section

variable {ts us : List Token}

theorem spanning_marked (h : ∀ t ∈ ts, t.Marked P) {p : Position} (hp : P p) :
    (spanning p ts).Marked P := by
  unfold spanning
  split
  · exact ⟨hp, hp⟩
  · next t hlast =>
    split
    · exact ⟨hp, hp⟩
    · exact ⟨hp, (h t (List.mem_of_getLast? hlast)).span.2⟩

theorem covering_marked (h : ∀ t ∈ ts, t.Marked P) (hne : ts ≠ []) : (covering ts).Marked P := by
  cases ts with
  | nil => exact absurd rfl hne
  | cons t ts => exact spanning_marked h (h t (by simp)).span.1

end

namespace Marks

variable {t : Token} {ts us : List Token} {n : Node} {ns ms : List Node}

theorem tokens : Marks P ts [] := by
  intro _ n hn
  simp at hn

theorem append (h : Marks P ts ns) (h' : Marks P us ms) : Marks P (ts ++ us) (ns ++ ms) := by
  intro hmarked n hn
  rcases List.mem_append.mp hn with hn | hn
  · exact h (fun t ht => hmarked t (List.mem_append_left us ht)) n hn
  · exact h' (fun t ht => hmarked t (List.mem_append_right ts ht)) n hn

theorem token (h : Marks P ts ns) : Marks P (t :: ts) ns :=
  fun hmarked => h fun u hu => hmarked u (List.mem_cons_of_mem t hu)

/-- A node around nodes, whose own ends are marked. -/
theorem around (hspan : (∀ t ∈ ts, t.Marked P) → n.span.Marked P) (h : Marks P ts n.children) :
    Marks P ts [n] := by
  intro hmarked m hm
  obtain rfl := List.mem_singleton.mp hm
  exact .mk (hspan hmarked) (h hmarked)

theorem cover (h : Marks P ts n.children) (hne : ts ≠ []) (hspan : n.span = covering ts) :
    Marks P ts [n] := by
  refine .around (fun hmarked => ?_) h
  rw [hspan]
  exact covering_marked hmarked hne

theorem labelled (h : Marks P ts [n]) (label : Label) : Marks P ts [n.labelled label] := by
  intro hmarked m hm
  obtain rfl := List.mem_singleton.mp hm
  have hnode := h hmarked n (by simp)
  exact .mk hnode.here hnode.of_mem_children

end Marks

/-! ### Nodes over tokens -/

theorem literalParts_marks {t : Token} {quote : Char} (hquote : t.kind.Quotes quote) :
    Marks P [t] ((Parser.literalParts t quote).map (·.toNode)) := by
  intro hmarked n hn
  obtain ⟨part, hpart, rfl⟩ := List.mem_map.mp hn
  have hspan := (hmarked t (by simp)).parts quote hquote part hpart
  obtain ⟨segment, span⟩ := part
  cases segment with
  | text | escape | invalid => exact .mk hspan (by simp [LiteralPart.toNode])

/-- What grows over marked tokens is marked. -/
theorem Grows.marks {ts : List Token} {ns : List Node} (h : Grows ts ns) : Marks P ts ns := by
  induction h with
  | tokens => exact .tokens
  | append _ _ ih ih' => exact ih.append ih'
  | cover _ hne hspan _ ih => exact ih.cover hne hspan
  | @leaf t n h =>
    refine .around (fun hmarked => ?_) (by rw [h.children_eq]; exact .tokens)
    rw [h.span_eq]
    exact (hmarked t (by simp)).span
  | @literal t quote n hquote hspan hchildren _ =>
    refine .around (fun hmarked => ?_) (by rw [hchildren]; exact literalParts_marks hquote)
    rw [hspan]
    exact (hmarked t (by simp)).span
  | @inner marks ts n hmarks _ _ hspan _ ih =>
    refine .around (fun hmarked => ?_) ih.token
    rw [hspan]
    exact spanning_marked hmarked ((hmarked marks (by simp)).inner hmarks)
  | @hull ts n a b ns _ hchildren hstart hstop _ ih =>
    refine .around (fun hmarked => ?_) (by rw [hchildren]; exact ih)
    have hfirst := (ih hmarked a (by simp)).here.1
    have hlast := (ih hmarked b (by simp)).here.2
    exact ⟨by rw [hstart]; exact hfirst, by rw [hstop]; exact hlast⟩
  | labelled _ label ih => exact ih.labelled label

/-- What is built over marked tokens, with marked comments, is marked. -/
theorem Builds.marks {C : Comment → Prop} (hC : ∀ c, C c → c.span.Marked P) {ts : List Token}
    {ns : List Node} (h : Builds C ts ns) : Marks P ts ns := by
  induction h with
  | grows h => exact h.marks
  | append _ _ ih ih' => exact ih.append ih'
  | cover _ hne hspan _ ih => exact ih.cover hne hspan
  | skipped hne => exact .cover .tokens hne rfl
  | comments h =>
    intro _ n hn
    obtain ⟨c, hc, rfl⟩ := List.mem_map.mp hn
    exact .mk (hC c (h c hc)) (by simp [Comment.toNode])
  | labelled _ label ih => exact ih.labelled label
  | perm _ hperm ih => exact fun hmarked n hn => ih hmarked n (hperm.mem_iff.mpr hn)

theorem TypeExpr.span_toNode (type : TypeExpr) : type.toNode.span = type.span := by
  cases type <;> rfl

/-- Both ends of a diagnostic about tokens, or about what these spell, are marked. -/
theorem Parser.Names.marked {us : List Token} {span : Span} (h : Parser.Names us span)
    (hmarked : ∀ t ∈ us, t.Marked P) : span.Marked P := by
  cases h with
  | token ht => exact (hmarked _ ht).span
  | @type type ts hspelled hts =>
    have hnode := hspelled.grows.marks (fun t ht => hmarked t (hts.subset ht)) type.toNode (by simp)
    rw [← TypeExpr.span_toNode]
    exact hnode.here
  | @primary e ts hspelled hts =>
    have hnode := hspelled.grows.marks (fun t ht => hmarked t (hts.subset ht)) e.toNode (by simp)
    rw [← Expr.span_toNode]
    exact hnode.here

end FrontEnd
