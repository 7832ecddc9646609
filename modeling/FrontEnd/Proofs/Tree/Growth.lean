/-
How nodes grow over tokens.

A node covers tokens next to each other, or it starts with its first child and ends with its
last, or it stands inside a single token, or it is a single token.  Which construct a node is
does not matter to where it lies: all that is known about the places of nodes follows from these
few ways to make them, and so does all that is known about what leaves say.

* `Token.Leaf` — the leaves that a token is read into;
* `Grows` — the ways in which nodes are made of tokens;
* `Grows.spread` — where the tokens stand in order, so do the nodes;
* `Covered` — a node that grows over tokens and covers them.
-/
import FrontEnd.Expr.Parser
import FrontEnd.Proofs.Grammar.Sequence
import FrontEnd.Proofs.Literal.Agreement
import FrontEnd.Proofs.Tree.Coverage

namespace FrontEnd

variable {T : List Token}

/-! ### Tokens and leaves -/

/-- A reserved word or a punctuation mark. -/
def Kind.isMark : Kind → Bool
  | .symbol _ | .keyword _ => true
  | .eof | .number | .string | .char | .identifier => false

/-- A node of this kind is made of its children; it is no block. -/
def NodeKind.isCompound : NodeKind → Bool
  | .block | .comment | .error | .identifier | .typeIdentifier | .primitiveType | .operator
  | .number | .stringContent | .escapeSequence | .mutMarker | .stringType | .null | .trueLiteral
  | .falseLiteral => false
  | _ => true

/-- The node is made of its children and has no text, but for a range, whose text is the mark
between its ends.  It is no block. -/
def Node.isCompound (n : Node) : Bool :=
  n.kind.isCompound &&
    if n.kind = .range then
      !n.children.isEmpty && (n.text == some ".." || n.text == some "..=")
    else n.text.isNone

theorem Node.ne_of_isCompound {n : Node} (h : n.isCompound) {k : NodeKind}
    (hk : k.isCompound = false) : n.kind ≠ k := by
  rintro rfl
  simp [isCompound, hk] at h

/-- The reserved word that a leaf without a text stands for. -/
def NodeKind.keyword? : NodeKind → Option Keyword
  | .mutMarker => some .mutKw
  | .stringType => some .stringKw
  | .null => some .nullKw
  | .trueLiteral => some .trueKw
  | .falseLiteral => some .falseKw
  | _ => none

/-- The leaves that a token is read into. -/
inductive Token.Leaf (t : Token) : Node → Prop
  | name (ht : t.kind = .identifier) :
    Leaf t { kind := .identifier, span := t.span, text := some t.text }
  | typeName (ht : t.kind = .identifier) :
    Leaf t { kind := .typeIdentifier, span := t.span, text := some t.text }
  | primitive {p : Primitive} (ht : t.kind = .keyword (.primitive p)) :
    Leaf t { kind := .primitiveType, span := t.span, text := some p.spelling }
  | operator {op : BinaryOperator} (ht : t.kind = .symbol op.symbol) :
    Leaf t (Operator.toNode ⟨op, t.span⟩)
  | number {value : Nat} (ht : t.kind = .number)
    (hvalue : Text.readNumber? 10 t.text.toList = some value) (hlimit : value < Number.limit) :
    Leaf t (Number.toNode ⟨value, t.span⟩)
  | keyword {word : Keyword} {kind : NodeKind} (hkind : kind.keyword? = some word)
    (ht : t.kind = .keyword word) : Leaf t { kind, span := t.span }

namespace Token.Leaf

variable {t : Token} {n : Node}

theorem span_eq (h : t.Leaf n) : n.span = t.span := by cases h <;> rfl

theorem children_eq (h : t.Leaf n) : n.children = [] := by cases h <;> rfl

theorem kind_ne_block (h : t.Leaf n) : n.kind ≠ .block := by
  cases h with
  | keyword hkind =>
    rintro rfl
    exact nomatch hkind
  | _ => exact fun hblock => nomatch hblock

end Token.Leaf

/-- The ways in which nodes are made of tokens. -/
inductive Grows : List Token → List Node → Prop
  /-- Reserved words and punctuation marks, which no node is made of. -/
  | tokens {ts : List Token} (h : ∀ t ∈ ts, t.kind.isMark) : Grows ts []
  | append {ts us : List Token} {ns ms : List Node} (h : Grows ts ns) (h' : Grows us ms) :
    Grows (ts ++ us) (ns ++ ms)
  /-- A node that covers its tokens, around the nodes they are made into. -/
  | cover {ts : List Token} {n : Node} (h : Grows ts n.children) (hne : ts ≠ [])
    (hspan : n.span = covering ts) (hkind : n.isCompound) : Grows ts [n]
  /-- A node that is a single token. -/
  | leaf {t : Token} {n : Node} (h : t.Leaf n) : Grows [t] [n]
  /-- A literal, around its parts. -/
  | literal {t : Token} {quote : Char} {n : Node} (hquote : t.kind.Quotes quote)
    (hspan : n.span = t.span)
    (hchildren : n.children = (Parser.literalParts t quote).map (·.toNode))
    (hkind : n.isCompound) : Grows [t] [n]
  /-- The inner one of two references that are written as one token: it starts inside that
  token. -/
  | inner {marks : Token} {ts : List Token} {n : Node} (hmarks : marks.kind = .symbol .and)
    (h : Grows ts n.children) (hne : ts ≠ [])
    (hspan : n.span = spanning (marks.span.start.next '&') (marks :: ts))
    (hkind : n.isCompound) : Grows (marks :: ts) [n]
  /-- A node that starts with the first of its children and ends with the last. -/
  | hull {ts : List Token} {n a b : Node} {ns : List Node} (h : Grows ts (a :: (ns ++ [b])))
    (hchildren : n.children = a :: (ns ++ [b])) (hstart : n.span.start = a.span.start)
    (hstop : n.span.stop = b.span.stop) (hkind : n.isCompound) : Grows ts [n]
  | labelled {ts : List Token} {n : Node} (h : Grows ts [n]) (label : Label) :
    Grows ts [n.labelled label]

namespace Grows

variable {t : Token} {k : Kind} {ts us : List Token} {ns : List Node}

theorem nil : Grows [] [] := .tokens (by simp)

/-- A token that no node is made of. -/
theorem mark (ht : t.kind = k) (hk : k.isMark) : Grows [t] [] :=
  .tokens fun u hu => by rw [List.mem_singleton.mp hu, ht, hk]

/-- A token that no node is made of, before nodes. -/
theorem token (ht : t.kind = k) (hk : k.isMark) (h : Grows ts ns) : Grows (t :: ts) ns :=
  (mark ht hk).append h

theorem tokens_behind (h : Grows ts ns) (hus : Grows us []) : Grows (ts ++ us) ns := by
  have hboth := h.append hus
  rwa [List.append_nil] at hboth

/-- A token that no node is made of, behind nodes. -/
theorem token_behind (h : Grows ts ns) (ht : t.kind = k) (hk : k.isMark) : Grows (ts ++ [t]) ns :=
  h.tokens_behind (mark ht hk)

end Grows

/-- A token that no node is made of, or none. -/
theorem Optional.grows {k : Kind} {b : Bool} {ts : List Token} (h : Optional k b ts)
    (hk : k.isMark) : Grows ts [] := by
  cases h with
  | absent => exact .nil
  | present ht => exact .mark ht hk

/-! ### Inside a single token -/

/-- The parts of a literal stand one after the other. -/
theorem nodesAt_placeSegments (p : Position) (segments : List Literal.Segment) :
    NodesAt T p.offset ((Parser.placeSegments p segments).map (·.toNode))
      (p.offset + byteLength (segments.flatMap (·.raw.toList))) := by
  induction segments generalizing p with
  | nil => exact Nat.le_add_right _ _
  | cons segment rest ih =>
    have hstop := Position.offset_along p segment.raw.toList
    have hrest := ih (p.along segment.raw.toList)
    rw [hstop, Nat.add_assoc, ← byteLength_append] at hrest
    refine ⟨Nat.le_refl _, ?_, ?_⟩
    · have hnone : NodesAt T p.offset [] p.offset := Nat.le_refl _
      refine hnone.everywhere (Nat.le_refl _) ?_ ?_
      · show p.offset ≤ (p.along segment.raw.toList).offset
        omega
      · cases segment <;> simp [LiteralPart.toNode]
    · show NodesAt T (p.along segment.raw.toList).offset _ _
      rw [hstop, List.flatMap_cons]
      exact hrest

/-- What a literal is read into is no longer than what stands behind its opening quote. -/
theorem byteLength_segments_le (quote : Char) (text : List Char) :
    byteLength ((Literal.scan quote text).segments.flatMap (·.raw.toList)) ≤
      byteLength text := by
  have hparts := congrArg byteLength (Literal.contents_partition quote text)
  rw [Literal.segments, Literal.raw_join]
  simp only [byteLength_append] at hparts
  show byteLength ((Literal.contents quote text).elements.flatMap Literal.Element.raw) ≤ _
  omega

/-- The parts of a literal lie inside the token that it is. -/
theorem nodesAt_literalParts {t : Token} (h : t.Fits) {quote : Char}
    (hquote : Literal.IsQuote quote) :
    NodesAt T t.span.start.offset ((Parser.literalParts t quote).map (·.toNode))
      t.span.stop.offset := by
  have hnext : (t.span.start.along [quote]).offset = t.span.start.offset + 1 := by
    simp [byteLength, hquote.utf8Size]
  have hwidth := h.stop
  rw [Parser.literalParts, Parser.literalParts?, Literal.scanString?_eq hquote]
  -- The opening quote takes one byte, and what it stands for in the text no less.
  cases htext : t.text.toList with
  | nil => exact absurd htext h.text_ne_nil
  | cons c cs =>
    rw [htext, byteLength] at hwidth
    dsimp only
    split
    · have hparts := nodesAt_placeSegments (T := T) (t.span.start.along [quote])
        (Literal.scan quote cs).segments
      have hlength := byteLength_segments_le quote cs
      exact hparts.mono (by omega) (by omega)
    · show t.span.start.offset ≤ t.span.stop.offset
      omega

/-- The second of two references that are written as one token starts inside that token. -/
theorem Spread.inner {marks : Token} {ts : List Token} {n : Node} (h : Spread T ts n.children)
    (hne : ts ≠ []) (hspan : n.span = spanning (marks.span.start.next '&') (marks :: ts))
    (hkind : n.kind ≠ .block) : Spread T (marks :: ts) [n] := by
  intro lo hi htokens
  obtain ⟨hlo, hfits, hrest⟩ := htokens
  have hnext : (marks.span.start.next '&').offset = marks.span.start.offset + 1 := rfl
  have hlt := hfits.start_lt_stop
  obtain ⟨hinside, hhi⟩ := hrest.spanning hne (p := marks.span.start.next '&') (by omega)
  have hlast : spanning (marks.span.start.next '&') (marks :: ts) =
      spanning (marks.span.start.next '&') ts := spanning_append _ [marks] ts hne
  rw [hlast] at hspan
  rw [← hspan] at hinside hhi
  have hstart : n.span.start = marks.span.start.next '&' := by rw [hspan, spanning_start]
  refine ⟨?_, (h _ _ hinside).everywhere ?_ (Nat.le_refl _) hkind, hhi⟩
  · rw [hstart]
    omega
  · rw [hstart]
    omega

/-! ### Nodes in order -/

/-- Where the tokens stand in order, the nodes that grow over them do. -/
theorem Grows.spread {ts : List Token} {ns : List Node} (h : Grows ts ns) : Spread T ts ns := by
  induction h with
  | tokens => exact .tokens
  | append _ _ ih ih' => exact ih.append ih'
  | cover _ hne hspan hkind ih => exact ih.cover hne hspan (Node.ne_of_isCompound hkind rfl)
  | leaf h => exact .leaf h.span_eq h.children_eq h.kind_ne_block
  | literal hquote hspan hchildren hkind =>
    refine .single hspan (fun hfits => ?_) (Node.ne_of_isCompound hkind rfl)
    rw [hchildren]
    exact nodesAt_literalParts hfits hquote.isQuote
  | inner _ _ hne hspan hkind ih => exact ih.inner hne hspan (Node.ne_of_isCompound hkind rfl)
  | hull _ hchildren hstart hstop hkind ih =>
    exact ih.hull hchildren hstart hstop (Node.ne_of_isCompound hkind rfl)
  | labelled _ label ih => exact ih.labelled label

/-- The node grows over the tokens and covers them, and it is no comment. -/
structure Covered (n : Node) (ts : List Token) : Prop where
  grows : Grows ts [n]
  span_eq : n.span = covering ts
  ne_nil : ts ≠ []
  kind_ne_comment : n.kind ≠ .comment

namespace Covered

variable {n : Node} {ts : List Token}

theorem cover (h : Grows ts n.children) (hne : ts ≠ []) (hspan : n.span = covering ts)
    (hkind : n.isCompound) : Covered n ts := by
  exact ⟨.cover h hne hspan hkind, hspan, hne, Node.ne_of_isCompound hkind rfl⟩

theorem laid (h : Covered n ts) : Laid T n ts :=
  ⟨h.grows.spread, h.span_eq, h.ne_nil, h.kind_ne_comment⟩

end Covered

end FrontEnd
