/-
Leaves say what stands under them.

The text of a leaf and its span come from the token by different ways: a name keeps the text of
its token, an operator and a primitive type are written again by what they are, a number by its
value, and a part of a literal is placed by counting.  All of them say what the text holds under
the span.  Numbers are where this could fail, since a leaf holds 64 bits and a text any number of
digits: an integer literal out of range becomes a failure and no leaf.

* `Node.Says` — what a leaf has to say about the text that it covers, by its kind;
* `Node.Sourced.faithful` — what comes from a token or a comment says that;
* `Token.Unread` — what becomes of an integer literal out of range;
* `leaves_faithful` — every node of every tree, and every integer literal of every text.
-/
import FrontEnd.Proofs.Grammar.OutOfRange
import FrontEnd.Proofs.Source.Safety
import FrontEnd.Proofs.Text.Quoting
import FrontEnd.Proofs.Tree.Leaves
import FrontEnd.Proofs.TypeExpr.RoundTrip

namespace FrontEnd

variable {source : String} {t : Token} {n : Node}

/-! ### What stands under tokens and trivia -/

/-- A piece of the text stands under its span. -/
theorem slice?_spanAt {before cs : List Char} {c : Char} (h : source.toList = before ++ c :: cs) :
    ((Lexeme.first c cs).spanAt (Position.start.after before)).slice? source =
      some (String.ofList (Lexeme.first c cs).text) := by
  obtain ⟨rest, hrest⟩ := exists_behind_first h
  have hslice := Piece.slice?_after before (Lexeme.first c cs).text rest
  rwa [← hrest, String.ofList_toList] at hslice

theorem slice?_of_mem_rest (h : t ∈ (startOf source).rest) :
    t.span.slice? source = some t.text := by
  obtain ⟨before, c, cs, hsource, -, htext, hspan⟩ := exists_token h
  rw [hspan, htext, slice?_spanAt hsource]

theorem slice?_of_mem_trivia {x : Trivia} (h : x ∈ (startOf source).trivia) :
    x.span.slice? source = some x.text := by
  obtain ⟨before, c, cs, hsource, -, htext, hspan⟩ := exists_trivia h
  rw [hspan, htext, slice?_spanAt hsource]

theorem text_of_symbol (h : t ∈ (startOf source).rest) {s : Symbol} (hkind : t.kind = .symbol s) :
    t.text = s.spelling := by
  obtain ⟨before, c, cs, -, hfirst, htext, -⟩ := exists_token h
  rw [hkind] at hfirst
  rw [htext, Lexeme.first_symbol hfirst, Lexeme.token, String.ofList_toList]

theorem text_of_keyword (h : t ∈ (startOf source).rest) {k : Keyword}
    (hkind : t.kind = .keyword k) : t.text = k.spelling := by
  obtain ⟨before, c, cs, -, hfirst, htext, -⟩ := exists_token h
  rw [hkind] at hfirst
  rw [htext, Lexeme.first_keyword hfirst, Lexeme.token, String.ofList_toList]

/-- The tokens that a file is read from are those of its text, but for the end of the input. -/
theorem mem_rest_iff :
    t ∈ (startOf source).rest ↔ t ∈ (parseSource source).stream.tokens ∧ t.kind ≠ .eof := by
  rw [← proper_parseSource, TokenStream.proper, List.mem_filter, decide_eq_true_iff]

/-! ### What leaves say -/

/-- What a node has to say about the text that it covers.  A comment and a part of a literal say
it in its quoted form, from which it is read back, and some leaves say it by their kind alone.
All other nodes have no text, but for a range, which is no leaf: its text is the mark between its
ends. -/
def Node.Says (n : Node) (slice : String) : Prop :=
  match n.kind with
  | .identifier | .typeIdentifier | .primitiveType | .operator => n.text = some slice
  | .comment | .stringContent | .escapeSequence =>
    ∀ raw, n.text = some (Text.quoted raw) ↔ raw = slice
  | .number => ∃ value, n.text = some (toString value) ∧ Text.WritesDecimal slice.toList value ∧
      value < 2 ^ 64
  | .trueLiteral => slice = "true"
  | .falseLiteral => slice = "false"
  | .null => slice = "null"
  | .mutMarker => slice = "mut"
  | .stringType => slice = "string"
  | .range => n.text = none ∨ n.children ≠ []
  | _ => n.text = none

/-- A leaf says what its token is. -/
theorem Token.Leaf.says (h : t.Leaf n) (ht : t ∈ (startOf source).rest) : n.Says t.text := by
  cases h with
  | name | typeName => rfl
  | primitive hkind => exact congrArg some (text_of_keyword ht hkind).symm
  | operator hkind => exact congrArg some (text_of_symbol ht hkind).symm
  | @number value hkind hvalue hlimit =>
    have hdigits := inDigits_of_mem_tokenize (mem_rest_iff.mp ht).1 hkind
    exact ⟨value, rfl, Text.writesDecimal_of_readNumber? hdigits hvalue, hlimit⟩
  | keyword hword hkind =>
    have htext := text_of_keyword ht hkind
    unfold NodeKind.keyword? at hword
    split at hword
    iterate 5
      obtain rfl := Option.some.inj hword
      exact htext
    cases hword

theorem LiteralPart.says (part : LiteralPart) : part.toNode.Says part.segment.raw := by
  have hraw : ∀ raw, part.toNode.text = some (Text.quoted raw) ↔ raw = part.segment.raw := by
    intro raw
    show some _ = some _ ↔ _
    rw [Option.some.injEq, Text.quoted_injective.eq_iff, eq_comm]
  obtain ⟨segment, span⟩ := part
  cases segment with
  | text | escape | invalid => exact hraw

theorem Comment.says (c : Comment) : c.toNode.Says c.text := by
  intro raw
  show some _ = some _ ↔ _
  rw [Option.some.injEq, Text.quoted_injective.eq_iff, eq_comm]

/-- A node without a text of its own has nothing to say. -/
theorem Node.IsSilent.says (h : n.IsSilent) (slice : String) : n.Says slice := by
  unfold Node.Says
  rcases h with ⟨hkind, htext⟩ | ⟨hkind, htext⟩ | h
  · rw [hkind]
    exact htext
  · rw [hkind]
    exact htext
  · obtain ⟨hkind, htext⟩ := Bool.and_eq_true_iff.mp h
    split <;> simp_all [NodeKind.isCompound]

/-- What comes from a token or a comment of the text says what stands under it. -/
theorem Node.Sourced.faithful (h : n.Sourced (startOf source).Holds (startOf source).rest)
    (hspan : (n.span.slice? source).isSome) :
    ∃ slice, n.span.slice? source = some slice ∧ n.Says slice := by
  induction h with
  | leaf ht h => exact ⟨_, h.span_eq ▸ slice?_of_mem_rest ht, h.says ht⟩
  | @part t quote part ht hquote hpart =>
    have hmem := (mem_rest_iff.mp ht).1
    exact ⟨_, (rebuilt_of_mem hmem hquote).slices part hpart, part.says⟩
  | comment h =>
    obtain ⟨x, hx, hc⟩ := h
    obtain ⟨kind, -, rfl⟩ := Option.map_eq_some_iff.mp hc
    exact ⟨_, slice?_of_mem_trivia hx, Comment.says _⟩
  | silent h =>
    obtain ⟨slice, hslice⟩ := Option.isSome_iff_exists.mp hspan
    exact ⟨slice, hslice, h.says slice⟩
  | labelled _ label ih => exact ih hspan

/-- What a node of the tree says stands under its span. -/
theorem faithful_of_mem_nodes (h : n ∈ (parseSource source).file.toNode.nodes) :
    ∃ slice, n.span.slice? source = some slice ∧ n.Says slice := by
  refine ((parseSource_sourced source).of_mem_nodes h).faithful ?_
  obtain ⟨entry, hentry, rfl⟩ := List.mem_map.mp h
  have hordered := ((everywhere_parseSource source).of_mem_preorder hentry).nested.ordered
  exact Span.slice?_isSome (marked_of_mem_preorder hentry) hordered

/-! ### Integer literals out of range -/

/-- No leaf is made of the token, and a production that consumes it fails with it. -/
structure Token.Unread (source : String) (t : Token) : Prop where
  /-- No number lies where the token does. -/
  absent : ∀ n ∈ (parseSource source).file.toNode.nodes, n.kind = .number → n.span ≠ t.span
  /-- The token lies in a skipped stretch. -/
  skipped : ∃ n ∈ (parseSource source).file.toNode.nodes,
    n.kind = .error ∧ n.children = [] ∧ n.span.contains t.span
  /-- A production that consumes the token, and has recorded nothing, fails with it, and consumes
  nothing behind it. -/
  consumed : ∀ {α : Type} {p : Parser α}, Parser.Production p → ∀ s ts,
    Parser.Passes s ts (Parser.Outcome.state (p s)) → t ∈ ts →
      Parser.Quiet s (Parser.Outcome.state (p s)) →
        p s = .error t.outOfRange (Parser.Outcome.state (p s)) ∧ ts.getLast? = some t
  /-- A production without blocks has recorded nothing. -/
  read : ∀ {α : Type} {p : Parser α}, Parser.ReadingProduction p → ∀ s ts,
    Parser.Passes s ts (Parser.Outcome.state (p s)) → t ∈ ts →
      p s = .error t.outOfRange (Parser.Outcome.state (p s)) ∧ ts.getLast? = some t

theorem overflows_of_writesDecimal {value : Nat} (hkind : t.kind = .number)
    (hvalue : Text.WritesDecimal t.text.toList value) (hlimit : 2 ^ 64 ≤ value) :
    t.Overflows := by
  refine ⟨hkind, fun value' hvalue' => ?_⟩
  obtain rfl := Option.some.inj (hvalue.readNumber?.symm.trans hvalue')
  exact hlimit

/-- A skipped stretch contains the tokens that it is made of. -/
theorem Node.Skips.contains (h : n.Skips (startOf source).rest t) : n.span.contains t.span := by
  obtain ⟨-, -, us, ⟨before, behind, hrest⟩, ht, hspan⟩ := h
  have hplaced := (inPlace_startOf source).rest
  rw [← hrest] at hplaced
  obtain ⟨mid, hfront, -⟩ := hplaced.split
  obtain ⟨mid', -, hus⟩ := hfront.split
  rw [hspan]
  exact hus.contains_of_mem ht

theorem Token.Overflows.unread (h : t.Overflows) (ht : t ∈ (startOf source).rest) :
    t.Unread source where
  absent n hn hkind hspan := by
    obtain ⟨slice, hslice, hsays⟩ := faithful_of_mem_nodes hn
    rw [hspan, slice?_of_mem_rest ht] at hslice
    obtain rfl := Option.some.inj hslice
    unfold Node.Says at hsays
    rw [hkind] at hsays
    obtain ⟨value, -, hvalue, hlimit⟩ := hsays
    exact Nat.not_le_of_lt hlimit (h.2 value hvalue.readNumber?)
  skipped := by
    obtain ⟨n, hn, m, hm, hskips⟩ := (parseSource_builds source).exists_skips ht h
    exact ⟨m, Node.mem_nodes_of_mem_children hn hm, hskips.1, hskips.2.1, hskips.contains⟩
  consumed hp _ _ hpass hmem hquiet := hp.overflow hpass hquiet hmem h
  read hp s _ hpass hmem := (Parser.Production.reading hp).overflow hpass (hp.quiet s) hmem h

/-- **Leaves are faithful.**  Every node of the tree of every text, however broken it is, says
what stands under its span: the text itself, the value of its digits, or the one word of its kind.
An integer literal is read as the value of its digits, which is below `2 ^ 64`; one with a greater
value is never read, but makes the production fail that consumes it. -/
theorem leaves_faithful (source : String) :
    (∀ n ∈ (parseSource source).file.toNode.nodes,
      ∃ slice, n.span.slice? source = some slice ∧ n.Says slice) ∧
    ∀ t ∈ (parseSource source).stream.tokens, t.kind = .number →
      t.span.slice? source = some t.text ∧
      ∃ value, Text.WritesDecimal t.text.toList value ∧
        (∀ (production : String) (s : Parser.State), s.current = t → Parser.number production s =
          if value < 2 ^ 64 then .ok ⟨value, t.span⟩ s.advance
          else .error t.outOfRange s.advance) ∧
        (2 ^ 64 ≤ value → t.Unread source) := by
  refine ⟨fun n hn => faithful_of_mem_nodes hn, fun t ht hkind => ?_⟩
  have hrest := mem_rest_iff.mpr ⟨ht, by rw [hkind]; decide⟩
  obtain ⟨-, hfits, -⟩ := (inPlace_startOf source).rest.of_mem hrest
  obtain ⟨value, hvalue⟩ :=
    Text.exists_writesDecimal (inDigits_of_mem_tokenize ht hkind) hfits.text_ne_nil
  refine ⟨slice?_of_mem_rest hrest, value, hvalue, ?_, fun hlimit => ?_⟩
  · rintro production s rfl
    exact Parser.number_of_readNumber? hkind hvalue.readNumber? production
  · exact (overflows_of_writesDecimal hkind hvalue hlimit).unread hrest

/-- An assignment of the first value that 64 bits do not hold. -/
def largeText : String := "fn f() \x7b x = 18446744073709551616; \x7d"

/-- The integer literal of that text. -/
def largeNumber : Token :=
  ⟨.number, "18446744073709551616", ⟨⟨13, 1, 14⟩, ⟨33, 1, 34⟩⟩⟩

theorem leaves_faithful_largeText :
    largeNumber ∈ (parseSource largeText).stream.tokens ∧ largeNumber.Unread largeText ∧
      (parseSource largeText).diagnostics = [largeNumber.outOfRange] := by
  have hmem : largeNumber ∈ (parseSource largeText).stream.tokens := by decide +kernel
  obtain ⟨-, value, hvalue, -, hunread⟩ := (leaves_faithful largeText).2 largeNumber hmem rfl
  have hread : Text.readNumber? 10 largeNumber.text.toList = some (2 ^ 64) := by decide +kernel
  obtain rfl := Option.some.inj (hvalue.readNumber?.symm.trans hread)
  exact ⟨hmem, hunread (Nat.le_refl _), by decide +kernel⟩

end FrontEnd
