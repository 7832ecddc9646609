/-
Parsed trees are told from their S-expressions.

What the nodes of a parsed tree say stands bare only where it is a name, a number, an operator or a
reserved word, none of which contains a blank or a parenthesis.  Comments and the parts of literals,
which may contain anything, stand in quotes.  So the written form of a node, whatever the text it
was parsed from, belongs to one labelled tree only.

* `Node.Sourced.legible` — what comes from a token or a comment is told from what stands behind it;
* `parseSource_legible` — so are all nodes of a parsed tree;
* `sexp_unambiguous` — nodes of parsed trees are written alike just if they are equal as labelled
  trees.
-/
import FrontEnd.Proofs.Source.Fidelity
import FrontEnd.Proofs.Tree.Sexp

namespace FrontEnd

variable {source : String} {t : Token} {n : Node}

/-! ### Bare texts -/

theorem continuesWord_of_startsWord {c : Char} (h : startsWord c) : continuesWord c := by
  rcases Bool.or_eq_true_iff.mp h with h | h
  · rw [continuesWord, h, Bool.true_or]
  · rw [continuesWord, Unicode.isXidContinue_of_isXidStart h, Bool.or_true]

/-- A piece that is a name consists of characters of names. -/
theorem Lexeme.continuesWord_of_identifier {c : Char} {cs : List Char}
    (h : (first c cs).kind = .token .identifier) :
    ∀ d ∈ (first c cs).text, continuesWord d := by
  obtain ⟨run, hfirst, hspells⟩ := exists_spells h (by simp) (by simp)
  rw [hfirst]
  cases hspells with
  | identifier hmatch =>
    simp only [Rule.match?] at hmatch
    split at hmatch
    · next hstart =>
      obtain rfl := Option.some.inj hmatch
      intro d hd
      rcases List.mem_cons.mp hd with rfl | hd
      · exact continuesWord_of_startsWord hstart
      · exact List.mem_takeWhile_imp hd
    · cases hmatch

/-- Nothing ends a text within it that consists of characters of a sort, if neither the blank nor
the parenthesis is of this sort. -/
theorem all_not_endsName {p : Char → Bool} (hblank : p ' ' = false) (hparenthesis : p ')' = false)
    {cs : List Char} (h : ∀ c ∈ cs, p c) : cs.all (!endsName ·) := by
  rw [List.all_eq_true]
  intro c hc
  rw [Bool.not_eq_true', ← Bool.not_eq_true]
  intro hends
  have hcp := h c hc
  rcases Bool.or_eq_true_iff.mp hends with hsame | hsame
  · rw [beq_iff_eq.mp hsame, hblank] at hcp
    cases hcp
  · rw [beq_iff_eq.mp hsame, hparenthesis] at hcp
    cases hcp

theorem all_of_identifier (ht : t ∈ (startOf source).rest) (hkind : t.kind = .identifier) :
    t.text.toList.all (!endsName ·) := by
  obtain ⟨before, c, cs, -, hfirst, htext, -⟩ := exists_token ht
  rw [hkind] at hfirst
  rw [htext, String.toList_ofList]
  exact all_not_endsName (by decide +kernel) (by decide +kernel)
    (Lexeme.continuesWord_of_identifier hfirst)

theorem all_of_number (value : Nat) : (toString value).toList.all (!endsName ·) :=
  all_not_endsName (p := Char.isDigit) rfl rfl fun _ hc => Text.isDigit_of_mem_toString hc

theorem Primitive.all_spelling (p : Primitive) : p.spelling.toList.all (!endsName ·) := by
  cases p <;> rfl

theorem BinaryOperator.all_spelling (op : BinaryOperator) :
    op.spelling.toList.all (!endsName ·) := by
  cases op <;> rfl

/-! ### Nodes -/

theorem Token.Leaf.legible (h : t.Leaf n) (ht : t ∈ (startOf source).rest) : n.Legible := by
  cases h with
  | name hkind | typeName hkind => exact ⟨_, rfl, all_of_identifier ht hkind⟩
  | primitive => exact ⟨_, rfl, Primitive.all_spelling _⟩
  | operator => exact ⟨_, rfl, BinaryOperator.all_spelling _⟩
  | number => exact ⟨_, rfl, all_of_number _⟩
  | keyword hword =>
    unfold NodeKind.keyword? at hword
    split at hword
    iterate 5 · rfl
    cases hword

theorem LiteralPart.legible (part : LiteralPart) : part.toNode.Legible := by
  obtain ⟨segment, span⟩ := part
  cases segment <;> exact ⟨_, rfl⟩

/-- What is made of its children has no text, but for a range. -/
theorem NodeKind.wording_of_isCompound {kind : NodeKind} (h : kind.isCompound)
    (hrange : kind ≠ .range) : kind.wording = .silent := by
  have hall : ∀ k ∈ all, k.isCompound → k ≠ .range → k.wording = .silent := by decide
  exact hall kind kind.mem_all h hrange

theorem Node.IsSilent.legible (h : n.IsSilent) : n.Legible := by
  unfold Node.Legible
  rcases h with ⟨hkind, htext⟩ | ⟨hkind, htext⟩ | h
  · rw [hkind]
    exact htext
  · rw [hkind]
    exact htext
  · obtain ⟨hkind, htext⟩ := Bool.and_eq_true_iff.mp h
    split at htext
    · next hrange =>
      obtain ⟨-, htext⟩ := Bool.and_eq_true_iff.mp htext
      rw [hrange]
      rcases Bool.or_eq_true_iff.mp htext with htext | htext
      · exact ⟨"..", eq_of_beq htext, rfl⟩
      · exact ⟨"..=", eq_of_beq htext, rfl⟩
    · next hrange =>
      rw [NodeKind.wording_of_isCompound hkind hrange]
      exact Option.isNone_iff_eq_none.mp htext

theorem Node.Sourced.legible {C : Comment → Prop} (h : n.Sourced C (startOf source).rest) :
    n.Legible := by
  induction h with
  | leaf ht h => exact h.legible ht
  | part => exact LiteralPart.legible _
  | comment => exact ⟨_, rfl⟩
  | silent h => exact h.legible
  | labelled _ _ ih => exact ih

/-- What the nodes of a parsed tree say is told from what stands behind it. -/
theorem parseSource_legible (source : String) :
    (parseSource source).file.toNode.Everywhere Node.Legible :=
  (parseSource_sourced source).imp fun _ h => h.legible

/-- **Written trees are unambiguous.**  Two nodes of parsed trees, of the same text or of two, are
written alike just if they are equal as labelled trees. -/
theorem sexp_unambiguous {source source' : String} {n m : Node}
    (hn : n ∈ (parseSource source).file.toNode.nodes)
    (hm : m ∈ (parseSource source').file.toNode.nodes) : n.sexp = m.sexp ↔ n.Alike m :=
  Node.sexp_eq_iff ((parseSource_legible source).subtree hn)
    ((parseSource_legible source').subtree hm)

/-- A comment with parentheses and a string with a quote. -/
def parenthesizedText : String := "// )(x\nfn f() \x7b x = \"\\\" (\"; \x7d"

/-- The same, but for where all of it stands. -/
def spreadText : String := "// )(x\n\nfn f()\n\x7b\n  x = \"\\\" (\" ;\n\x7d"

theorem sexp_unambiguous_spreadText :
    (parseSource parenthesizedText).file.toNode.Alike (parseSource spreadText).file.toNode := by
  refine (sexp_unambiguous (Node.mem_nodes_self _) (Node.mem_nodes_self _)).mp ?_
  decide +kernel

end FrontEnd
