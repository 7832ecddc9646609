/-
Comments and the nodes that hold them.

A comment is handed out before it is known whether the block around it is closed, and a block
ends with the last token that it consumes.  So comments lie inside the nodes that hold them with
one exception:

* `comments_housed` — a comment lies inside the file, struct or block that holds it, or that is a
  block without its closing brace, and the comment lies between its last token and the token that
  stands where the brace is missed;
* `comment_not_housed` — the exception occurs in a text of one line.

A struct without its closing brace is no struct, so blocks are the only nodes that can end early.
-/
import FrontEnd.Proofs.Grammar.Origins
import FrontEnd.Proofs.Parser.Gaps

namespace FrontEnd

/-- The comment lies inside the node; or the node is a block, a closing brace is missed behind it,
and the comment lies between the two, with no token there. -/
def Node.Houses (tokens : List Token) (diagnostics : List Diagnostic) (n c : Node) : Prop :=
  n.span.contains c.span ∨
    n.kind = .block ∧ n.span.stop.offset ≤ c.span.start.offset ∧
      ∃ d ∈ diagnostics, d.cause.isOpenBlock ∧ c.span.stop.offset ≤ d.span.start.offset ∧
        ∀ t ∈ tokens, t.span.stop.offset ≤ n.span.stop.offset ∨
          d.span.start.offset ≤ t.span.start.offset

theorem Node.Houses.mono {tokens : List Token} {ds es : List Diagnostic} {n c : Node}
    (h : n.Houses tokens ds c) (hsub : ∀ d ∈ ds, d ∈ es) : n.Houses tokens es c := by
  refine h.imp_right ?_
  rintro ⟨hkind, hbehind, d, hd, hmissed⟩
  exact ⟨hkind, hbehind, d, hsub d hd, hmissed⟩

/-- Of two nodes that stand in order, one ends before the other starts. -/
theorem NodesAt.apart {T : List Token} {ns : List Node} {a b : Node} {lo hi : Nat}
    (h : NodesAt T lo ns hi) (ha : a ∈ ns) (hb : b ∈ ns) (hne : a ≠ b) :
    a.span.stop.offset ≤ b.span.start.offset ∨ b.span.stop.offset ≤ a.span.start.offset := by
  have hpair : ns.Pairwise fun x y => x ≠ y →
      x.span.stop.offset ≤ y.span.start.offset ∨ y.span.stop.offset ≤ x.span.start.offset :=
    h.pairwise.imp fun hle _ => .inl hle
  have hflip : ns.Pairwise (flip fun x y => x ≠ y →
      x.span.stop.offset ≤ y.span.start.offset ∨ y.span.stop.offset ≤ x.span.start.offset) :=
    h.pairwise.imp fun hle _ => .inr hle
  exact hpair.forall_of_forall_of_flip (fun x _ hx => absurd rfl hx) hflip ha hb hne

/-- A comment in a row overlaps none of the tokens that the row is made of. -/
theorem Each.comment_beside {T : List Token} {ns : List Node} {ts : List Token} {c : Node}
    {t : Token} {lo hi lo' hi' : Nat} (h : Each (InRow (Laid T)) ns ts)
    (htokens : TokensAt lo ts hi) (hnodes : NodesAt T lo' ns hi') (hc : c ∈ ns)
    (hcomment : c.kind = .comment) (ht : t ∈ ts) :
    c.span.stop.offset ≤ t.span.start.offset ∨ t.span.stop.offset ≤ c.span.start.offset := by
  -- The token lies inside a node that is no comment, and the comment on one side of that.
  have hone := h.holding_eq_one htokens ht
  obtain ⟨n, hn, hholds⟩ := List.countP_pos_iff.mp (Nat.lt_of_lt_of_eq Nat.one_pos hone.symm)
  obtain ⟨hkind, hinside⟩ := of_decide_eq_true hholds
  obtain ⟨hstart, hstop⟩ := Span.contains_iff.mp hinside
  have hne : c ≠ n := by
    rintro rfl
    exact hkind hcomment
  rcases hnodes.apart hc hn hne with hbefore | hbehind
  · exact .inl (by omega)
  · exact .inr (by omega)

namespace Parser

variable {T : List Token} {s s' : State} {ts : List Token} {c : Node}

/-- What is covered reaches from the next token of one state to the last one consumed in the
other. -/
theorem State.InPlace.spanFrom_offsets (hs : s.InPlace T) (hpass : Passes s ts s') (hne : ts ≠ []) :
    (s'.spanFrom s.position).start.offset = s.position.offset ∧
      (s'.spanFrom s.position).stop.offset = s'.reached := by
  have hle := (hs.tokensAt_position hpass hne).le
  obtain ⟨us, t, rfl⟩ := List.eq_nil_or_concat ts |>.resolve_left hne
  have hconsumed : s'.consumed = t :: (us.reverse ++ s.consumed) := by
    rw [hpass.consumed]
    simp
  unfold State.spanFrom State.previousEnd State.reached at *
  rw [hconsumed] at hle ⊢
  dsimp only at hle ⊢
  rw [if_neg (by omega)]
  exact ⟨rfl, rfl⟩

/-- A comment in a row lies before the last of the tokens consumed there, or behind it. -/
theorem State.InPlace.comment_beside {o : Token} {ns : List Node} {hi : Nat} (hs : s.InPlace T)
    (hpass : Passes s (o :: ts) s') (hnodes : NodesAt T o.span.stop.offset ns hi)
    (hrow : Each (InRow (Laid T)) ns ts) (hc : c ∈ ns) (hcomment : c.kind = .comment) :
    c.span.stop.offset ≤ s'.reached ∨ s'.reached ≤ c.span.start.offset := by
  have htokens := (hs.tokensAt hpass).2.2
  have hconsumed := hpass.consumed
  unfold State.reached
  rcases List.eq_nil_or_concat ts with rfl | ⟨us, t, rfl⟩
  · rw [hconsumed]
    exact .inr (hnodes.of_mem hc).1
  · have ht : t ∈ us.concat t := by simp
    have hlt := (htokens.of_mem ht).2.1.start_lt_stop
    have hlast : s'.consumed = t :: (us.reverse ++ o :: s.consumed) := by
      rw [hconsumed]
      simp
    rw [hlast]
    refine (hrow.comment_beside htokens hnodes hc hcomment ht).imp_left fun hle => ?_
    exact Nat.le_trans hle (Nat.le_of_lt hlt)

/-! ### Blocks and structs -/

/-- A block that is closed holds its comments inside; one that is not has only those inside that
stand before its last token. -/
theorem houses_block {b : Block} (hs : s.InPlace T) (hrun : block Grammar.standard s = .ok b s')
    (hc : c ∈ b.toNode.children) (hcomment : c.kind = .comment) :
    b.toNode.Houses (T ++ [s.eof]) s'.diagnostics.reported c := by
  rw [Recursion.block.eq_body ()] at hrun
  obtain ⟨hopen, items, s₁, hitems, hclose⟩ := blockOf_eq_ok hrun
  obtain ⟨ts, hpass, -, hnodes, hrow⟩ := blockItems_laid lays_block settles_block hopen hs hitems
  obtain ⟨hstatements, hend⟩ := closeBlock_cases hclose
  rw [Block.children_toNode, hstatements] at hc
  obtain ⟨hfirst, -, hlast⟩ := hnodes.of_mem hc
  have hs₁ := hs.passes hpass
  have hopening := (hs.tokensAt_position hpass (by simp)).2.1.start_lt_stop
  have hposition : s.position.offset = s.current.span.start.offset := rfl
  unfold Node.Houses
  rw [Block.kind_toNode, Block.span_toNode, Span.contains_iff]
  rcases hend with ⟨hright, hspan, rfl⟩ | ⟨-, hspan, rfl⟩
  · have hproper : s₁.current.kind ≠ .eof := by simp [hright]
    have hbrace := passes_advance hproper
    have hclosing := (hs₁.tokensAt_position hbrace (by simp)).le
    obtain ⟨hstart, hstop⟩ := hs.spanFrom_offsets (hpass.append hbrace) (by simp)
    refine .inl ?_
    rw [hspan]
    exact ⟨by omega, by omega⟩
  · obtain ⟨hstart, hstop⟩ := hs.spanFrom_offsets hpass (by simp)
    rw [hspan]
    rcases hs.comment_beside hpass hnodes hrow hc hcomment with hbefore | hbehind
    · exact .inl ⟨by omega, by omega⟩
    · refine .inr ⟨rfl, by omega, s₁.notFound "block" (.symbol .closeCurly), ?_, rfl, ?_, ?_⟩
      · simp [Diagnostics.push]
      · rw [span_notFound]
        exact hlast
      · intro t ht
        rw [span_notFound, hstop]
        rw [← hpass.eof] at ht
        exact (hs₁.consumed_or_ahead ht).imp_left fun h => h.2

/-- A struct ends with its closing brace, and holds its comments inside. -/
theorem contains_struct {d : StructDef} (hs : s.InPlace T)
    (hrun : structDef Grammar.standard s = .ok d s') (hc : c ∈ d.toNode.children)
    (hcomment : c.kind = .comment) : d.toNode.span.contains c.span := by
  obtain ⟨us, s₁, s₂, hread, hne, hmembers, hclose, hspan, rfl⟩ := structDef_eq_ok hrun
  have hhead := hread.toPasses
  have hs₁ := hs.passes hhead
  obtain ⟨fields, methods, s₃, ts, -, -, -, hpass, hd, hnodes, hsolid⟩ :=
    structMembers_rows hs₁ hmembers
  have hproper : s₂.current.kind ≠ .eof := by simp [hclose]
  have hbrace := passes_advance hproper
  have hopening := (hs.tokensAt_position hhead hne).le
  have hclosing := ((hs₁.passes hpass).tokensAt_position hbrace (by simp)).le
  obtain ⟨hstart, hstop⟩ := hs.spanFrom_offsets ((hhead.append hpass).append hbrace) (by simp)
  rw [d.children_toNode, members_eq_structRow hd hnodes hsolid, List.mem_cons,
    List.mem_append] at hc
  rcases hc with rfl | hc | hc
  · exact absurd hcomment (NodeKind.ne_comment_of_isPhrase rfl)
  · exact absurd hcomment
      (NodeKind.ne_comment_of_isPhrase (phrase_genericNodes d.generic c hc).here)
  · obtain ⟨hfirst, -, hlast⟩ := hnodes.of_mem hc
    refine Span.contains_iff.mpr ?_
    change d.span.start.offset ≤ _ ∧ _ ≤ d.span.stop.offset
    rw [hspan]
    exact ⟨by omega, by omega⟩

/-- Whatever a node comes from, it holds comments as it should. -/
theorem Origin.houses {n : Node} (h : Origin s s' n) (hs : s.InPlace T) (hc : c ∈ n.children)
    (hcomment : c.kind = .comment) :
    n.kind.isPlace ∧ n.Houses (T ++ [s.eof]) s'.diagnostics.reported c := by
  induction h with
  | plain _ h => exact absurd hcomment (h c hc)
  | block hbefore hrun hbehind =>
    have heof := hbefore.eof
    have hhouses := houses_block (hbefore.inPlace hs) hrun hc hcomment
    rw [heof] at hhouses
    exact ⟨by rw [Block.kind_toNode]; rfl, hhouses.mono fun _ => hbehind.reported⟩
  | struct hbefore hrun hbehind =>
    exact ⟨rfl, .inl (contains_struct (hbefore.inPlace hs) hrun hc hcomment)⟩
  | labelled _ _ ih => exact ih hc

end Parser

/-! ### Texts -/

theorem tokens_parseSource (source : String) :
    (parseSource source).stream.tokens = (startOf source).rest ++ [(startOf source).eof] :=
  tokens_tokenize source

/-- Comments stay with the nodes that hold them.  In the tree of every text, however broken it is,
a comment is held by a file, a block or a struct, and it lies inside that node; or the node is a
block without its closing brace, and the comment lies behind its last token and before the next
one, at which the missing brace is reported. -/
theorem comments_housed (source : String) :
    ∀ entry ∈ (parseSource source).file.toNode.preorder 0, ∀ c ∈ entry.2.children,
      c.kind = .comment → entry.2.kind.isPlace ∧
        entry.2.Houses (parseSource source).stream.tokens (parseSource source).diagnostics c := by
  obtain ⟨file, s, hrun, -, horigins⟩ := parseSource_origins source
  obtain ⟨hnodes, -, hstart, hstop⟩ := parseSource_laid source
  have hrecorded : ∀ d ∈ s.diagnostics.reported, d ∈ (parseSource source).diagnostics := by
    intro d hd
    rw [parseSource_eq hrun]
    exact Diagnostics.mem_sorted.mpr (List.mem_append_right _ hd)
  have hfile : (parseSource source).file = file := by rw [parseSource_eq hrun]
  have hall : (parseSource source).file.toNode.Everywhere fun n => ∀ c ∈ n.children,
      c.kind = .comment → n.kind.isPlace ∧
        n.Houses (parseSource source).stream.tokens (parseSource source).diagnostics c := by
    refine .mk (fun c hc _ => ⟨rfl, .inl ?_⟩) fun n hn => ?_
    · obtain ⟨hfirst, -, hlast⟩ := hnodes.of_mem hc
      refine Span.contains_iff.mpr ⟨?_, ?_⟩
      · exact Nat.le_trans (Nat.le_of_eq hstart) hfirst
      · exact Nat.le_trans hlast (Nat.le_of_eq hstop.symm)
    · rw [hfile] at hn
      refine (horigins n hn).imp fun m hm c hc hcomment => ?_
      obtain ⟨hplace, hhouses⟩ := hm.houses (inPlace_startOf source) hc hcomment
      rw [tokens_parseSource]
      exact ⟨hplace, hhouses.mono hrecorded⟩
  exact fun entry hentry => hall.of_mem_preorder hentry

/-- A function whose body is a brace and a comment. -/
def openBodyText : String := "fn f() \x7b // c"

theorem comments_housed_openBodyText :
    ∃ entry ∈ (parseSource openBodyText).file.toNode.preorder 0, ∃ c ∈ entry.2.children,
      c.kind = .comment ∧ entry.2.kind.isPlace ∧
        entry.2.Houses (parseSource openBodyText).stream.tokens
          (parseSource openBodyText).diagnostics c := by
  obtain ⟨entry, hentry, c, hc, hcomment⟩ :
      ∃ entry ∈ (parseSource openBodyText).file.toNode.preorder 0, ∃ c ∈ entry.2.children,
        c.kind = .comment := by
    decide +kernel
  exact ⟨entry, hentry, c, hc, hcomment, comments_housed openBodyText entry hentry c hc hcomment⟩

/-- The comment in that function lies outside of the block that holds it. -/
theorem comment_not_housed :
    ∃ entry ∈ (parseSource openBodyText).file.toNode.preorder 0, ∃ c ∈ entry.2.children,
      c.kind = .comment ∧ entry.2.kind = .block ∧ ¬ entry.2.span.contains c.span := by
  decide +kernel

end FrontEnd
