/-
Comments and the tokens behind them.

A comment stands in the gap before one token, the first that starts behind it, and comments are
handed out gap by gap:

* `Follows` — the token is the first one behind a piece of trivia;
* `State.Fresh` — nothing has been handed out behind the last consumed token;
* `State.InPlace.comments_iff` — a fresh state hands out just the comments that its next token
  follows;
* `Row` — nodes that are read one after the other, each with the comments behind it;
* `Row.led_iff` — the comments in a row and before it are those before its nodes and before the
  token that it ends at.

A row starts where comments have just been handed out, so those before its first node stand
before the row.  `Row.comments_iff` has them as a case of their own, which the induction needs.
-/
import FrontEnd.Proofs.Parser.Trail

namespace FrontEnd

/-! ### The token behind a comment -/

/-- Of the tokens, `t` is the first that starts behind the piece of trivia. -/
structure Follows (ts : List Token) (x : Trivia) (t : Token) : Prop where
  mem : t ∈ ts
  behind : x.span.stop.offset ≤ t.span.start.offset
  first : ∀ u ∈ ts, x.span.stop.offset ≤ u.span.start.offset →
    t.span.start.offset ≤ u.span.start.offset

/-- The first token found behind a piece of trivia is the one that follows it. -/
theorem follows_of_find? {ts : List Token} {x : Trivia} {t : Token}
    (hsorted : ts.Pairwise fun a b => a.span.start.offset ≤ b.span.start.offset)
    (h : ts.find? (x.span.stop.offset ≤ ·.span.start.offset) = some t) : Follows ts x t := by
  obtain ⟨hbehind, before, after, rfl, hbefore⟩ := List.find?_eq_some_iff_append.mp h
  refine ⟨by simp, of_decide_eq_true hbehind, fun u hu hle => ?_⟩
  rcases List.mem_append.mp hu with hmem | hmem
  · have hnot := hbefore u hmem
    simp only [hle, decide_true, Bool.not_true, Bool.false_eq_true] at hnot
  · rcases List.mem_cons.mp hmem with rfl | hlater
    · exact Nat.le_refl _
    · obtain ⟨-, htail, -⟩ := List.pairwise_append.mp hsorted
      exact (List.pairwise_cons.mp htail).1 u hlater

/-- Nothing starts inside a token. -/
def Clear (T : List Token) (trivia : List Trivia) : Prop :=
  ∀ x ∈ trivia, ∀ t ∈ T, t.span.start.offset ≤ x.span.start.offset →
    t.span.stop.offset ≤ x.span.start.offset

namespace Parser

variable {α : Type} {T : List Token} {s s' : State} {ts : List Token} {x : Trivia} {t : Token}

namespace State.InPlace

theorem current_mem (h : s.InPlace T) : s.current ∈ T ++ [s.eof] := by
  rw [← h.all]
  unfold State.current State.peek
  cases s.rest <;> simp

/-- A token of the text has been consumed, or it does not start before the next one. -/
theorem consumed_or_ahead (h : s.InPlace T) (ht : t ∈ T ++ [s.eof]) :
    (t.Fits ∧ t.span.stop.offset ≤ s.reached) ∨ s.position.offset ≤ t.span.start.offset := by
  have hrest := h.rest
  have hposition : ∀ u ∈ s.rest ++ [s.eof], s.position.offset ≤ u.span.start.offset := by
    intro u hu
    unfold State.position State.current State.peek
    cases hnext : s.rest with
    | nil =>
      rw [hnext, List.nil_append, List.mem_singleton] at hu
      rw [hu]
      exact Nat.le_refl _
    | cons v behind =>
      rw [hnext] at hrest hu
      obtain ⟨-, hfits, hbehind⟩ := hrest
      have hlt := hfits.start_lt_stop
      rcases List.mem_cons.mp hu with rfl | hmem
      · exact Nat.le_refl _
      · rcases List.mem_append.mp hmem with hlater | hlast
        · have hle := (hbehind.of_mem hlater).1
          show v.span.start.offset ≤ _
          omega
        · have hle := hbehind.le
          rw [List.mem_singleton.mp hlast]
          show v.span.start.offset ≤ _
          omega
  have htokens := h.arranged.tokens
  rw [← h.all] at htokens ht
  rw [List.append_assoc] at ht
  rcases List.mem_append.mp ht with hmem | hahead
  · left
    unfold State.reached
    cases hconsumed : s.consumed with
    | nil => simp [hconsumed] at hmem
    | cons v before =>
      rw [hconsumed, List.reverse_cons, List.append_assoc] at htokens
      rw [hconsumed, List.reverse_cons] at hmem
      obtain ⟨mid, hbefore, hstart, hfits, -⟩ := htokens.split
      have hlast : TokensAt mid [v] v.span.stop.offset := ⟨hstart, hfits, Nat.le_refl _⟩
      exact ((hbefore.append hlast).of_mem hmem).2
  · exact .inr (hposition t hahead)

/-- A piece of trivia stands behind all tokens that do not start behind it. -/
theorem reached_le (h : s.InPlace T) (hclear : Clear T s.trivia) (hx : x ∈ s.trivia)
    (hnone : ∀ u ∈ T, u.span.start.offset < s.position.offset →
      u.span.start.offset < x.span.stop.offset) :
    s.reached ≤ x.span.start.offset := by
  unfold State.reached
  cases hconsumed : s.consumed with
  | nil => exact Nat.zero_le _
  | cons u before =>
    have hu : u ∈ T := by
      rw [← h.all, hconsumed]
      simp
    have hposition := h.reached_le_position
    have hlt := (h.arranged.tokens.of_mem hu).2.1.start_lt_stop
    simp only [State.reached, hconsumed] at hposition
    have hbefore := hnone u hu (by omega)
    have hapart := h.arranged.apart x hx u (by simp [hu])
    exact hclear x hx u hu (by omega)

end State.InPlace

/-! ### Comments in one gap -/

/-- Nothing has been handed out behind the last consumed token. -/
def State.Fresh (s : State) : Prop := s.commentsTaken ≤ s.reached

/-- Reading on leaves comments behind that have not been handed out. -/
theorem Reads.fresh (h : Reads s ts s') (hs : s.InPlace T) (hhanded : s.Handed) (hne : ts ≠ []) :
    s'.Fresh := by
  have hle := (hs.tokensAt_position h.toPasses hne).le
  unfold State.Handed at hhanded
  unfold State.Fresh
  rw [h.commentsTaken]
  omega

/-- A fresh state hands out just the comments that its next token follows. -/
theorem State.InPlace.comments_iff (hs : s.InPlace T) (hclear : Clear T s.trivia)
    (hfresh : s.Fresh) (hx : x ∈ s.trivia) (hcomment : x.kind.comment?.isSome)
    (ht : Follows (T ++ [s.eof]) x t) :
    (∃ c ∈ s.comments, c.span = x.span) ↔ t.span.start.offset = s.position.offset := by
  have hlt := hs.arranged.trivia_lt x hx
  have hbehind := ht.behind
  constructor
  · rintro ⟨c, hc, hspan⟩
    obtain ⟨hfirst, -, hlast⟩ := hs.offset_of_mem_comments hc
    rw [hspan] at hfirst hlast
    have hle := ht.first s.current hs.current_mem hlast
    rcases hs.consumed_or_ahead ht.mem with ⟨hfits, hstop⟩ | hahead
    · -- A consumed token ends before the comment starts.
      have hpos := hfits.start_lt_stop
      omega
    · exact Nat.le_antisymm hle hahead
  · intro hnext
    have hreached : s.reached ≤ x.span.start.offset := by
      refine hs.reached_le hclear hx fun u hu hearlier => Nat.lt_of_not_le fun hle => ?_
      have hfirst := ht.first u (by simp [hu]) hle
      omega
    obtain ⟨kind, hkind⟩ := Option.isSome_iff_exists.mp hcomment
    have hof : Comment.ofTrivia? x = some ⟨kind, x.text, x.span⟩ := by
      simp [Comment.ofTrivia?, hkind]
    have hfrom : s.commentsFrom = s.reached := by
      rw [commentsFrom_eq]
      exact Nat.max_eq_left hfresh
    have hin : x.span.startsIn s.commentsFrom s.position.offset := by
      simp only [Span.startsIn, Bool.and_eq_true, decide_eq_true_eq]
      omega
    refine ⟨⟨kind, x.text, x.span⟩, ?_, rfl⟩
    rw [hs.comments_eq]
    exact List.mem_filterMap.mpr ⟨x, List.mem_filter.mpr ⟨hx, hin⟩, hof⟩

/-! ### Rows -/

/-- A comment among the nodes has this span. -/
def Remarked (ns : List Node) (span : Span) : Prop := ∃ n ∈ ns, n.kind = .comment ∧ n.span = span

/-- One of the nodes that are no comments starts here. -/
def Entered (ns : List Node) (start : Nat) : Prop :=
  ∃ n ∈ ns, n.kind ≠ .comment ∧ n.span.start.offset = start

theorem not_remarked {ns : List Node} {span : Span} (h : ∀ n ∈ ns, n.kind ≠ .comment) :
    ¬ Remarked ns span := by
  rintro ⟨n, hn, hkind, -⟩
  exact h n hn hkind

theorem remarked_append {ns ms : List Node} {span : Span} :
    Remarked (ns ++ ms) span ↔ Remarked ns span ∨ Remarked ms span := by
  simp [Remarked, or_and_right, exists_or]

theorem entered_append {ns ms : List Node} {start : Nat} :
    Entered (ns ++ ms) start ↔ Entered ns start ∨ Entered ms start := by
  simp [Entered, or_and_right, exists_or]

theorem remarked_comments {cs : List Comment} {span : Span} :
    Remarked (cs.map (·.toNode)) span ↔ ∃ c ∈ cs, c.span = span := by
  simp [Remarked, Comment.toNode]

theorem not_entered_comments {cs : List Comment} {start : Nat} :
    ¬ Entered (cs.map (·.toNode)) start := by
  simp [Entered, Comment.toNode]

/-- The node is made from the next token on, and the comments behind it are not handed out yet. -/
structure Entry (s : State) (n : Node) (s₁ : State) : Prop where
  kind_ne : n.kind ≠ .comment
  start_eq : n.span.start = s.position
  passes : ∃ ts, Passes s ts s₁
  fresh : s₁.Fresh

/-- Nodes that are read one after the other, each of them with the comments behind it. -/
inductive Row : State → List Node → State → Prop
  | nil (s : State) : Row s [] s
  | cons {s s₁ s' : State} {n : Node} {ns : List Node} (hentry : Entry s n s₁)
    (h : Row s₁.commented ns s') : Row s (n :: (s₁.comments.map (·.toNode) ++ ns)) s'
  /-- Comments are asked for once more. -/
  | again {s s' : State} {ns : List Node} (h : Row s.commented ns s') : Row s ns s'

theorem Row.append {s'' : State} {ns ms : List Node} (h : Row s ns s') (h' : Row s' ms s'') :
    Row s (ns ++ ms) s'' := by
  induction h with
  | nil => exact h'
  | cons hentry _ ih =>
    rw [List.cons_append, List.append_assoc]
    exact .cons hentry (ih h')
  | again _ ih => exact .again (ih h')

/-- The comments in a row, and those before it, are the ones before its items and before the token
that it ends at. -/
theorem Row.comments_iff {ns : List Node} (h : Row s ns s') (hs : s.InPlace T)
    (hclear : Clear T s.trivia) (hx : x ∈ s.trivia) (hcomment : x.kind.comment?.isSome)
    (ht : Follows (T ++ [s.eof]) x t) :
    Remarked ns x.span ∨ t.span.start.offset = s.position.offset ↔
      Entered ns t.span.start.offset ∨ t.span.start.offset = s'.position.offset := by
  induction h with
  | nil s => simp [Remarked, Entered]
  | again _ ih => exact ih (hs.passes (Passes.refl _).commented) hclear hx ht
  | @cons s s₁ s' n ns hentry _ ih =>
    obtain ⟨ts, hpass⟩ := hentry.passes
    have hs₁ := hs.passes hpass
    rw [← hpass.trivia] at hclear hx
    rw [← hpass.eof] at ht
    have hgap := hs₁.comments_iff hclear hentry.fresh hx hcomment ht
    have hrest := ih (hs.passes hpass.commented) hclear hx ht
    have hposition : s₁.commented.position = s₁.position := rfl
    rw [hposition] at hrest
    have hnode : Remarked [n] x.span ↔ False := by simp [Remarked, hentry.kind_ne]
    have hstart : Entered [n] t.span.start.offset ↔
        t.span.start.offset = s.position.offset := by
      simpa [Entered, hentry.kind_ne, hentry.start_eq] using eq_comm
    rw [← List.singleton_append, remarked_append, remarked_append, entered_append, entered_append,
      remarked_comments, hgap, hnode, hstart, iff_false_intro not_entered_comments, false_or,
      false_or, or_comm (b := Remarked ns x.span), hrest, or_comm, or_assoc]

/-- The comments before a row and in it are those before its items and before the token that it
ends at. -/
theorem Row.led_iff {ns : List Node} (h : Row s.commented ns s') (hs : s.InPlace T)
    (hfresh : s.Fresh) (hclear : Clear T s.trivia) (hx : x ∈ s.trivia)
    (hcomment : x.kind.comment?.isSome) (ht : Follows (T ++ [s.eof]) x t) :
    Remarked (s.comments.map (·.toNode) ++ ns) x.span ↔
      Entered (s.comments.map (·.toNode) ++ ns) t.span.start.offset ∨
        t.span.start.offset = s'.position.offset := by
  have hgap := hs.comments_iff hclear hfresh hx hcomment ht
  have hrow := h.comments_iff (hs.passes (Passes.refl s).commented) hclear hx hcomment ht
  have hposition : s.commented.position = s.position := rfl
  rw [hposition] at hrow
  rw [remarked_append, remarked_comments, hgap, or_comm, hrow, entered_append,
    iff_false_intro not_entered_comments, false_or]

end Parser

end FrontEnd
