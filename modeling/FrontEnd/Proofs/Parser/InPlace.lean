/-
Parsers that put nodes in their places.

Where the pieces of a text stand in order, what is made of consumed tokens stands where these
stand, and comments that are handed out stand between the last consumed token and the next
one.

* `Arranged` — the pieces of a text stand in order; `arranged_text` says so of every text;
* `State.InPlace` — a state among the tokens of a text;
* `Lays` — what a parser that succeeds makes of the tokens it passes, whatever it records;
* `Fills` — nodes from the next token of one state up to that of another, and the tokens they
  are made of.

Diagnostics and open braces do not matter to where nodes stand, and neither does how far
comments have been handed out: it only makes fewer of them.
-/
import FrontEnd.Proofs.Grammar.Progress
import FrontEnd.Proofs.Token.Lines
import FrontEnd.Proofs.Tree.Coverage

namespace FrontEnd

/-! ### The pieces of a text -/

/-- Tokens stand one after the other up to the end of the input, so do trivia, and none of
these reaches over the start of a token. -/
structure Arranged (T : List Token) (trivia : List Trivia) (eof : Token) : Prop where
  tokens : TokensAt 0 T eof.span.start.offset
  trivia_lt : ∀ x ∈ trivia, x.span.start.offset < x.span.stop.offset
  trivia_pairwise : trivia.Pairwise fun x y => x.span.stop.offset ≤ y.span.start.offset
  apart : ∀ x ∈ trivia, ∀ t ∈ T ++ [eof], x.span.start.offset < t.span.start.offset →
    x.span.stop.offset ≤ t.span.start.offset

theorem Arranged.trivia_sorted {T : List Token} {trivia : List Trivia} {eof : Token}
    (h : Arranged T trivia eof) :
    trivia.Pairwise fun x y => x.span.start.offset ≤ y.span.start.offset := by
  refine h.trivia_pairwise.imp_of_mem fun {x y} hx _ hle => ?_
  have hlt := h.trivia_lt x hx
  omega

/-- The tokens of a text, and its end, start one behind the other. -/
theorem Arranged.pairwise_start {T : List Token} {trivia : List Trivia} {eof : Token}
    (h : Arranged T trivia eof) :
    (T ++ [eof]).Pairwise fun t u => t.span.start.offset < u.span.start.offset := by
  have hlt : ∀ t ∈ T, t.span.start.offset < t.span.stop.offset :=
    fun t ht => (h.tokens.of_mem ht).2.1.start_lt_stop
  refine List.pairwise_append.mpr ⟨?_, List.pairwise_singleton _ _, fun t ht u hu => ?_⟩
  · exact h.tokens.pairwise.imp_of_mem fun ht _ hle => Nat.lt_of_lt_of_le (hlt _ ht) hle
  · rw [List.mem_singleton.mp hu]
    exact Nat.lt_of_lt_of_le (hlt t ht) (h.tokens.of_mem ht).2.2

theorem Arranged.pairwise_stop {T : List Token} {trivia : List Trivia} {eof : Token}
    (h : Arranged T trivia eof) :
    T.Pairwise fun t u => t.span.stop.offset < u.span.stop.offset :=
  h.tokens.pairwise.imp_of_mem fun _ hu hle =>
    Nat.lt_of_le_of_lt hle (h.tokens.of_mem hu).2.1.start_lt_stop

section

variable {p : Position} {ls : List Lexeme} (hproper : ∀ l ∈ ls, l.text ≠ [])

include hproper

theorem tokensAt_placedTokens :
    TokensAt p.offset (placedTokens p ls) (p.after (lexemesText ls)).offset := by
  induction ls generalizing p with
  | nil => exact Nat.le_refl _
  | cons l ls ih =>
    have hrest := ih (p := p.after l.text) fun l' hl' => hproper l' (by simp [hl'])
    have hle : p.offset ≤ (p.after l.text).offset := by
      rw [Position.offset_after]
      omega
    rw [lexemesText_cons, Position.after_append]
    unfold placedTokens
    split
    · refine ⟨Nat.le_refl _, ⟨?_, ?_⟩, hrest⟩
      · rw [String.toList_ofList]
        exact hproper l (by simp)
      · rw [String.toList_ofList]
        exact Position.offset_after p l.text
    · exact hrest.mono hle (Nat.le_refl _)

/-- A piece of trivia is not empty, and ends within the text. -/
theorem offset_of_mem_placedTrivia {x : Trivia} (hx : x ∈ placedTrivia p ls) :
    p.offset ≤ x.span.start.offset ∧ x.span.start.offset < x.span.stop.offset ∧
      x.span.stop.offset ≤ (p.after (lexemesText ls)).offset := by
  induction ls generalizing p with
  | nil => simp [placedTrivia] at hx
  | cons l ls ih =>
    have hpos := byteLength_pos (hproper l (by simp))
    have hlater : x ∈ placedTrivia (p.after l.text) ls → _ :=
      ih (p := p.after l.text) fun l' hl' => hproper l' (by simp [hl'])
    rw [lexemesText_cons, Position.after_append]
    simp only [Position.offset_after] at hlater ⊢
    unfold placedTrivia at hx
    split at hx
    · have hbounds := hlater hx
      omega
    · rcases List.mem_cons.mp hx with rfl | hmem
      · simp only [Lexeme.spanAt, Position.offset_after]
        omega
      · have hbounds := hlater hmem
        omega

theorem placedTrivia_pairwise_apart :
    (placedTrivia p ls).Pairwise fun x y => x.span.stop.offset ≤ y.span.start.offset := by
  induction ls generalizing p with
  | nil => exact .nil
  | cons l ls ih =>
    have hrest := ih (p := p.after l.text) fun l' hl' => hproper l' (by simp [hl'])
    unfold placedTrivia
    split
    · exact hrest
    · exact .cons (fun y hy => le_offset_of_mem_placedTrivia hy) hrest

/-- Of a token and a piece of trivia one ends before the other starts. -/
theorem placedTrivia_beside {x : Trivia} {t : Token} (hx : x ∈ placedTrivia p ls)
    (ht : t ∈ placedTokens p ls) : x.span.stop.offset ≤ t.span.start.offset ∨
      t.span.stop.offset ≤ x.span.start.offset := by
  induction ls generalizing p with
  | nil => simp [placedTrivia] at hx
  | cons l ls ih =>
    have hproper' : ∀ l' ∈ ls, l'.text ≠ [] := fun l' hl' => hproper l' (by simp [hl'])
    unfold placedTrivia at hx
    unfold placedTokens at ht
    cases hkind : l.kind with
    | token kind =>
      rw [hkind] at hx ht
      rcases List.mem_cons.mp ht with rfl | hmem
      · exact .inr (le_offset_of_mem_placedTrivia hx)
      · exact ih hproper' hx hmem
    | trivia kind =>
      rw [hkind] at hx ht
      rcases List.mem_cons.mp hx with rfl | hmem
      · exact .inl ((tokensAt_placedTokens hproper').of_mem ht).1
      · exact ih hproper' hmem ht

theorem placedTrivia_apart {x : Trivia} {t : Token} (hx : x ∈ placedTrivia p ls)
    (ht : t ∈ placedTokens p ls) (hlt : x.span.start.offset < t.span.start.offset) :
    x.span.stop.offset ≤ t.span.start.offset := by
  have hsize := ((tokensAt_placedTokens hproper).of_mem ht).2.1.start_lt_stop
  have hbeside := placedTrivia_beside hproper hx ht
  omega

/-- Nothing starts inside a token. -/
theorem placedTrivia_clear {x : Trivia} {t : Token} (hx : x ∈ placedTrivia p ls)
    (ht : t ∈ placedTokens p ls) (hle : t.span.start.offset ≤ x.span.start.offset) :
    t.span.stop.offset ≤ x.span.start.offset := by
  have hsize := (offset_of_mem_placedTrivia hproper hx).2.1
  have hbeside := placedTrivia_beside hproper hx ht
  omega

end

/-- The pieces of every text stand in order. -/
theorem arranged_text (text : List Char) :
    Arranged (placedTokens Position.start (lexemes text))
      (placedTrivia Position.start (lexemes text))
      (Token.eofAt (Position.start.after text)) := by
  have hproper : ∀ l ∈ lexemes text, l.text ≠ [] := fun l hl => (lexeme_proper hl).1
  have htokens := tokensAt_placedTokens (p := Position.start) hproper
  rw [lexemesText_lexemes] at htokens
  refine ⟨htokens, fun x hx => (offset_of_mem_placedTrivia hproper hx).2.1,
    placedTrivia_pairwise_apart hproper, fun x hx t ht hlt => ?_⟩
  rcases List.mem_append.mp ht with hmem | heof
  · exact placedTrivia_apart hproper hx hmem hlt
  · rw [List.mem_singleton.mp heof]
    have hstop := (offset_of_mem_placedTrivia hproper hx).2.2
    rwa [lexemesText_lexemes] at hstop

namespace Parser

variable {α β : Type} {T : List Token} {s s' s'' : State} {ts us : List Token} {n : Node}
  {ns ms : List Node}

/-! ### States among the tokens of a text -/

/-- Where the last consumed token ends. -/
def State.reached (s : State) : Nat :=
  match s.consumed with
  | [] => 0
  | t :: _ => t.span.stop.offset

theorem commentsFrom_eq (s : State) : s.commentsFrom = max s.reached s.commentsTaken := rfl

theorem reached_advance (h : s.current.kind ≠ .eof) :
    s.advance.reached = s.current.span.stop.offset := by
  unfold State.reached
  rw [(passes_advance h).consumed]
  rfl

/-- Two states have the same tokens between them, whatever else happened there. -/
theorem Passes.unique (h : Passes s ts s') (h' : Passes s us s') : ts = us := by
  have hrest := h.rest.symm.trans h'.rest
  exact List.append_cancel_right hrest

/-- The state stands among the tokens `T` of a text. -/
structure State.InPlace (T : List Token) (s : State) : Prop where
  all : s.consumed.reverse ++ s.rest = T
  arranged : Arranged T s.trivia s.eof

namespace State.InPlace

theorem passes (h : s.InPlace T) (hpass : Passes s ts s') : s'.InPlace T where
  all := by
    rw [← h.all, hpass.consumed, hpass.rest]
    simp
  arranged := by
    rw [hpass.trivia, hpass.eof]
    exact h.arranged

theorem rest (h : s.InPlace T) : TokensAt s.reached s.rest s.eof.span.start.offset := by
  have htokens := h.arranged.tokens
  rw [← h.all] at htokens
  unfold State.reached
  cases hconsumed : s.consumed with
  | nil =>
    rw [hconsumed] at htokens
    exact htokens
  | cons t before =>
    rw [hconsumed, List.reverse_cons, List.append_assoc] at htokens
    obtain ⟨-, -, -, -, hrest⟩ := htokens.split
    exact hrest

theorem reached_le_position (h : s.InPlace T) : s.reached ≤ s.position.offset := by
  have hrest := h.rest
  unfold State.position State.current State.peek
  cases hnext : s.rest with
  | nil =>
    rw [hnext] at hrest
    exact hrest
  | cons t behind =>
    rw [hnext] at hrest
    exact hrest.1

/-- Tokens that are passed stand between the last tokens consumed before and behind them. -/
theorem tokensAt (h : s.InPlace T) (hpass : Passes s ts s') :
    TokensAt s.reached ts s'.reached := by
  rcases List.eq_nil_or_concat ts with rfl | ⟨before, t, rfl⟩
  · have hsame : s'.reached = s.reached := by
      unfold State.reached
      rw [hpass.consumed]
      rfl
    exact Nat.le_of_eq hsame.symm
  · have hreached : s'.reached = t.span.stop.offset := by
      unfold State.reached
      rw [hpass.consumed]
      simp
    have hrest := h.rest
    rw [hpass.rest, List.concat_eq_append, List.append_assoc] at hrest
    obtain ⟨mid, hbefore, hstart, hfits, -⟩ := hrest.split
    rw [List.concat_eq_append, hreached]
    exact hbefore.append ⟨hstart, hfits, Nat.le_refl _⟩

/-- The first of the tokens that are passed is the next one. -/
theorem tokensAt_position (h : s.InPlace T) (hpass : Passes s ts s') (hne : ts ≠ []) :
    TokensAt s.position.offset ts s'.reached := by
  have htokens := h.tokensAt hpass
  cases ts with
  | nil => exact absurd rfl hne
  | cons t ts =>
    rw [State.position, current_of_rest hpass.rest]
    exact ⟨Nat.le_refl _, htokens.2⟩

/-- Of all tokens of the text, those inside what passed tokens cover are these. -/
theorem filter_covering (h : s.InPlace T) (hpass : Passes s ts s') (hne : ts ≠ []) :
    T.filter (fun t => (covering ts).contains t.span) = ts := by
  have htokens := h.arranged.tokens
  rw [← h.all, hpass.rest] at htokens ⊢
  exact htokens.filter_covering hne

end State.InPlace

/-! ### Comments between tokens -/

/-- Comments that stand one after the other between two offsets. -/
theorem nodesAt_comments {lo hi : Nat} {cs : List Comment} (hle : lo ≤ hi)
    (hlo : ∀ c ∈ cs, lo ≤ c.span.start.offset)
    (hlt : ∀ c ∈ cs, c.span.start.offset < c.span.stop.offset)
    (hhi : ∀ c ∈ cs, c.span.stop.offset ≤ hi)
    (hpairwise : cs.Pairwise fun c d => c.span.stop.offset ≤ d.span.start.offset) :
    NodesAt T lo (cs.map (·.toNode)) hi := by
  induction cs generalizing lo with
  | nil => exact hle
  | cons c cs ih =>
    obtain ⟨hfirst, hrest⟩ := List.pairwise_cons.mp hpairwise
    have hleaf : NodesAt T c.span.start.offset c.toNode.children c.span.stop.offset :=
      Nat.le_of_lt (hlt c (by simp))
    refine ⟨hlo c (by simp), ?_, ?_⟩
    · exact hleaf.everywhere (Nat.le_refl _) (Nat.le_refl _) (by simp [Comment.toNode])
    · exact ih (hhi c (by simp)) hfirst (fun d hd => hlt d (by simp [hd]))
        (fun d hd => hhi d (by simp [hd])) hrest

theorem span_of_ofTrivia? {x : Trivia} {c : Comment} (h : Comment.ofTrivia? x = some c) :
    c.span = x.span := by
  obtain ⟨kind, -, rfl⟩ := Option.map_eq_some_iff.mp h
  rfl

namespace State.InPlace

theorem comments_eq (h : s.InPlace T) :
    s.comments = (s.trivia.filter
      (·.span.startsIn s.commentsFrom s.position.offset)).filterMap Comment.ofTrivia? := by
  unfold State.comments
  rw [between_eq_filter h.arranged.trivia_sorted]

/-- A comment that is handed out stands between the last consumed token and the next. -/
theorem offset_of_mem_comments (h : s.InPlace T) {c : Comment} (hc : c ∈ s.comments) :
    s.reached ≤ c.span.start.offset ∧ c.span.start.offset < c.span.stop.offset ∧
      c.span.stop.offset ≤ s.position.offset := by
  rw [h.comments_eq] at hc
  obtain ⟨x, hx, hcomment⟩ := List.mem_filterMap.mp hc
  obtain ⟨hmem, hin⟩ := List.mem_filter.mp hx
  rw [span_of_ofTrivia? hcomment]
  simp only [Span.startsIn, Bool.and_eq_true, decide_eq_true_eq] at hin
  have hfrom : s.reached ≤ s.commentsFrom := by
    rw [commentsFrom_eq]
    exact Nat.le_max_left _ _
  refine ⟨by omega, h.arranged.trivia_lt x hmem, ?_⟩
  refine h.arranged.apart x hmem s.current ?_ hin.2
  -- The next token is one of those left, or the end of the input.
  rw [← h.all]
  unfold State.current State.peek
  cases s.rest <;> simp

theorem nodesAt_comments (h : s.InPlace T) :
    NodesAt T s.reached (s.comments.map (·.toNode)) s.position.offset := by
  refine Parser.nodesAt_comments h.reached_le_position
    (fun c hc => (h.offset_of_mem_comments hc).1) (fun c hc => (h.offset_of_mem_comments hc).2.1)
    (fun c hc => (h.offset_of_mem_comments hc).2.2) ?_
  rw [h.comments_eq]
  refine (h.arranged.trivia_pairwise.filter _).filterMap _ fun x y hle c hc d hd => ?_
  rw [span_of_ofTrivia? hc, span_of_ofTrivia? hd]
  exact hle

end State.InPlace

/-- Comments are handed out once. -/
theorem comments_commented (s : State) : s.commented.comments = [] := by
  have hfrom : s.position.offset ≤ s.commented.commentsFrom := by
    by_cases hgap : s.commentsFrom < s.position.offset
    · have htaken : s.commented.commentsTaken = s.position.offset := if_pos hgap
      rw [commentsFrom_eq, htaken]
      exact Nat.le_max_right _ _
    · have htaken : s.commented.commentsTaken = s.commentsTaken := if_neg hgap
      rw [commentsFrom_eq, htaken]
      exact Nat.not_lt.mp hgap
  rw [State.comments]
  show List.filterMap _ (Trivia.between _ s.position.offset _) = []
  rw [between_eq_nil hfrom, List.filterMap_nil]

/-! ### What a parser makes of the tokens it passes -/

/-- Run on `s`, a state among the tokens `T`, the parser passes tokens that its value and the
state behind them satisfy `V` with, if it succeeds. -/
def Lays (T : List Token) (s : State) (p : Parser α) (V : α → List Token → State → Prop) :
    Prop :=
  s.InPlace T → ∀ a s', p s = .ok a s' → ∃ ts, Passes s ts s' ∧ V a ts s'

section

variable {p q : Parser α} {f : α → Parser β} {A : α → List Token → State → Prop}
  {B : β → List Token → State → Prop}

theorem Lays.congr (h : p s = q s) (hq : Lays T s q A) : Lays T s p A := by
  intro hs a s' hrun
  exact hq hs a s' (h.symm.trans hrun)

/-- One parser after another. -/
theorem Lays.bind (hp : Lays T s p A)
    (hf : ∀ a ts s', Passes s ts s' → A a ts s' →
      Lays T s' (f a) fun b us s'' => B b (ts ++ us) s'') : Lays T s (p >>= f) B := by
  intro hs b s'' hrun
  obtain ⟨a, s', hfirst, hsecond⟩ := bind_eq_ok hrun
  obtain ⟨ts, hpass, ha⟩ := hp hs a s' hfirst
  obtain ⟨us, hpass', hb⟩ := hf a ts s' hpass ha (hs.passes hpass) b s'' hsecond
  exact ⟨ts ++ us, hpass.append hpass', hb⟩

theorem Lays.mono {A' : α → List Token → State → Prop} (hp : Lays T s p A)
    (h : ∀ a ts s', A a ts s' → A' a ts s') : Lays T s p A' := by
  intro hs a s' hrun
  obtain ⟨ts, hpass, ha⟩ := hp hs a s' hrun
  exact ⟨ts, hpass, h a ts s' ha⟩

theorem lays_ok {a : α} (hp : p s = .ok a s') (hpass : Passes s ts s')
    (ha : s.InPlace T → A a ts s') : Lays T s p A := by
  intro hs b s'' hrun
  obtain ⟨rfl, rfl⟩ := EStateM.Result.ok.inj (hp.symm.trans hrun)
  exact ⟨ts, hpass, ha hs⟩

theorem lays_error {d : Diagnostic} (hp : p s = .error d s') : Lays T s p A := by
  intro _ a s'' hrun
  simp [hp] at hrun

theorem lays_pure {a : α} (h : A a [] s) : Lays T s (pure a) A :=
  lays_ok rfl (.refl s) fun _ => h

theorem lays_guarded {k : Nat} (h : s.rest.length < k → Lays T s p A) :
    Lays T s (guarded k p) A := by
  intro hs a s' hrun
  obtain ⟨hlt, hp⟩ := guarded_eq_ok hrun
  exact h hlt hs a s' hp

theorem Meets.lays {V : α → List Token → Prop} (h : Meets [] s p V) :
    Lays T s p fun a ts _ => V a ts := by
  intro _ a s' hrun
  obtain ⟨ts, hread, -, ha⟩ := h.of_ok hrun
  exact ⟨ts, hread.toPasses, ha⟩

theorem lays_kind {f : Kind → Parser β} (h : Lays T s (f s.current.kind) B) :
    Lays T s (kind >>= f) B := h

theorem lays_spanFrom {start : Position} {f : Span → Parser β}
    (h : Lays T s (f (s.spanFrom start)) B) : Lays T s (spanFrom start >>= f) B := h

/-- Something behind a mark, if the mark is next, and what comes after it. -/
theorem lays_skipThen {k : Kind} {f : Option α → Parser β} {V : α → List Token → Prop}
    (hk : k.isPlain)
    (hp : ∀ ts s', Passes s ts s' → Lays T s' p fun a us _ => V a us)
    (hf : ∀ o ts s', Passes s ts s' → Perhaps (Behind k V) o ts →
      Lays T s' (f o) fun b us s'' => B b (ts ++ us) s'') :
    Lays T s (skip? k >>= fun found =>
      if found then (some <$> p) >>= f else pure none >>= f) B := by
  refine (meets_skip? hk).lays.bind fun found ts s₁ h₁ hfound => ?_
  cases hfound with
  | absent => simpa using hf none [] s₁ h₁ .none
  | @present t ht =>
    have hsome : Lays T s₁ (some <$> p) fun o us _ => ∃ a, o = some a ∧ V a us := by
      refine Lays.congr (map_run some p s₁) ((hp _ s₁ h₁).bind fun a us s₂ _ ha => lays_pure ?_)
      exact ⟨a, rfl, by simpa using ha⟩
    refine hsome.bind ?_
    rintro _ us s₂ h₂ ⟨a, rfl, ha⟩
    simpa using hf (some a) _ s₂ (h₁.append h₂) (.some (.mk ht ha))

end

/-! ### Rows of nodes between two states -/

/-- The nodes stand in order from the next token of one state up to that of the other, none
of them is empty, and they are made of the tokens in between. -/
structure Fills (T : List Token) (V : Node → List Token → Prop) (s : State) (ns : List Node)
    (ts : List Token) (s' : State) : Prop where
  passes : Passes s ts s'
  nodes : NodesAt T s.position.offset ns s'.position.offset
  solid : ∀ n ∈ ns, n.span.start.offset < n.span.stop.offset
  row : Each (InRow V) ns ts
  comments : s.comments = [] → s'.comments = []

namespace Fills

variable {V : Node → List Token → Prop}

theorem refl (s : State) : Fills T V s [] [] s :=
  ⟨.refl s, Nat.le_refl _, by simp, .nil, fun h => h⟩

theorem append (h : Fills T V s ns ts s') (h' : Fills T V s' ms us s'') :
    Fills T V s (ns ++ ms) (ts ++ us) s'' where
  passes := h.passes.append h'.passes
  nodes := h.nodes.append h'.nodes
  solid n hn := (List.mem_append.mp hn).elim (h.solid n) (h'.solid n)
  row := h.row.append h'.row
  comments hnone := h'.comments (h.comments hnone)

/-- Comments are made of no tokens. -/
theorem row_comments (cs : List Comment) : Each (InRow V) (cs.map (·.toNode)) [] :=
  .of_nil (fun _ => .comment rfl) cs

/-- A node that covers the first of the tokens passed, and the comments behind them. -/
theorem item (hs : s.InPlace T) (hpass : Passes s ts s') (hheads : Heads T n ts)
    (hmade : V n ts) : Fills T V s (n :: s'.comments.map (·.toNode)) ts s'.commented := by
  have hplace := hs.passes hpass
  have htokens := hs.tokensAt_position hpass hheads.ne_nil
  have hnode : NodesAt T s.position.offset [n] s'.reached := hheads.spread _ _ htokens
  have hrow : Each (InRow V) (n :: s'.comments.map (·.toNode)) (ts ++ []) :=
    .cons (.made hmade) (row_comments _)
  rw [List.append_nil] at hrow
  refine ⟨hpass.commented, hnode.append hplace.nodesAt_comments, fun m hm => ?_, hrow,
    fun _ => comments_commented s'⟩
  rcases List.mem_cons.mp hm with rfl | hcomment
  · exact hheads.start_lt_stop htokens
  · obtain ⟨c, hc, rfl⟩ := List.mem_map.mp hcomment
    exact (hplace.offset_of_mem_comments hc).2.1

/-- The comments before the next token, and a row that starts with it. -/
theorem led (hs : s.InPlace T) (h : Fills T V s.commented ns ts s') :
    NodesAt T s.reached (s.comments.map (·.toNode) ++ ns) s'.position.offset ∧
      Each (InRow V) (s.comments.map (·.toNode) ++ ns) ts :=
  ⟨hs.nodesAt_comments.append h.nodes, (row_comments _).append h.row⟩

end Fills

/-- Repetition: the rows that the items fill make one row. -/
theorem lays_manyWhile {V : Node → List Token → Prop} {wanted : Kind → Bool} {item : Parser α}
    {view : α → List Node}
    (hitem : ∀ s, wanted s.current.kind → Lays T s item fun a ts s' => Fills T V s (view a) ts s')
    (s : State) :
    Lays T s (manyWhile wanted item) fun as ts s' => Fills T V s (as.flatMap view) ts s' := by
  induction hn : s.rest.length using Nat.strong_induction_on generalizing s with
  | _ n ih =>
    refine Lays.congr (manyWhile_run wanted item s) ?_
    split
    · next hw =>
      refine (hitem s hw).bind fun a ts s₁ _ hfirst => ?_
      have hmore := lays_guarded fun hlt => ih _ (hn ▸ hlt) s₁ rfl
      refine hmore.bind fun as us s₂ _ hrest => lays_pure ?_
      simpa using hfirst.append hrest
    · exact lays_pure (.refl s)

end Parser

end FrontEnd
