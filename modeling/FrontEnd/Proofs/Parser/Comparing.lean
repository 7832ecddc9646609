/-
States with the same tokens before them.

Two runs are compared that have the same tokens before them for a while.  A `Comparison` says
what lies behind these tokens on the two sides.  Either the next token there is the same as
well, or it is a semicolon on the first side and, on the second, a token that can follow a
statement.  The tokens may also stand at other places; then places and comments are left out of
the comparison.

* `Alike` — two values are the same, or the same but for places;
* `Paired` — two states with the same tokens before them, up to what the comparison says.
-/
import FrontEnd.Proofs.Parser.Shifting
import FrontEnd.Proofs.Tree.Bare

namespace FrontEnd

/-! ### Values that are the same but for places -/

/-- The two values are the same, or, if places are not compared, the same as `m` shows them. -/
structure Alike {α β : Type} (placed : Bool) (m : α → β) (a b : α) : Prop where
  same : placed → a = b
  shown : m a = m b

namespace Alike

variable {α β : Type} {placed : Bool} {m : α → β} {a b : α} {as bs : List α}

theorem refl (m : α → β) (a : α) : Alike placed m a a := ⟨fun _ => rfl, rfl⟩

/-- A function that `n` and `m` commute with keeps values alike. -/
theorem map {γ δ : Type} {n : γ → δ} (f : α → γ) (h : Alike placed m a b)
    (hf : m a = m b → n (f a) = n (f b)) : Alike placed n (f a) (f b) :=
  ⟨fun hp => by rw [h.same hp], hf h.shown⟩

theorem cons (h : Alike placed m a b) (h' : Alike placed (List.map m) as bs) :
    Alike placed (List.map m) (a :: as) (b :: bs) :=
  ⟨fun hp => by rw [h.same hp, h'.same hp], by simp [h.shown, h'.shown]⟩

theorem append {as' bs' : List α} (h : Alike placed (List.map m) as bs)
    (h' : Alike placed (List.map m) as' bs') :
    Alike placed (List.map m) (as ++ as') (bs ++ bs') :=
  ⟨fun hp => by rw [h.same hp, h'.same hp], by simp [h.shown, h'.shown]⟩

theorem length_eq (h : Alike placed (List.map m) as bs) : as.length = bs.length := by
  simpa using congrArg List.length h.shown

theorem eq_nil (h : Alike placed (List.map m) [] bs) : bs = [] :=
  List.eq_nil_of_length_eq_zero h.length_eq.symm

theorem exists_cons (h : Alike placed (List.map m) (a :: as) bs) :
    ∃ b bs', bs = b :: bs' ∧ Alike placed m a b ∧ Alike placed (List.map m) as bs' := by
  cases bs with
  | nil => exact absurd h.length_eq (by simp)
  | cons b bs =>
    obtain ⟨hhead, htail⟩ := List.cons.inj h.shown
    exact ⟨b, bs, rfl, ⟨fun hp => (List.cons.inj (h.same hp)).1, hhead⟩,
      ⟨fun hp => (List.cons.inj (h.same hp)).2, htail⟩⟩

/-! Tokens. -/

variable {t u : Token}

theorem kind_eq (h : Alike placed (Token.relocate unplaced) t u) : t.kind = u.kind :=
  (congrArg Token.kind h.shown :)

theorem text_eq (h : Alike placed (Token.relocate unplaced) t u) : t.text = u.text :=
  (congrArg Token.text h.shown :)

theorem display_eq (h : Alike placed (Token.relocate unplaced) t u) : t.display = u.display := by
  rw [Token.display, Token.display, h.kind_eq, h.text_eq]

/-- Spans are the same as soon as places are not compared. -/
theorem span {s s' : Span} (h : placed → s = s') : Alike placed (Span.relocate unplaced) s s' :=
  ⟨h, rfl⟩

theorem position {p p' : Position} (h : placed → p = p') : Alike placed unplaced p p' := ⟨h, rfl⟩

theorem start_eq (h : Alike placed (Token.relocate unplaced) t u) :
    Alike placed unplaced t.span.start u.span.start :=
  .position fun hp => by rw [h.same hp]

end Alike

namespace Parser

/-! ### What is compared -/

/-- The kinds of the token that follows a stretch of tokens on the first side. -/
def ends : List Kind := [.eof, .symbol .semicolon, .symbol .closeCurly]

/-- The kinds of the tokens that follow a statement in a block. -/
def followers : List Kind :=
  [.identifier, .symbol .closeCurly] ++
    [Keyword.letKw, .returnKw, .ifKw, .whileKw, .forKw, .breakKw, .continueKw, .matchKw].map
      Kind.keyword

/-- The kinds of the tokens that a type is read behind. -/
def openers : List Kind := [Symbol.less, .star, .ampersand, .and, .openBracket].map Kind.symbol

/-- What lies behind the tokens that are compared, on the two sides. -/
structure Comparison where
  /-- Places and comments are compared too. -/
  placed : Bool
  rest : List Token
  rest' : List Token
  eof : Token
  eof' : Token
  /-- Comments are the same up to this offset. -/
  bound : Nat
  kind_mem : (rest.headD eof).kind ∈ ends
  heads : Alike placed (Token.relocate unplaced) (rest.headD eof) (rest'.headD eof') ∨
    (rest.headD eof).kind = .symbol .semicolon ∧ (rest'.headD eof').kind ∈ followers
  nil_iff : rest = [] ↔ rest' = []
  proper : rest ≠ [] → (rest.headD eof).kind ≠ .eof
  start_le : placed → (rest.headD eof).span.start.offset ≤ bound
  /-- Only runs are compared that stop before the end of the tokens. -/
  strict : Bool := false

namespace Comparison

variable (c : Comparison)

/-- The next token behind the stretch on the first side. -/
def head : Token := c.rest.headD c.eof

/-- The next token behind the stretch on the second side. -/
def head' : Token := c.rest'.headD c.eof'

/-- The next token behind the stretch is the same on both sides. -/
def Exact : Prop := Alike c.placed (Token.relocate unplaced) c.head c.head'

theorem semicolon_of_not_exact {c : Comparison} (h : ¬ c.Exact) :
    c.head.kind = .symbol .semicolon ∧ c.head'.kind ∈ followers := c.heads.resolve_left h

/-- The state does not stand behind the stretch. -/
def Within (s : State) : Prop := c.rest.length ≤ s.rest.length

/-- The state stands before the end of the stretch. -/
def Before (s : State) : Prop := c.rest.length < s.rest.length

/-- The next token is the same on both sides. -/
def Started (s : State) : Prop := c.Before s ∨ c.Exact

/-- What a run comes to that stops here is compared. -/
def Compared (s : State) : Prop := c.rest.length + c.strict.toNat ≤ s.rest.length

/-- Wherever runs are compared, the next token is the same. -/
def Sure : Prop := c.strict ∨ c.Exact

variable {c} {s t : State}

theorem Compared.within (h : c.Compared s) : c.Within s := by
  unfold Compared at h
  unfold Within
  omega

/-- What comes before a place that is compared is compared as well. -/
theorem Compared.of_le (h : c.Compared t) (hle : t.rest.length ≤ s.rest.length) : c.Compared s :=
  Nat.le_trans h hle

theorem Sure.started (h : c.Sure) (hs : c.Compared s) : c.Started s := by
  refine h.imp_left fun hstrict => ?_
  rw [Compared, hstrict, Bool.toNat_true] at hs
  exact hs

end Comparison

/-- Every ending of the tokens closes as many brackets as it opens. -/
def Shut (ts : List Token) : Prop :=
  ∀ us, us <:+ ts →
    countKind (.symbol .openBracket) us ≤ countKind (.symbol .closeBracket) us

/-- What is asked of the tokens that are compared. -/
structure Guard (c : Comparison) (us : List Token) : Prop where
  shut : c.head.kind = .symbol .semicolon → Shut us
  last : ∀ t, us.getLast? = some t → t.kind ∈ openers → c.Exact
  start_le : c.placed → ∀ t ∈ us, t.span.start.offset ≤ c.bound

theorem Guard.tail {c : Comparison} {t : Token} {us : List Token} (h : Guard c (t :: us)) :
    Guard c us where
  shut hc vs hvs := h.shut hc vs (hvs.trans (List.suffix_cons t us))
  last u hu := h.last u (by simp [List.getLast?_cons, hu])
  start_le hp u hu := h.start_le hp u (List.mem_cons_of_mem t hu)

/-- The two states have the same tokens before them, up to what the comparison says, and agree
in all that is compared. -/
structure Paired (c : Comparison) (s s' : State) : Prop where
  rest : ∃ us us', s.rest = us ++ c.rest ∧ s'.rest = us' ++ c.rest' ∧
    Alike c.placed (List.map (Token.relocate unplaced)) us us' ∧ Guard c us ∧
    (us = [] → s.consumed = [] → c.Exact)
  consumed : Alike c.placed (List.map (Token.relocate unplaced)) s.consumed s'.consumed
  depth : s'.depth = s.depth
  eof : s.eof = c.eof
  eof' : s'.eof = c.eof'
  commentsTaken : c.placed → s'.commentsTaken = s.commentsTaken
  commentsIn : c.placed → ∀ first last, last ≤ c.bound →
    s'.commentsIn first last = s.commentsIn first last
  diagnostics : Alike c.placed (List.map (Diagnostic.relocate unplaced))
    s.diagnostics.reported s'.diagnostics.reported

variable {α β γ δ : Type} {c : Comparison} {s s' t t' : State}

/-! ### States -/

theorem current_eq_headD (s : State) : s.current = s.rest.headD s.eof := by
  unfold State.current State.peek
  cases s.rest <;> rfl

theorem length_rest_le_advance (s : State) : s.rest.length ≤ s.advance.rest.length + 1 := by
  unfold State.advance
  split
  · omega
  · next x xs hrest =>
    dsimp only
    split
    · omega
    · simp [hrest]

theorem Comparison.Before.within_advance (h : c.Before s) : c.Within s.advance := by
  have hle := length_rest_le_advance s
  unfold Comparison.Before at h
  unfold Comparison.Within
  omega

namespace Paired

theorem within (h : Paired c s s') : c.Within s := by
  obtain ⟨us, _, hrest, -⟩ := h.rest
  rw [Comparison.Within, hrest, List.length_append]
  omega

/-- Either a token of the stretch is next, or what lies behind it. -/
theorem next (h : Paired c s s') :
    (∃ x us x' us', s.rest = x :: (us ++ c.rest) ∧ s'.rest = x' :: (us' ++ c.rest') ∧
      Alike c.placed (Token.relocate unplaced) x x' ∧
      Alike c.placed (List.map (Token.relocate unplaced)) us us' ∧ Guard c (x :: us)) ∨
    s.rest = c.rest ∧ s'.rest = c.rest' ∧ (s.consumed = [] → c.Exact) := by
  obtain ⟨us, us', hrest, hrest', halike, hguard, hmoved⟩ := h.rest
  cases us with
  | nil =>
    obtain rfl := halike.eq_nil
    exact .inr ⟨hrest, hrest', hmoved rfl⟩
  | cons x us =>
    obtain ⟨x', us', rfl, hx, hus⟩ := halike.exists_cons
    exact .inl ⟨x, us, x', us', hrest, hrest', hx, hus, hguard⟩

/-- Behind the stretch the next tokens are those of the comparison. -/
theorem of_not_before (h : Paired c s s') (hnot : ¬ c.Before s) :
    s.rest = c.rest ∧ s'.rest = c.rest' ∧ s.current = c.head ∧ s'.current = c.head' := by
  rcases h.next with ⟨x, us, x', us', hrest, -⟩ | ⟨hrest, hrest', -⟩
  · refine absurd ?_ hnot
    rw [Comparison.Before, hrest, List.length_cons, List.length_append]
    omega
  · refine ⟨hrest, hrest', ?_, ?_⟩
    · rw [current_eq_headD, hrest, h.eof]
      rfl
    · rw [current_eq_headD, hrest', h.eof']
      rfl

theorem current (h : Paired c s s') (hstarted : c.Started s) :
    Alike c.placed (Token.relocate unplaced) s.current s'.current := by
  by_cases hbefore : c.Before s
  · rcases h.next with ⟨x, us, x', us', hrest, hrest', hx, -⟩ | ⟨hrest, -⟩
    · rwa [current_of_rest hrest, current_of_rest hrest']
    · rw [Comparison.Before, hrest] at hbefore
      omega
  · obtain ⟨-, -, hcurrent, hcurrent'⟩ := h.of_not_before hbefore
    rw [hcurrent, hcurrent']
    exact hstarted.resolve_left hbefore

/-- Where the next tokens differ, the first one is a semicolon. -/
theorem kinds (h : Paired c s s') :
    s.current.kind = s'.current.kind ∨
      s.current.kind = .symbol .semicolon ∧ s'.current.kind ∈ followers := by
  by_cases hstarted : c.Started s
  · exact .inl (h.current hstarted).kind_eq
  · obtain ⟨hbefore, hexact⟩ := not_or.mp hstarted
    obtain ⟨-, -, hcurrent, hcurrent'⟩ := h.of_not_before hbefore
    rw [hcurrent, hcurrent']
    exact .inr (Comparison.semicolon_of_not_exact hexact)

/-- A token that ends no stretch stands inside of one. -/
theorem before_of_kind (h : Paired c s s') (hkind : s.current.kind ∉ ends) : c.Before s := by
  by_contra hnot
  rw [(h.of_not_before hnot).2.2.1] at hkind
  exact hkind c.kind_mem

theorem length_rest (h : Paired c s s') :
    s'.rest.length + c.rest.length = s.rest.length + c.rest'.length := by
  obtain ⟨us, us', hrest, hrest', halike, -⟩ := h.rest
  have hlen := halike.length_eq
  rw [hrest, hrest', List.length_append, List.length_append]
  omega

theorem index (h : Paired c s s') : s'.index = s.index := h.consumed.length_eq.symm

theorem previousEnd (h : Paired c s s') (hp : c.placed) : s'.previousEnd = s.previousEnd := by
  have hconsumed := h.consumed.same hp
  unfold State.previousEnd
  rw [← hconsumed]
  split
  · -- Before any token both stand at the same place.
    next hnil =>
    have hstarted : c.Started s := by
      rcases h.next with ⟨x, us, x', us', hrest, -⟩ | ⟨-, -, hmoved⟩
      · refine .inl ?_
        rw [Comparison.Before, hrest, List.length_cons, List.length_append]
        omega
      · exact .inr (hmoved hnil)
    rw [State.position, State.position, (h.current hstarted).same hp]
  · rfl

theorem spanFrom (h : Paired c s s') {p p' : Position} (hstart : Alike c.placed unplaced p p') :
    Alike c.placed (Span.relocate unplaced) (s.spanFrom p) (s'.spanFrom p') := by
  refine .span fun hp => ?_
  rw [State.spanFrom, State.spanFrom, h.previousEnd hp, hstart.same hp]

theorem advance (h : Paired c s s') (hwithin : c.Within s.advance) :
    Paired c s.advance s'.advance := by
  rcases h.next with ⟨x, us, x', us', hrest, hrest', hx, hus, hguard⟩ | ⟨hrest, hrest', -⟩
  · unfold State.advance
    rw [hrest, hrest']
    simp only [← hx.kind_eq, h.depth]
    split
    · exact h
    · exact ⟨⟨us, us', rfl, rfl, hus, hguard.tail, fun _ hnil => absurd hnil (by simp)⟩,
        hx.cons h.consumed, rfl, h.eof, h.eof', h.commentsTaken, h.commentsIn, h.diagnostics⟩
  · -- Behind the stretch nothing can be consumed but at the end of the input.
    have hnil : c.rest = [] := by
      cases hcons : c.rest with
      | nil => rfl
      | cons x xs =>
        have hproper : s.current.kind ≠ .eof := by
          rw [current_eq_headD, hrest, h.eof]
          exact c.proper (by simp [hcons])
        have hlt := length_rest_advance hproper
        rw [Comparison.Within, ← hrest] at hwithin
        omega
    have hsame : ∀ {u : State}, u.rest = [] → u.advance = u := by
      intro u hu
      unfold State.advance
      rw [hu]
    rw [hsame (hrest.trans hnil), hsame (hrest'.trans (c.nil_iff.mp hnil))]
    exact h

/-- Nothing is consumed but where the next token is the same. -/
theorem started_of_advance (h : Paired c s s') (hwithin : c.Within s.advance) : c.Started s := by
  by_contra hnot
  obtain ⟨hbefore, hexact⟩ := not_or.mp hnot
  obtain ⟨hrest, -, hcurrent, -⟩ := h.of_not_before hbefore
  have hproper : s.current.kind ≠ .eof := by
    rw [hcurrent, (Comparison.semicolon_of_not_exact hexact).1]
    simp
  have hlt := length_rest_advance hproper
  rw [Comparison.Within, ← hrest] at hwithin
  omega

theorem record (h : Paired c s s') {d d' : Diagnostic}
    (hd : Alike c.placed (Diagnostic.relocate unplaced) d d') :
    Paired c { s with diagnostics := s.diagnostics.push d }
      { s' with diagnostics := s'.diagnostics.push d' } :=
  ⟨h.rest, h.consumed, h.depth, h.eof, h.eof', h.commentsTaken, h.commentsIn,
    h.diagnostics.append (hd.cons (.refl _ []))⟩

theorem setDepth (h : Paired c s s') (depth : Nat) :
    Paired c { s with depth } { s' with depth } :=
  ⟨h.rest, h.consumed, rfl, h.eof, h.eof', h.commentsTaken, h.commentsIn, h.diagnostics⟩

/-- Coming back to a place on both sides. -/
theorem restore (h : Paired c s s') (h' : Paired c t t') :
    Paired c (t.restore s.toTokenCursor) (t'.restore s'.toTokenCursor) :=
  ⟨h.rest, h.consumed, h.depth, h'.eof, h'.eof', h.commentsTaken, h'.commentsIn, h'.diagnostics⟩

section

-- Comments are handed out up to the next token, which has to be the same.
variable (hstarted : c.Started s)

include hstarted

theorem position (h : Paired c s s') (hp : c.placed) :
    s'.position = s.position ∧ s.position.offset ≤ c.bound := by
  have hcurrent := h.current hstarted
  refine ⟨by rw [State.position, State.position, hcurrent.same hp], ?_⟩
  rcases h.next with ⟨x, us, x', us', hrest, -, -, -, hguard⟩ | ⟨hrest, -⟩
  · rw [State.position, current_of_rest hrest]
    exact hguard.start_le hp x (by simp)
  · rw [State.position, current_eq_headD, hrest, h.eof]
    exact c.start_le hp

omit hstarted in
theorem commentsFrom (h : Paired c s s') (hp : c.placed) : s'.commentsFrom = s.commentsFrom := by
  rw [State.commentsFrom, State.commentsFrom, h.consumed.same hp, h.commentsTaken hp]

theorem comments (h : Paired c s s') (hp : c.placed) : s'.comments = s.comments := by
  obtain ⟨hposition, hle⟩ := h.position hstarted hp
  show s'.commentsIn s'.commentsFrom s'.position.offset = _
  rw [h.commentsFrom hp, hposition]
  exact h.commentsIn hp _ _ hle

theorem commented (h : Paired c s s') : Paired c s.commented s'.commented := by
  refine ⟨h.rest, h.consumed, h.depth, h.eof, h.eof', fun hp => ?_, h.commentsIn, h.diagnostics⟩
  rw [State.commented, State.commented, h.commentsFrom hp, (h.position hstarted hp).1,
    h.commentsTaken hp]

end

end Paired

end Parser

end FrontEnd
