/-
A run over tokens of which one is missing.

A semicolon is taken out of a list of tokens, behind the last token of a statement `x`.  The two
runs, over all tokens and over those that are left, are compared in three parts: before the
statement they are the same, behind it they are the same again, and in between the second one
fails.

* `Gap` — the semicolon behind a statement, with the tokens around it;
* `Facing` — two states before the gap;
* `Visits` — the tokens that a run passes are those of `x`, with others around them;
* `Breaks` — the run of a parser that has `x` in its value, next to the second run, which has
  other statements in its place.

A parser is put together from parts that come before the one with `x` in it (`Breaks.after`) and
parts that come behind it (`Breaks.andThen`); `breaks_manyWhile` is the rule for a repetition.
Where `x` stands in the value decides which part it is, and a place in a text tells it from all
others (`Visits.compared`).
-/
import FrontEnd.Proofs.Grammar.Tidiness
import FrontEnd.Proofs.Parser.InPlace
import FrontEnd.Proofs.Parser.Mirroring
import FrontEnd.Proofs.Parser.Resuming
import FrontEnd.Proofs.Tree.Exchange

namespace FrontEnd

/-! ### Tokens in a row -/

section

variable {lo hi : Nat} {t u : Token} {ts us vs : List Token}

theorem TokensAt.stop_lt (h : TokensAt lo (t :: (ts ++ u :: us)) hi) :
    t.span.stop.offset < u.span.stop.offset := by
  obtain ⟨mid, hts, hstart, hfits, -⟩ := h.2.2.split
  have hle := hts.le
  have hlt := hfits.start_lt_stop
  omega

/-- No two tokens end at the same place. -/
theorem TokensAt.eq_of_stop {before before' behind behind' : List Token}
    (h : TokensAt lo (before ++ t :: behind) hi)
    (hsame : before ++ t :: behind = before' ++ u :: behind')
    (hstop : t.span.stop = u.span.stop) : before = before' ∧ behind = behind' := by
  rcases List.append_eq_append_iff.mp hsame with ⟨as, hbefore, htail⟩ | ⟨as, hbefore, htail⟩
  · cases as with
    | nil =>
      obtain ⟨-, rfl⟩ := List.cons.inj htail
      exact ⟨by simpa using hbefore.symm, rfl⟩
    | cons a as =>
      obtain ⟨rfl, rfl⟩ := List.cons.inj htail
      have hlt := (h.split.choose_spec.2).stop_lt
      rw [hstop] at hlt
      exact absurd hlt (Nat.lt_irrefl _)
  · cases as with
    | nil =>
      obtain ⟨-, rfl⟩ := List.cons.inj htail
      exact ⟨by simpa using hbefore, rfl⟩
    | cons a as =>
      obtain ⟨rfl, rfl⟩ := List.cons.inj htail
      rw [hsame] at h
      have hlt := (h.split.choose_spec.2).stop_lt
      rw [hstop] at hlt
      exact absurd hlt (Nat.lt_irrefl _)

/-- What tokens cover starts with the first of them. -/
theorem covering_append_start (hne : ts ≠ []) :
    (covering (ts ++ us)).start = (covering ts).start := by
  cases ts with
  | nil => exact absurd rfl hne
  | cons t ts => simp [covering_cons]

/-- What tokens in a row cover ends with the last of them. -/
theorem covering_concat (h : TokensAt lo (ts ++ [t]) hi) :
    covering (ts ++ [t]) = ⟨(covering (ts ++ [t])).start, t.span.stop⟩ := by
  have hlt := h.covering_lt (by simp)
  unfold covering spanning at hlt ⊢
  simp only [List.getLast?_concat] at hlt ⊢
  split at hlt
  · exact absurd hlt (Nat.lt_irrefl _)
  · next hle => rw [if_neg hle]

end

namespace Parser

variable {α β γ δ : Type} {s s' t t' u : State} {ts : List Token} {x : Stmt} {closed : Bool}

/-! ### The gap -/

/-- The semicolon at the end of the statement `x`, and what stands around it in a text.  Without
it, the text would go on with a token that can follow a statement. -/
structure Gap (x : Stmt) where
  before : List Token
  last : Token
  semi : Token
  behind : List Token
  trivia : List Trivia
  eof : Token
  arranged : Arranged (before ++ last :: semi :: behind) trivia eof
  eof_kind : eof.kind = .eof
  semi_kind : semi.kind = .symbol .semicolon
  stop_eq : semi.span.stop = x.span.stop
  next_mem : (behind.headD eof).kind ∈ followers
  tidy : Tidy (before ++ [last])
  /-- No comment starts inside the semicolon. -/
  clear : ∀ y ∈ trivia, semi.span.start.offset ≤ y.span.start.offset →
    semi.span.stop.offset ≤ y.span.start.offset

namespace Gap

variable (g : Gap x)

/-- All tokens, the semicolon included. -/
def tokens : List Token := g.before ++ g.last :: g.semi :: g.behind

/-- The token behind the semicolon. -/
def next : Token := g.behind.headD g.eof

/-- The diagnostic about the missing semicolon. -/
def missing (production : String) : Diagnostic :=
  ⟨.missing production (.symbol .semicolon) g.next.display, g.next.span⟩

/-- The comments between the last token of the statement and its semicolon. -/
def comments : List Comment :=
  (Trivia.between g.last.span.stop.offset g.semi.span.start.offset g.trivia).filterMap
    Comment.ofTrivia?

/-- What stands in the place of the statement without its semicolon. -/
def instead : List Stmt :=
  .error ⟨x.span.start, g.last.span.stop⟩ :: g.comments.map Stmt.comment

theorem behind_ne_nil : g.behind ≠ [] := by
  intro hnil
  have hmem := g.next_mem
  rw [hnil, List.headD_nil, g.eof_kind] at hmem
  exact absurd hmem (by decide)

/-- Up to the semicolon the tokens are the same. -/
def comparison (strict : Bool) : Comparison where
  placed := true
  rest := g.semi :: g.behind
  rest' := g.behind
  eof := g.eof
  eof' := g.eof
  bound := g.semi.span.start.offset
  kind_mem := by
    rw [List.headD_cons, g.semi_kind]
    decide
  heads := .inr ⟨g.semi_kind, g.next_mem⟩
  nil_iff := iff_of_false (List.cons_ne_nil _ _) g.behind_ne_nil
  proper _ := by simp [g.semi_kind]
  start_le _ := Nat.le_refl _
  strict

theorem sure : (g.comparison true).Sure := .inl rfl

theorem not_exact (strict : Bool) : ¬ (g.comparison strict).Exact := by
  intro hexact
  have hkind : g.semi.kind = g.next.kind := hexact.kind_eq
  have hmem : g.next.kind ∈ followers := g.next_mem
  rw [← hkind, g.semi_kind] at hmem
  exact absurd hmem (by decide)

end Gap

/-! ### What is passed -/

/-- Passed tokens that are followed by the next one. -/
theorem Passes.headD_current (h : Passes s ts t) : ts.headD t.current = s.current := by
  cases ts with
  | nil => exact (List.mem_singleton.mp h.current_mem).symm
  | cons a ts => exact (current_of_rest h.rest).symm

/-- What consumed tokens cover ends with the last of them. -/
theorem State.InPlace.stop_covering {T before us after : List Token} {semi : Token}
    (hs : s.InPlace T) (hpass : Passes s (before ++ (us ++ semi :: after)) t) :
    (covering (us ++ [semi])).stop = semi.span.stop := by
  obtain ⟨_, -, hrow⟩ := (hs.tokensAt hpass).split
  rw [← List.singleton_append, ← List.append_assoc] at hrow
  obtain ⟨_, hconcat, -⟩ := hrow.split
  rw [covering_concat hconcat]

/-- Where the statement has been read, its semicolon is that of the gap. -/
theorem Gap.split (g : Gap x) (hs : s.InPlace g.tokens) {before us after : List Token}
    {semi : Token} (hpass : Passes s (before ++ (us ++ semi :: after)) t)
    (hspan : x.span = covering (us ++ [semi])) :
    s.consumed.reverse ++ (before ++ us) = g.before ++ [g.last] ∧ after ++ t.rest = g.behind := by
  have hstop : semi.span.stop = g.semi.span.stop := by
    rw [g.stop_eq, hspan, hs.stop_covering hpass]
  have hall : (s.consumed.reverse ++ (before ++ us)) ++ semi :: (after ++ t.rest) =
      (g.before ++ [g.last]) ++ g.semi :: g.behind := by
    have hplace := hs.all
    rw [hpass.rest] at hplace
    simpa [Gap.tokens] using hplace
  have htokens : TokensAt 0 ((s.consumed.reverse ++ (before ++ us)) ++ semi :: (after ++ t.rest))
      s.eof.span.start.offset := by
    rw [hall]
    simpa [Gap.tokens] using hs.arranged.tokens
  exact htokens.eq_of_stop hall hstop

/-- The tokens between two states are those of the statement `x`, with others before and behind
them.  If the stretch is `closed`, a token that can follow a statement comes behind `x`, and else
it may also end there. -/
def Visits (x : Stmt) (closed : Bool) (s t : State) : Prop :=
  ∃ before us semi after, Passes s (before ++ (us ++ semi :: after)) t ∧ Tidy (before ++ us) ∧
    us ≠ [] ∧ semi.kind = .symbol .semicolon ∧ x.SpelledBy (us ++ [semi]) ∧
    x.span = covering (us ++ [semi]) ∧
    ((after.headD t.current).kind ∈ followers ∨ closed = false ∧ after = [])

namespace Visits

theorem weaken (h : Visits x true s t) : Visits x closed s t := by
  obtain ⟨before, us, semi, after, hpass, htidy, hne, hsemi, hspelled, hspan, hnext⟩ := h
  exact ⟨before, us, semi, after, hpass, htidy, hne, hsemi, hspelled, hspan,
    .inl (hnext.resolve_right (by simp))⟩

/-- More tokens before the statement. -/
theorem prepend (h : Visits x closed t u) (hpass : Passes s ts t) (htidy : Tidy ts) :
    Visits x closed s u := by
  obtain ⟨before, us, semi, after, hpass', htidy', hne, hsemi, hspelled, hspan, hnext⟩ := h
  refine ⟨ts ++ before, us, semi, after, ?_, ?_, hne, hsemi, hspelled, hspan, hnext⟩
  · rw [List.append_assoc]
    exact hpass.append hpass'
  · rw [List.append_assoc]
    exact htidy.append htidy'

/-- More tokens behind the statement. -/
theorem append (h : Visits x closed s t) (hpass : Passes t ts u)
    (hopen : closed = false → t.current.kind ∈ followers) : Visits x true s u := by
  obtain ⟨before, us, semi, after, hpass', htidy, hne, hsemi, hspelled, hspan, hnext⟩ := h
  refine ⟨before, us, semi, after ++ ts, ?_, htidy, hne, hsemi, hspelled, hspan, .inl ?_⟩
  · simpa using hpass'.append hpass
  · cases after with
    | nil =>
      rw [List.nil_append, hpass.headD_current]
      exact hnext.elim id fun h => hopen h.1
    | cons a after => exact hnext.resolve_right (by simp)

/-- Handing out comments passes no token. -/
theorem commented (h : Visits x closed s t) : Visits x closed s t.commented := by
  obtain ⟨before, us, semi, after, hpass, h⟩ := h
  exact ⟨before, us, semi, after, hpass.commented, h⟩

/-- The state before the statement stands before the gap, and the one behind it stands behind
the gap. -/
theorem compared (h : Visits x closed s t) (g : Gap x) (hs : s.InPlace g.tokens) :
    (g.comparison true).Compared s ∧ t.rest.length ≤ g.behind.length := by
  obtain ⟨before, us, semi, after, hpass, -, hne, -, -, hspan, -⟩ := h
  obtain ⟨-, hbehind⟩ := g.split hs hpass hspan
  have hpos := List.length_pos_iff.mpr hne
  rw [← hbehind, List.length_append]
  refine ⟨?_, by omega⟩
  show (g.semi :: g.behind).length + 1 ≤ s.rest.length
  rw [hpass.rest, ← hbehind]
  simp only [List.length_append, List.length_cons]
  omega

end Visits

/-! ### Before the gap -/

theorem State.InPlace.start_le_position {T : List Token} (h : s.InPlace T)
    (hpass : Passes s ts t) : ∀ u ∈ ts ++ [t.current], u.span.start.offset ≤ t.position.offset := by
  intro u hu
  rcases List.mem_append.mp hu with hu | hu
  · obtain ⟨-, hfits, hstop⟩ := (h.tokensAt hpass).of_mem hu
    have hlt := hfits.start_lt_stop
    have hle := (h.passes hpass).reached_le_position
    omega
  · rw [List.mem_singleton.mp hu]
    exact Nat.le_refl _

/-- Both runs stand before the gap, among the same tokens and comments. -/
structure Facing (g : Gap x) (s s' : State) : Prop where
  paired : Paired (g.comparison true) s s'
  place : s.InPlace g.tokens
  trivia : s.trivia = g.trivia
  comments : ∀ first last, s'.commentsIn first last = s.commentsIn first last
  taken : s.commentsTaken ≤ s.position.offset

theorem Facing.walks {g : Gap x} (h : Facing g s s') {ts ts' : List Token} (hwalk : Walks s ts t)
    (hwalk' : Walks s' ts' t') (hpaired : Paired (g.comparison true) t t') : Facing g t t' where
  paired := hpaired
  place := h.place.passes hwalk.toPasses
  trivia := hwalk.trivia.trans h.trivia
  comments first last := by
    have hsame := h.comments first last
    rwa [State.commentsIn, State.commentsIn, ← hwalk.trivia, ← hwalk'.trivia] at hsame
  taken := by
    have hle := h.place.start_le_position hwalk.toPasses
    rcases hwalk.commentsTaken with hsame | ⟨v, hv, hlater⟩
    · rw [hsame]
      exact Nat.le_trans h.taken (hle _ hwalk.toPasses.current_mem)
    · rw [hlater]
      exact hle v hv

/-- Where the gap is not reached yet, fewer tokens are left by one without the semicolon. -/
theorem Facing.length_rest {g : Gap x} (h : Facing g s s') :
    s'.rest.length + 1 = s.rest.length := by
  have hlength : s'.rest.length + (g.behind.length + 1) = s.rest.length + g.behind.length :=
    h.paired.length_rest
  omega

/-! ### Parsers -/

/-- Where the parser succeeds it has walked over tokens, which are tidy if nothing was recorded. -/
def Tidies (p : Parser α) : Prop :=
  ∀ s a t, p s = .ok a t → ∃ ts, Walks s ts t ∧ (t.Clean → Tidy ts)

theorem tidies_of_works {moves : Bool} {p : Parser α} {V : α → List Token → Prop}
    (h : ∀ s, Works moves s p V) (hV : ∀ a ts, V a ts → Tidy ts) : Tidies p := by
  intro s a t hrun
  obtain ⟨ts, hcross, -, ha⟩ := (h s).of_ok hrun
  exact ⟨ts, hcross.toWalks, fun hclean => hV a ts (ha hclean)⟩

theorem tidies_of_meets {p : Parser α} {V : α → List Token → Prop} (h : ∀ s, Meets [] s p V)
    (hV : ∀ a ts, V a ts → Tidy ts) : Tidies p :=
  tidies_of_works (fun s => (h s).works) hV

theorem Tidies.bind {p : Parser α} {f : α → Parser β} (hp : Tidies p) (hf : ∀ a, Tidies (f a)) :
    Tidies (p >>= f) := by
  intro s b t hrun
  obtain ⟨a, u, hfirst, hthen⟩ := bind_eq_ok hrun
  obtain ⟨ts, hwalk, htidy⟩ := hp s a u hfirst
  obtain ⟨us, hwalk', htidy'⟩ := hf a u b t hthen
  exact ⟨ts ++ us, hwalk.append hwalk', fun hclean =>
    (htidy (hwalk'.clean hclean)).append (htidy' hclean)⟩

theorem tidies_pure (a : α) : Tidies (pure a) := by
  intro s b t hrun
  obtain ⟨-, rfl⟩ := EStateM.Result.ok.inj hrun
  exact ⟨[], .refl s, fun _ => tidy_nil⟩

theorem tidies_spanned {start : Position} (g : Span → α) :
    Tidies (spanFrom start >>= fun span => pure (g span)) :=
  Tidies.bind (fun s _ t hrun => by
    obtain ⟨-, rfl⟩ := EStateM.Result.ok.inj hrun
    exact ⟨[], .refl s, fun _ => tidy_nil⟩) fun _ => tidies_pure _

theorem tidies_takeComments : Tidies takeComments := by
  intro s cs t hrun
  obtain ⟨-, rfl⟩ := EStateM.Result.ok.inj ((takeComments_run s).symm.trans hrun)
  exact ⟨[], (Walks.refl s).commented, fun _ => tidy_nil⟩

/-- Run on `s`, the parser is broken by a gap behind the statement `x`.  If it succeeds, nothing
was recorded and its value `holds` the statement, then the statement is one of those that were
read, and without its semicolon the parser succeeds too, with a value that has others in its
place. -/
structure Breaks (x : Stmt) (closed : Bool) (s : State) (p : Parser α) (holds : α → Prop)
    (swaps : List Stmt → α → α → Prop) : Prop where
  walks : ∀ a t, p s = .ok a t → ∃ ts, Walks s ts t
  place : ∀ a t, p s = .ok a t → t.Clean → holds a → Visits x closed s t
  run : ∀ (g : Gap x) s' a t, Facing g s s' → p s = .ok a t → t.Clean → holds a →
    ∃ production a' t', p s' = .ok a' t' ∧ swaps g.instead a a' ∧
      Resumed (g.missing production) closed t t'

section

variable {p : Parser α} {f : α → Parser β} {m : α → γ} {holds : α → Prop} {holds' : β → Prop}
  {swaps : List Stmt → α → α → Prop} {swaps' : List Stmt → β → β → Prop}

theorem Breaks.mono {holds' : α → Prop} (h : Breaks x closed s p holds swaps)
    (hholds : ∀ a t, p s = .ok a t → holds' a → holds a) : Breaks x closed s p holds' swaps where
  walks := h.walks
  place a t hrun hclean hx := h.place a t hrun hclean (hholds a t hrun hx)
  run g s' a t hs hrun hclean hx := h.run g s' a t hs hrun hclean (hholds a t hrun hx)

/-- The statement may stand in one of two parts. -/
theorem Breaks.or {holds' : α → Prop} (h : Breaks x closed s p holds swaps)
    (h' : Breaks x closed s p holds' swaps) :
    Breaks x closed s p (fun a => holds a ∨ holds' a) swaps where
  walks := h.walks
  place a t hrun hclean hx :=
    hx.elim (h.place a t hrun hclean) (h'.place a t hrun hclean)
  run g s' a t hs hrun hclean hx :=
    hx.elim (h.run g s' a t hs hrun hclean) (h'.run g s' a t hs hrun hclean)

/-- Nothing to be broken. -/
theorem breaks_never (h : ∀ a t, p s = .ok a t → ∃ ts, Walks s ts t)
    (hnever : ∀ a t, p s = .ok a t → t.Clean → ¬ holds a) : Breaks x closed s p holds swaps where
  walks := h
  place a t hrun hclean hx := absurd hx (hnever a t hrun hclean)
  run _ _ a t _ hrun hclean hx := absurd hx (hnever a t hrun hclean)

/-- A part that comes to an end before the gap is the same on both sides. -/
theorem Facing.mirrors {g : Gap x} (h : Facing g s s') {a : α}
    (hmirrors : ∀ c : Comparison, c.Sure → Mirrors c anywhere false m p p)
    (hwalk : ∃ ts, Walks s ts t) (hwalk' : ∀ t', p s' = .ok a t' → ∃ ts, Walks s' ts t')
    (hrun : p s = .ok a t) (hcompared : (g.comparison true).Compared t) :
    ∃ t', p s' = .ok a t' ∧ Facing g t t' := by
  obtain ⟨b, t', hrun', halike, hpaired⟩ :=
    ((hmirrors _ g.sure).run s s' h.paired trivial).ok a t hrun (.inr hcompared)
  obtain rfl : a = b := halike.same rfl
  obtain ⟨ts, hwalk⟩ := hwalk
  obtain ⟨ts', hwalk'⟩ := hwalk' t' hrun'
  exact ⟨t', hrun', h.walks hwalk hwalk' hpaired⟩

/-- The statement stands behind the first part. -/
theorem Breaks.after (hmirrors : ∀ c : Comparison, c.Sure → Mirrors c anywhere false m p p)
    (htidies : Tidies p)
    (hf : ∀ a t ts, p s = .ok a t → Walks s ts t → Breaks x closed t (f a) holds' swaps') :
    Breaks x closed s (p >>= f) holds' swaps' := by
  refine ⟨fun b u hrun => ?_, fun b u hrun hclean hx => ?_, fun g s' b u hs hrun hclean hx => ?_⟩
  all_goals
    obtain ⟨a, t, hfirst, hthen⟩ := bind_eq_ok hrun
    obtain ⟨ts, hwalk, htidy⟩ := htidies s a t hfirst
    have hbreaks := hf a t ts hfirst hwalk
    obtain ⟨us, hwalk'⟩ := hbreaks.walks b u hthen
  · exact ⟨ts ++ us, hwalk.append hwalk'⟩
  · exact (hbreaks.place b u hthen hclean hx).prepend hwalk.toPasses (htidy (hwalk'.clean hclean))
  · have hvisits := hbreaks.place b u hthen hclean hx
    have hcompared := (hvisits.compared g (hs.place.passes hwalk.toPasses)).1
    obtain ⟨t', hfirst', ht⟩ := hs.mirrors hmirrors ⟨ts, hwalk⟩
      (fun t' hrun' => (htidies s' a t' hrun').imp fun _ h => h.1) hfirst hcompared
    rw [bind_of_ok hfirst']
    exact hbreaks.run g t' b u ht hthen hclean hx

/-- The statement stands in the first part. -/
theorem Breaks.andThen (hp : Breaks x true s p holds swaps)
    (hback : ∀ a t b u, p s = .ok a t → f a t = .ok b u → holds' b → holds a)
    (htidies : ∀ a, Tidies (f a))
    (hresumes : ∀ d ys a a', swaps ys a a' → Resumes d (swaps' ys) (f a) (f a')) :
    Breaks x true s (p >>= f) holds' swaps' := by
  refine ⟨fun b u hrun => ?_, fun b u hrun hclean hx => ?_, fun g s' b u hs hrun hclean hx => ?_⟩
  all_goals
    obtain ⟨a, t, hfirst, hthen⟩ := bind_eq_ok hrun
    obtain ⟨us, hwalk', -⟩ := htidies a t b u hthen
  · obtain ⟨ts, hwalk⟩ := hp.walks a t hfirst
    exact ⟨ts ++ us, hwalk.append hwalk'⟩
  · have hx' := hback a t b u hfirst hthen hx
    exact (hp.place a t hfirst (hwalk'.clean hclean) hx').append hwalk'.toPasses (by simp)
  · have hx' := hback a t b u hfirst hthen hx
    obtain ⟨production, a', t', hfirst', hswaps, ht⟩ :=
      hp.run g s' a t hs hfirst (hwalk'.clean hclean) hx'
    obtain ⟨b', u', hthen', hswaps', hu⟩ := hresumes _ _ a a' hswaps t t' b u ht hthen
    exact ⟨production, b', u', (bind_of_ok hfirst').trans hthen', hswaps', hu⟩

/-- The statement stands in what is read last, and what is made of this gets a span. -/
theorem Breaks.spanned {start : Position} {make : α → Span → β} (hp : Breaks x true s p holds swaps)
    (hback : ∀ a span, holds' (make a span) → holds a)
    (hswaps : ∀ ys a a' span, swaps ys a a' → swaps' ys (make a span) (make a' span)) :
    Breaks x true s (p >>= fun a => spanFrom start >>= fun span => pure (make a span)) holds'
      swaps' := by
  refine hp.andThen (fun a t b u _ hrun hx => ?_) (fun _ => tidies_spanned _)
    fun d ys a a' h => resumes_spanned fun span => hswaps ys a a' span h
  obtain ⟨rfl, -⟩ := EStateM.Result.ok.inj hrun
  exact hback a _ hx

/-- A decision by the next token, which is the same before the gap. -/
theorem breaks_kind {f : Kind → Parser β}
    (h : Breaks x closed s (f s.current.kind) holds' swaps') :
    Breaks x closed s (kind >>= f) holds' swaps' where
  walks := h.walks
  place := h.place
  run g s' b t hs hrun hclean hx := by
    have hcompared := ((h.place b t hrun hclean hx).compared g hs.place).1
    have hkind := (hs.paired.current (g.sure.started hcompared)).kind_eq
    show ∃ production a' t', f s'.current.kind s' = _ ∧ _
    rw [← hkind]
    exact h.run g s' b t hs hrun hclean hx

/-- The number of open braces is the same. -/
theorem breaks_depth {f : Nat → Parser β} (h : Breaks x closed s (f s.depth) holds' swaps') :
    Breaks x closed s (get >>= fun u => f u.depth) holds' swaps' where
  walks := h.walks
  place := h.place
  run g s' b t hs hrun hclean hx := by
    show ∃ production a' t', f s'.depth s' = _ ∧ _
    rw [hs.paired.depth]
    exact h.run g s' b t hs hrun hclean hx

end

/-! ### Repetition -/

/-- The two ways in which a repetition succeeds. -/
theorem manyWhile_eq_ok {wanted : Kind → Bool} {item : Parser α} {as : List α}
    (h : manyWhile wanted item s = .ok as t) :
    (wanted s.current.kind = false ∧ as = [] ∧ t = s) ∨
      wanted s.current.kind ∧ ∃ a u bs, as = a :: bs ∧ item s = .ok a u ∧
        u.rest.length < s.rest.length ∧ manyWhile wanted item u = .ok bs t := by
  rw [manyWhile_run] at h
  split at h
  · next hwanted =>
    obtain ⟨a, u, hitem, hmore⟩ := bind_eq_ok h
    obtain ⟨bs, v, hguard, hpure⟩ := bind_eq_ok hmore
    obtain ⟨rfl, rfl⟩ := EStateM.Result.ok.inj hpure
    obtain ⟨hlt, hloop⟩ := guarded_eq_ok hguard
    exact .inr ⟨hwanted, a, u, bs, rfl, hitem, hlt, hloop⟩
  · next hwanted =>
    obtain ⟨rfl, rfl⟩ := EStateM.Result.ok.inj h
    exact .inl ⟨by simpa using hwanted, rfl, rfl⟩

section

variable {wanted : Kind → Bool} {item : Parser α} {m : α → γ} {I : State → Prop}
  {holds : α → Prop} {swaps : List Stmt → α → α → Prop}

/-! An item before or around the gap is read on both sides. -/

section

variable {g : Gap x} {a : α} {bs : List α} (hs : Facing g s s') (hwanted : wanted s.current.kind)
  (hfirst : item s = .ok a u)

include hs hwanted hfirst

/-- The statement stands in the first item of a repetition. -/
theorem manyWhile_broken_here (hitem : Breaks x closed s item holds swaps) (hclean : u.Clean)
    (hx : holds a) (hrest : ∀ d u', Resumed d closed u u' →
      ∃ t', manyWhile wanted item u' = .ok bs t' ∧ Resumed d closed t t') :
    ∃ production as' t', manyWhile wanted item s' = .ok as' t' ∧
      Altered (swaps g.instead) (a :: bs) as' ∧ Resumed (g.missing production) closed t t' := by
  obtain ⟨hcompared, hbehind⟩ := (hitem.place a u hfirst hclean hx).compared g hs.place
  obtain ⟨production, a', u', hfirst', hswaps, hresumed⟩ := hitem.run g s' a u hs hfirst hclean hx
  obtain ⟨t', hmore', ht⟩ := hrest _ u' hresumed
  have hwanted' : wanted s'.current.kind := by
    rwa [← (hs.paired.current (g.sure.started hcompared)).kind_eq]
  have hlt' : u'.rest.length < s'.rest.length := by
    have hle : g.behind.length + 1 + 1 ≤ s.rest.length := hcompared
    have hlength := hs.length_rest
    rw [hresumed.rest]
    omega
  exact ⟨production, a' :: bs, t', manyWhile_cons hwanted' hfirst' hlt' hmore', .head hswaps bs, ht⟩

/-- The statement stands in a later item of a repetition. -/
theorem manyWhile_broken_later {ts : List Token} (hwalk : Walks s ts u)
    (hlt : u.rest.length < s.rest.length)
    (hmirrors : ∀ c : Comparison, c.Sure → Mirrors c anywhere false m item item)
    (hwalks : wanted s'.current.kind → ∀ u', item s' = .ok a u' → ∃ ts, Walks s' ts u')
    (hrest : Breaks x closed u (manyWhile wanted item) (fun as => ∃ a ∈ as, holds a)
      (fun ys => Altered (swaps ys)))
    (hmore : manyWhile wanted item u = .ok bs t) (hclean : t.Clean) (hx : ∃ b ∈ bs, holds b) :
    ∃ production as' t', manyWhile wanted item s' = .ok as' t' ∧
      Altered (swaps g.instead) (a :: bs) as' ∧ Resumed (g.missing production) closed t t' := by
  have hvisits := hrest.place bs t hmore hclean hx
  have hcompared := (hvisits.compared g (hs.place.passes hwalk.toPasses)).1
  have hwanted' : wanted s'.current.kind := by
    have hstarted := g.sure.started (hcompared.of_le (Nat.le_of_lt hlt))
    rwa [← (hs.paired.current hstarted).kind_eq]
  obtain ⟨u', hfirst', hu⟩ := hs.mirrors hmirrors ⟨ts, hwalk⟩ (hwalks hwanted') hfirst hcompared
  obtain ⟨production, bs', t', hmore', hswaps, ht⟩ := hrest.run g u' bs t hu hmore hclean hx
  have hlt' := (hs.paired.length_lt_iff hu.paired).mp hlt
  exact ⟨production, a :: bs', t', manyWhile_cons hwanted' hfirst' hlt' hmore', hswaps.tail a, ht⟩

end

-- `I` holds before every item, on both sides.
variable (hI : ∀ g s s', Facing (x := x) g s s' → I s → I s')
  (htidies : ∀ s a t, I s → wanted s.current.kind → item s = .ok a t →
    ∃ ts, Walks s ts t ∧ (t.Clean → Tidy ts) ∧ (wanted t.current.kind → I t))

include htidies

/-- A repetition walks over tokens. -/
theorem manyWhile_walks {as : List α} (hs : wanted s.current.kind → I s)
    (hrun : manyWhile wanted item s = .ok as t) : ∃ ts, Walks s ts t := by
  induction hn : s.rest.length using Nat.strong_induction_on generalizing s as with
  | _ n ih =>
    rcases manyWhile_eq_ok hrun with ⟨-, -, rfl⟩ | ⟨hwanted, a, u, bs, -, hitem, hlt, hmore⟩
    · exact ⟨[], .refl t⟩
    · obtain ⟨ts, hwalk, -, hnext⟩ := htidies s a u (hs hwanted) hwanted hitem
      obtain ⟨us, hwalk'⟩ := ih _ (hn ▸ hlt) hnext hmore rfl
      exact ⟨ts ++ us, hwalk.append hwalk'⟩

/-- If an item comes behind the one with the statement in it, it starts with a token that can
follow a statement. -/
theorem visits_manyWhile {bs : List α} (hvisits : Visits x closed s u)
    (hu : wanted u.current.kind → I u) (hmore : manyWhile wanted item u = .ok bs t)
    (hclean : t.Clean)
    (hnext : closed = false → ∀ s a t, I s → wanted s.current.kind → item s = .ok a t → t.Clean →
      s.current.kind ∈ followers) : Visits x closed s t := by
  obtain ⟨us, hwalk⟩ := manyWhile_walks htidies hu hmore
  rcases manyWhile_eq_ok hmore with ⟨-, -, rfl⟩ | ⟨hwanted, b, v, cs, -, hitem, -, hlast⟩
  · exact hvisits
  · obtain ⟨_, -, -, hv⟩ := htidies u b v (hu hwanted) hwanted hitem
    obtain ⟨_, hwalkLast⟩ := manyWhile_walks htidies hv hlast
    exact (hvisits.append hwalk.toPasses fun hclosed =>
      hnext hclosed u b v (hu hwanted) hwanted hitem (hwalkLast.clean hclean)).weaken

include hI

/-- Repetition.  The item with the statement in it is broken, those before it are the same on both
sides, and so are those behind it, which `hrest` says. -/
theorem breaks_manyWhile
    (hmirrors : ∀ c : Comparison, c.Sure → Mirrors c anywhere false m item item)
    (hnext : closed = false → ∀ s a t, I s → wanted s.current.kind → item s = .ok a t → t.Clean →
      s.current.kind ∈ followers)
    (hitem : ∀ s, I s → wanted s.current.kind → Breaks x closed s item holds swaps)
    (hrest : ∀ d s s' as t, (wanted s.current.kind → I s) → Resumed d closed s s' →
      manyWhile wanted item s = .ok as t → t.Clean →
        ∃ t', manyWhile wanted item s' = .ok as t' ∧ Resumed d closed t t')
    (s : State) (hs : wanted s.current.kind → I s) :
    Breaks x closed s (manyWhile wanted item) (fun as => ∃ a ∈ as, holds a)
      (fun ys => Altered (swaps ys)) := by
  induction hn : s.rest.length using Nat.strong_induction_on generalizing s with
  | _ n ih =>
    refine ⟨fun as t hrun => manyWhile_walks htidies hs hrun, fun as t hrun hclean hx => ?_,
      fun g s' as t hfacing hrun hclean hx => ?_⟩
    all_goals
      obtain ⟨b, hb, hx⟩ := hx
      rcases manyWhile_eq_ok hrun with
        ⟨-, rfl, -⟩ | ⟨hwanted, a, u, bs, rfl, hfirst, hlt, hmore⟩
      · exact absurd hb (by simp)
      obtain ⟨ts, hwalk, htidy, hu⟩ := htidies s a u (hs hwanted) hwanted hfirst
      have hmoreBreaks := ih _ (hn ▸ hlt) u hu rfl
      obtain ⟨us, hwalk'⟩ := hmoreBreaks.walks bs t hmore
      have hfirstBreaks := hitem s (hs hwanted) hwanted
      have hcleanFirst := hwalk'.clean hclean
    · rcases List.mem_cons.mp hb with rfl | hb
      · have hvisits := hfirstBreaks.place b u hfirst hcleanFirst hx
        exact visits_manyWhile htidies hvisits hu hmore hclean hnext
      · exact (hmoreBreaks.place bs t hmore hclean ⟨b, hb, hx⟩).prepend hwalk.toPasses
          (htidy hcleanFirst)
    · rcases List.mem_cons.mp hb with rfl | hb
      · exact manyWhile_broken_here hfacing hwanted hfirst hfirstBreaks hcleanFirst hx
          fun d u' hresumed => hrest d u u' bs t hu hresumed hmore hclean
      · refine manyWhile_broken_later hfacing hwanted hfirst hwalk hlt hmirrors (fun hwanted' u' h => ?_)
          hmoreBreaks hmore hclean ⟨b, hb, hx⟩
        exact (htidies s' a u' (hI g s s' hfacing (hs hwanted)) hwanted' h).imp fun _ h => h.1

end

end Parser

end FrontEnd
