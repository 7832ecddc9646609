/-
Parsers that only read.

Types and expressions are read without a trace: a parser for them consumes tokens and
does nothing else to the state, whether it succeeds or not.  `Reads` says which tokens lie
between two states, `Meets` what a parser makes of the tokens it consumes:

* a parser that succeeds has consumed a balanced list of tokens, of which the value
  satisfies a given predicate, and no integer literal that is out of range;
* a parser that fails has closed no brace that it has not opened, and the diagnostic
  covers a token that it consumed, one consumed shortly before it or the one where it
  stopped, or else a type or a primary expression made of such tokens.  If it has consumed
  an integer literal out of range, then as its last token, and the diagnostic is about that.

Each way to build a parser has its rule: `Meets.bind` for one after the other,
`Meets.braced` for something between braces, `meets_fix` for recursion and
`meets_manyWhile` for repetition.  Productions are then taken apart step by step.
-/
import FrontEnd.Parser.Basic
import FrontEnd.Proofs.Grammar.Spelling
import FrontEnd.Proofs.Parser.InRange
import FrontEnd.Proofs.Parser.Nesting
import Mathlib.Data.Nat.Init

namespace FrontEnd.Parser

variable {α β : Type}

/-! ### Running the parts of a parser -/

/-- The outcome of a run. -/
abbrev Outcome (α : Type) := EStateM.Result Diagnostic State α

/-- How a parser goes on after the outcome of another. -/
def Outcome.andThen (r : Outcome α) (f : α → Parser β) : Outcome β :=
  match r with
  | .ok a s => f a s
  | .error d s => .error d s

theorem bind_run (p : Parser α) (f : α → Parser β) (s : State) :
    (p >>= f) s = Outcome.andThen (p s) f := by
  show EStateM.bind p f s = _
  unfold EStateM.bind Outcome.andThen
  cases p s <;> rfl

theorem bind_of_ok {p : Parser α} {f : α → Parser β} {s s' : State} {a : α}
    (h : p s = .ok a s') : (p >>= f) s = f a s' := by
  rw [bind_run, h]
  rfl

theorem bind_of_error {p : Parser α} {f : α → Parser β} {s s' : State} {d : Diagnostic}
    (h : p s = .error d s') : (p >>= f) s = .error d s' := by
  rw [bind_run, h]
  rfl

/-- A parser after another succeeds only if both do. -/
theorem bind_eq_ok {p : Parser α} {f : α → Parser β} {s s'' : State} {b : β}
    (h : (p >>= f) s = .ok b s'') : ∃ a s', p s = .ok a s' ∧ f a s' = .ok b s'' := by
  cases hrun : p s with
  | ok a s' => exact ⟨a, s', rfl, (bind_of_ok hrun).symm.trans h⟩
  | error d s' => exact absurd ((bind_of_error hrun).symm.trans h) (by simp)

theorem map_run (g : α → β) (p : Parser α) (s : State) :
    (g <$> p) s = (p >>= fun a => pure (g a)) s := by
  rw [bind_run]
  show EStateM.map g p s = _
  unfold EStateM.map
  cases p s <;> rfl

theorem attempt_of_ok {p : Parser α} {s s' : State} {a : α} (h : p s = .ok a s') :
    attempt p s = .ok (.ok a) s' := by
  unfold attempt
  rw [h]

theorem attempt_of_error {p : Parser α} {s s' : State} {d : Diagnostic}
    (h : p s = .error d s') : attempt p s = .ok (.error d) s' := by
  unfold attempt
  rw [h]

theorem speculate_run (p : Parser α) (s : State) :
    speculate p s =
      match p s with
      | .ok a s' => .ok (some a) (s'.restore s.toTokenCursor)
      | .error _ s' => .ok none (s'.restore s.toTokenCursor) := by
  show (attempt p >>= fun result => restore s.toTokenCursor >>= fun _ =>
    pure result.toOption) s = _
  rw [bind_run]
  unfold attempt
  cases p s <;> rfl

/-- The state behind the comments before the next token. -/
def State.commented (s : State) : State :=
  { s with
    commentsTaken :=
      if s.commentsFrom < s.position.offset then s.position.offset else s.commentsTaken }

theorem between_eq_nil {first last : Nat} (h : last ≤ first) (trivia : List Trivia) :
    Trivia.between first last trivia = [] := by
  unfold Trivia.between
  induction trivia with
  | nil => rfl
  | cons t ts ih =>
    by_cases ht : t.span.start.offset < first
    · simpa [ht] using ih
    · have hlast : ¬ t.span.start.offset < last := by omega
      simp [ht, hlast]

theorem takeComments_run (s : State) : takeComments s = .ok s.comments s.commented := by
  have hrun : takeComments s =
      if s.commentsFrom < s.position.offset then
        .ok s.comments { s with commentsTaken := s.position.offset }
      else .ok [] s := by
    show (if s.commentsFrom < s.position.offset then _ else _ : Parser (List Comment)) s = _
    split <;> rfl
  rw [hrun]
  unfold State.commented
  split
  · rfl
  · -- Without a gap before the next token there are no comments to hand out.
    next hnot => rw [State.comments, between_eq_nil (Nat.not_lt.mp hnot), List.filterMap_nil]

/-- The state behind taking a literal apart. -/
def State.apart (s : State) (t : Token) (quote : Char) : State :=
  { s with faults := if (literalParts? t quote).isNone then s.faults ++ [t] else s.faults }

theorem takeApart_run (t : Token) (quote : Char) (s : State) :
    takeApart t quote s = .ok (literalParts t quote) (s.apart t quote) := by
  unfold takeApart State.apart
  by_cases h : (literalParts? t quote).isNone
  · rw [if_pos h, if_pos h]
    rfl
  · rw [if_neg h, if_neg h]
    rfl

/-- A recursive call, which fails unless fewer than `n` tokens are left. -/
def guarded (n : Nat) (p : Parser β) : Parser β := fun s =>
  if s.rest.length < n then p s else .error (s.unexpected "source_file" []) s

/-- A recursive call that succeeds was made with progress. -/
theorem guarded_eq_ok {n : Nat} {p : Parser β} {s s' : State} {b : β}
    (h : guarded n p s = .ok b s') : s.rest.length < n ∧ p s = .ok b s' := by
  unfold guarded at h
  split at h
  · next hlt => exact ⟨hlt, h⟩
  · exact absurd h (by simp)

theorem fix_run (body : (α → Parser β) → α → Parser β) (a : α) (s : State) :
    fix body a s = body (fun b => guarded s.rest.length (fix body b)) a s := by
  rw [fix]
  rfl

theorem nest_run (body : Parser β → Parser β) (s : State) :
    nest body s = body (guarded s.rest.length (nest body)) s := by
  unfold nest
  rw [fix_run]

/-- One turn of a repetition. -/
theorem manyWhile_run (wanted : Kind → Bool) (item : Parser α) (s : State) :
    manyWhile wanted item s =
      (if wanted s.current.kind then
        item >>= fun a => guarded s.rest.length (manyWhile wanted item) >>= fun as => pure (a :: as)
      else pure [] : Parser (List α)) s := by
  unfold manyWhile nest
  rw [fix_run]
  rfl

theorem manyWhile_of_not {wanted : Kind → Bool} {s : State}
    (h : wanted s.current.kind = false) (item : Parser α) :
    manyWhile wanted item s = .ok [] s := by
  rw [manyWhile_run, h]
  rfl

/-- An item that is wanted and makes progress, and the items behind it. -/
theorem manyWhile_cons {wanted : Kind → Bool} {item : Parser α} {s s' s'' : State} {a : α}
    {as : List α} (hw : wanted s.current.kind) (hitem : item s = .ok a s')
    (hlt : s'.rest.length < s.rest.length) (hmore : manyWhile wanted item s' = .ok as s'') :
    manyWhile wanted item s = .ok (a :: as) s'' := by
  have hguard : guarded s.rest.length (manyWhile wanted item) s' = .ok as s'' := by
    rw [guarded, if_pos hlt]
    exact hmore
  rw [manyWhile_run, if_pos hw, bind_of_ok hitem, bind_of_ok hguard]
  rfl

/-! ### Tokens between two states -/

/-- Some of the tokens `ts`, literals that cannot be taken apart, come behind the tokens at which
reading has broken off before. -/
def Faults (before ts after : List Token) : Prop :=
  ∃ us, after = before ++ us ∧ us.Sublist ts ∧ ∀ t ∈ us, t.Headless

theorem Faults.none {before ts : List Token} : Faults before ts before :=
  ⟨[], (List.append_nil _).symm, List.nil_sublist _, by simp⟩

theorem Faults.of_eq {before ts after : List Token} (h : after = before) :
    Faults before ts after := h ▸ .none

theorem Faults.append {before between after ts us : List Token} (h : Faults before ts between)
    (h' : Faults between us after) : Faults before (ts ++ us) after := by
  obtain ⟨xs, rfl, hsub, hxs⟩ := h
  obtain ⟨ys, rfl, hsub', hys⟩ := h'
  refine ⟨xs ++ ys, List.append_assoc _ _ _, hsub.append hsub', fun t ht => ?_⟩
  exact (List.mem_append.mp ht).elim (hxs t) (hys t)

/-- Nothing is passed, and nothing is added. -/
theorem Faults.eq_of_nil {before after : List Token} (h : Faults before [] after) :
    after = before := by
  obtain ⟨us, rfl, hsub, -⟩ := h
  rw [List.sublist_nil.mp hsub, List.append_nil]

/-- What is added behind the first token, which may have been added itself. -/
theorem Faults.behind {before after ts : List Token} {t : Token}
    (h : Faults before (t :: ts) after) :
    ∃ between, (between = before ∨ between = before ++ [t]) ∧ Faults between ts after := by
  obtain ⟨us, rfl, hsub, hus⟩ := h
  -- The first token is one of those added, or it is not.
  rcases List.sublist_cons_iff.mp hsub with hbehind | ⟨us, rfl, hbehind⟩
  · exact ⟨before, .inl rfl, us, rfl, hbehind, hus⟩
  · refine ⟨before ++ [t], .inr rfl, us, ?_, hbehind, fun u hu => hus u (List.mem_cons_of_mem t hu)⟩
    rw [List.append_assoc, List.singleton_append]

/-- The tokens `ts` lie between the two states. -/
structure Passes (s : State) (ts : List Token) (s' : State) : Prop where
  rest : s.rest = ts ++ s'.rest
  consumed : s'.consumed = ts.reverse ++ s.consumed
  proper : ∀ t ∈ ts, t.kind ≠ .eof
  eof : s'.eof = s.eof
  trivia : s'.trivia = s.trivia
  faults : Faults s.faults ts s'.faults

theorem Passes.refl (s : State) : Passes s [] s := ⟨rfl, rfl, by simp, rfl, rfl, .none⟩

theorem Passes.append {s s' s'' : State} {ts us : List Token} (h : Passes s ts s')
    (h' : Passes s' us s'') : Passes s (ts ++ us) s'' where
  rest := by rw [h.rest, h'.rest, List.append_assoc]
  consumed := by rw [h'.consumed, h.consumed, List.reverse_append, List.append_assoc]
  proper t ht := (List.mem_append.mp ht).elim (h.proper t) (h'.proper t)
  eof := h'.eof.trans h.eof
  trivia := h'.trivia.trans h.trivia
  faults := h.faults.append h'.faults

section

variable {s s' : State} {ts : List Token} {depth commentsTaken : Nat} {diagnostics : Diagnostics}

/-- Which braces are open, which comments have been handed out and what has been recorded does
not matter to the tokens passed, neither where they end nor where they start. -/
theorem Passes.aside (h : Passes s ts s') :
    Passes s ts { s' with depth, commentsTaken, diagnostics } :=
  ⟨h.rest, h.consumed, h.proper, h.eof, h.trivia, h.faults⟩

theorem Passes.of_aside (h : Passes { s with depth, commentsTaken, diagnostics } ts s') :
    Passes s ts s' :=
  ⟨h.rest, h.consumed, h.proper, h.eof, h.trivia, h.faults⟩

end

theorem current_of_rest {s : State} {t : Token} {rest : List Token} (h : s.rest = t :: rest) :
    s.current = t := by
  simp [State.current, State.peek, h]

/-- The next token, if it is not the end of the input, is the first of those left. -/
theorem rest_of_current {s : State} (h : s.current.kind ≠ .eof) :
    ∃ rest, s.rest = s.current :: rest := by
  cases hrest : s.rest with
  | nil =>
    refine absurd s.eof_kind ?_
    simpa [State.current, State.peek, hrest] using h
  | cons t rest => exact ⟨rest, by rw [current_of_rest hrest]⟩

/-- The next token is the first of those that are passed, or the next one behind them. -/
theorem Passes.current_mem {s s' : State} {ts : List Token} (h : Passes s ts s') :
    s.current ∈ ts ++ [s'.current] := by
  cases ts with
  | nil =>
    have hsame : s.current = s'.current := by
      rw [State.current, State.current, State.peek, State.peek, h.rest, h.eof]
      rfl
    simp [hsame]
  | cons t ts => simp [current_of_rest h.rest]

/-- Consuming a token passes just that token. -/
theorem passes_advance {s : State} (h : s.current.kind ≠ .eof) :
    Passes s [s.current] s.advance := by
  obtain ⟨rest, hrest⟩ := rest_of_current h
  unfold State.advance
  rw [hrest]
  simp only [h, if_false]
  exact ⟨hrest, rfl, by simpa using h, rfl, rfl, .none⟩

/-- The number of open braces behind a consumed token. -/
theorem depth_advance {s : State} (h : s.current.kind ≠ .eof) {n : Nat}
    (hn : s.current.kind.nests? s.depth = some n) : s.advance.depth = n := by
  obtain ⟨rest, hrest⟩ := rest_of_current h
  unfold State.advance
  rw [hrest]
  simp only [h, if_false]
  unfold Kind.nests? at hn
  split at hn
  · next hk => simpa [hk] using hn
  · next hk =>
    cases hd : s.depth with
    | zero => simp [hd] at hn
    | succ d => simpa [hk, hd] using hn
  · next hopen hclose => simpa using hn

/-- The span up to the last consumed token, in terms of the tokens passed. -/
theorem Passes.spanFrom {s s' : State} {ts : List Token} (h : Passes s ts s') (hne : ts ≠ [])
    (p : Position) : s'.spanFrom p = spanning p ts := by
  -- The last token passed is the one consumed last.
  obtain ⟨us, t, rfl⟩ := List.eq_nil_or_concat ts |>.resolve_left hne
  have hconsumed : s'.consumed = t :: (us.reverse ++ s.consumed) := by
    rw [h.consumed]
    simp
  have hprev : s'.previousEnd = t.span.stop := by
    unfold State.previousEnd
    rw [hconsumed]
  unfold State.spanFrom spanning
  rw [hprev]
  simp

/-- The span from where the first state stands up to the last consumed token. -/
theorem Passes.covering {s s' : State} {ts : List Token} (h : Passes s ts s') (hne : ts ≠ []) :
    s'.spanFrom s.position = covering ts := by
  rw [h.spanFrom hne]
  cases ts with
  | nil => exact absurd rfl hne
  | cons t ts => rw [State.position, current_of_rest h.rest, covering_cons]

/-- Nothing but the tokens `ts` lies between the two states. -/
structure Reads (s : State) (ts : List Token) (s' : State) : Prop extends Passes s ts s' where
  depth : ∀ n, nesting s.depth ts = some n → s'.depth = n
  commentsTaken : s'.commentsTaken = s.commentsTaken
  diagnostics : s'.diagnostics = s.diagnostics

theorem Reads.refl (s : State) : Reads s [] s :=
  ⟨.refl s, fun _ h => Option.some.inj h, rfl, rfl⟩

theorem Reads.append {s s' s'' : State} {ts us : List Token} (h : Reads s ts s')
    (h' : Reads s' us s'') : Reads s (ts ++ us) s'' where
  toPasses := h.toPasses.append h'.toPasses
  depth n hn := by
    rw [nesting_append] at hn
    obtain ⟨m, hm, hn'⟩ := Option.bind_eq_some_iff.mp hn
    refine h'.depth n ?_
    rw [h.depth m hm]
    exact hn'
  commentsTaken := h'.commentsTaken.trans h.commentsTaken
  diagnostics := h'.diagnostics.trans h.diagnostics

/-- Consuming a token reads just that token. -/
theorem reads_advance {s : State} (h : s.current.kind ≠ .eof) : Reads s [s.current] s.advance := by
  obtain ⟨rest, hrest⟩ := rest_of_current h
  have hkept : s.advance.commentsTaken = s.commentsTaken ∧
      s.advance.diagnostics = s.diagnostics := by
    unfold State.advance
    rw [hrest]
    simp [h]
  refine ⟨passes_advance h, fun n hn => ?_, hkept.1, hkept.2⟩
  refine depth_advance h ?_
  simpa [nesting] using hn

theorem faults_advance (s : State) : s.advance.faults = s.faults := by
  unfold State.advance
  split
  · rfl
  · dsimp only
    split <;> rfl

/-- Consuming a literal and taking it apart reads just the literal. -/
theorem reads_apart {s : State} {quote : Char} (h : s.current.kind ≠ .eof)
    (hquotes : s.current.kind.Quotes quote) :
    Reads s [s.current] (s.advance.apart s.current quote) := by
  have hread := reads_advance h
  refine ⟨⟨hread.rest, hread.consumed, hread.proper, hread.eof, hread.trivia, ?_⟩, hread.depth,
    hread.commentsTaken, hread.diagnostics⟩
  unfold State.apart
  dsimp only
  rw [faults_advance]
  split
  · next hnone =>
    have hheadless : s.current.Headless := ⟨quote, hquotes, Option.isNone_iff_eq_none.mp hnone⟩
    exact ⟨[s.current], rfl, List.Sublist.refl _, by simpa using hheadless⟩
  · exact .none

/-- What has only been read, and not broken off, can be undone. -/
theorem Reads.restore {s s' : State} {ts : List Token} (h : Reads s ts s')
    (hfaults : s'.faults = s.faults) : s'.restore s.toTokenCursor = s := by
  have heof := h.eof
  have htrivia := h.trivia
  have hdiag := h.diagnostics
  obtain ⟨cursor, eof, trivia, diagnostics, faults, heof_kind⟩ := s
  obtain ⟨cursor', eof', trivia', diagnostics', faults', heof_kind'⟩ := s'
  simp only at heof htrivia hdiag hfaults
  subst heof htrivia hdiag hfaults
  rfl

/-! ### The token that comes next -/

theorem index_advance {s : State} (h : s.current.kind ≠ .eof) :
    s.advance.index = s.index + 1 := by
  simp [State.index, (passes_advance h).consumed]

theorem length_rest_advance {s : State} (h : s.current.kind ≠ .eof) :
    s.advance.rest.length < s.rest.length := by
  simp [(passes_advance h).rest]

theorem Passes.index_eq {s s' : State} {ts : List Token} (h : Passes s ts s') :
    s'.index = s.index + ts.length := by
  simp [State.index, h.consumed, Nat.add_comm]

theorem rest_advance {s : State} {t : Token} {rest : List Token} (h : s.rest = t :: rest)
    (ht : t.kind ≠ .eof) : s.advance.rest = rest := by
  have hcurrent := current_of_rest h
  have hpass := (passes_advance (s := s) (by rw [hcurrent]; exact ht)).rest
  rw [h, hcurrent] at hpass
  exact (List.cons.inj hpass).2.symm

theorem reads_of_rest {s : State} {t : Token} {rest : List Token} (h : s.rest = t :: rest)
    (ht : t.kind ≠ .eof) : Reads s [t] s.advance := by
  have hcurrent := current_of_rest h
  have hread := reads_advance (s := s) (by rw [hcurrent]; exact ht)
  rwa [hcurrent] at hread

/-- What is covered up to a token that has just been consumed. -/
theorem spanFrom_advance {s : State} (h : s.current.kind ≠ .eof) {p : Position}
    (hle : p.offset ≤ s.current.span.stop.offset) :
    s.advance.spanFrom p = ⟨p, s.current.span.stop⟩ := by
  unfold State.spanFrom State.previousEnd
  rw [(passes_advance h).consumed]
  exact if_neg (Nat.not_lt.mpr hle)

/-! ### What a parser makes of the tokens it consumes -/

/-- The span is that of one of the tokens, or of a type or a primary expression that some of
them, next to each other, are a spelling of. -/
inductive Names (us : List Token) : Span → Prop
  | token {t : Token} (ht : t ∈ us) : Names us t.span
  | type {type : TypeExpr} {ts : List Token} (h : type.SpelledBy ts) (hts : ts <:+: us) :
    Names us type.span
  | primary {e : Expr} {ts : List Token} (h : e.PrimaryBy ts) (hts : ts <:+: us) :
    Names us e.span

theorem Names.mono {us vs : List Token} {span : Span} (h : Names us span) (hus : us <:+: vs) :
    Names vs span := by
  cases h with
  | token ht => exact .token (hus.subset ht)
  | type h hts => exact .type h (hts.trans hus)
  | primary h hts => exact .primary h (hts.trans hus)

/-- The diagnostic is about syntax, starts with one of the given tokens or with the next one,
and covers one of these or what some of them spell. -/
def Located (d : Diagnostic) (ts : List Token) (s : State) : Prop :=
  d.cause.category = .syntactic ∧ (∃ t ∈ ts ++ [s.current], d.span.start = t.span.start) ∧
    Names (ts ++ [s.current]) d.span

theorem Located.mono {d : Diagnostic} {us vs : List Token} {s s' : State} (h : Located d us s)
    (hus : us ++ [s.current] <:+: vs ++ [s'.current]) : Located d vs s' := by
  obtain ⟨hcategory, ⟨t, ht, hd⟩, hnames⟩ := h
  exact ⟨hcategory, ⟨t, hus.subset ht, hd⟩, hnames.mono hus⟩

theorem Located.append {d : Diagnostic} {us : List Token} {s : State} (h : Located d us s)
    (ts : List Token) : Located d (ts ++ us) s := by
  refine h.mono ?_
  rw [List.append_assoc]
  exact (List.suffix_append _ _).isInfix

theorem located_of_mem {d : Diagnostic} {t : Token} {ts : List Token} (ht : t ∈ ts)
    (hcategory : d.cause.category = .syntactic) (h : d.span.start = t.span.start)
    (hnames : Names ts d.span) (s : State) : Located d ts s :=
  ⟨hcategory, ⟨t, List.mem_append_left _ ht, h⟩, hnames.mono (List.prefix_append _ _).isInfix⟩

theorem located_unexpected (s : State) (production : String) (expected : List Kind)
    (ts : List Token) : Located (s.unexpected production expected) ts s :=
  ⟨rfl, ⟨s.current, by simp, rfl⟩, .token (by simp)⟩

theorem span_notFound (s : State) (production : String) (expected : Kind) :
    (s.notFound production expected).span = s.current.span := by
  unfold State.notFound
  split <;> rfl

theorem located_notFound (s : State) (production : String) (expected : Kind) (ts : List Token) :
    Located (s.notFound production expected) ts s := by
  refine ⟨?_, ⟨s.current, by simp, ?_⟩, ?_⟩
  · unfold State.notFound
    split <;> rfl
  · rw [span_notFound]
  · rw [span_notFound]
    exact .token (by simp)

/-- Run on `s`, the parser only reads: if it succeeds, it has read a balanced list of
tokens that its value satisfies `V` with, and if it fails, it has closed no brace that it
has not opened, and fails at a token it has read, at one of those `seen` before, or where
it stopped.  An integer literal out of range makes it fail at once. -/
def Meets (seen : List Token) (s : State) (p : Parser α) (V : α → List Token → Prop) : Prop :=
  match p s with
  | .ok a s' => ∃ ts, Reads s ts s' ∧ Balanced ts ∧ InRange ts ∧ V a ts
  | .error d s' => ∃ ts, Reads s ts s' ∧ Opens ts ∧ Heeds ts d ∧ Located d (seen ++ ts) s'

section

variable {seen : List Token} {s : State} {p : Parser α} {f : α → Parser β}
  {A : α → List Token → Prop} {B : β → List Token → Prop}

theorem Meets.inRange_of_ok (h : Meets seen s p A) {a : α} {s' : State} (hp : p s = .ok a s') :
    ∃ ts, Reads s ts s' ∧ Balanced ts ∧ InRange ts ∧ A a ts := by
  unfold Meets at h
  rwa [hp] at h

theorem Meets.of_ok (h : Meets seen s p A) {a : α} {s' : State} (hp : p s = .ok a s') :
    ∃ ts, Reads s ts s' ∧ Balanced ts ∧ A a ts := by
  obtain ⟨ts, hread, hbal, -, ha⟩ := h.inRange_of_ok hp
  exact ⟨ts, hread, hbal, ha⟩

theorem Meets.heeds_of_error (h : Meets seen s p A) {d : Diagnostic} {s' : State}
    (hp : p s = .error d s') :
    ∃ ts, Reads s ts s' ∧ Opens ts ∧ Heeds ts d ∧ Located d (seen ++ ts) s' := by
  unfold Meets at h
  rwa [hp] at h

theorem Meets.of_error (h : Meets seen s p A) {d : Diagnostic} {s' : State}
    (hp : p s = .error d s') :
    ∃ ts, Reads s ts s' ∧ Opens ts ∧ Located d (seen ++ ts) s' := by
  obtain ⟨ts, hread, hopen, -, hd⟩ := h.heeds_of_error hp
  exact ⟨ts, hread, hopen, hd⟩

theorem meets_ok {a : α} {s' : State} {ts : List Token} (hp : p s = .ok a s')
    (hread : Reads s ts s') (hbal : Balanced ts) (hrange : InRange ts) (ha : A a ts) :
    Meets seen s p A := by
  unfold Meets
  rw [hp]
  exact ⟨ts, hread, hbal, hrange, ha⟩

theorem meets_error {d : Diagnostic} {s' : State} {ts : List Token} (hp : p s = .error d s')
    (hread : Reads s ts s') (hopen : Opens ts) (hheeds : Heeds ts d)
    (hd : Located d (seen ++ ts) s') : Meets seen s p A := by
  unfold Meets
  rw [hp]
  exact ⟨ts, hread, hopen, hheeds, hd⟩

/-- A parser that fails where it stands. -/
theorem meets_fail {d : Diagnostic} (hp : p s = .error d s) (hd : Located d seen s) :
    Meets seen s p A :=
  meets_error hp (.refl s) opens_nil (inRange_nil.heeds d) (by rwa [List.append_nil])

theorem Meets.congr {q : Parser α} (h : p s = q s) (hq : Meets seen s q A) : Meets seen s p A := by
  unfold Meets at hq ⊢
  rwa [h]

/-- One parser after another. -/
theorem Meets.bind (hp : Meets seen s p A)
    (hf : ∀ a ts s', Reads s ts s' → A a ts →
      Meets (seen ++ ts) s' (f a) fun b us => B b (ts ++ us)) : Meets seen s (p >>= f) B := by
  cases hrun : p s with
  | error d s' =>
    obtain ⟨ts, hread, hopen, hheeds, hd⟩ := hp.heeds_of_error hrun
    exact meets_error (bind_of_error hrun) hread hopen hheeds hd
  | ok a s' =>
    obtain ⟨ts, hread, hbal, hrange, ha⟩ := hp.inRange_of_ok hrun
    have hgo : (p >>= f) s = f a s' := bind_of_ok hrun
    have hrest := hf a ts s' hread ha
    cases hrun' : f a s' with
    | ok b s'' =>
      obtain ⟨us, hread', hbal', hrange', hb⟩ := hrest.inRange_of_ok hrun'
      exact meets_ok (hgo.trans hrun') (hread.append hread') (hbal.append hbal')
        (hrange.append hrange') hb
    | error d s'' =>
      obtain ⟨us, hread', hopen', hheeds, hd⟩ := hrest.heeds_of_error hrun'
      rw [List.append_assoc] at hd
      exact meets_error (hgo.trans hrun') (hread.append hread') (hbal.opens.append hopen')
        (hheeds.append hrange) hd

theorem Meets.mono {A' : α → List Token → Prop} (hp : Meets seen s p A)
    (h : ∀ a ts, A a ts → A' a ts) : Meets seen s p A' := by
  unfold Meets at hp ⊢
  cases hrun : p s with
  | ok a s' =>
    rw [hrun] at hp
    obtain ⟨ts, hread, hbal, hrange, ha⟩ := hp
    exact ⟨ts, hread, hbal, hrange, h a ts ha⟩
  | error d s' =>
    rw [hrun] at hp
    exact hp

theorem meets_pure {a : α} (h : A a []) : Meets seen s (pure a) A :=
  meets_ok rfl (.refl s) balanced_nil inRange_nil h

theorem Meets.map {g : α → β} (hp : Meets seen s p A) (h : ∀ a ts, A a ts → B (g a) ts) :
    Meets seen s (g <$> p) B := by
  refine Meets.congr (map_run g p s) ?_
  refine hp.bind fun a ts s' _ ha => meets_pure ?_
  simpa using h a ts ha

theorem meets_unexpected (production : String) (expected : List Kind) :
    Meets seen s (unexpected production expected : Parser α) A :=
  meets_fail rfl (located_unexpected s production expected seen)

/-- A recursive call reads what it reads, or nothing if it is made without progress. -/
theorem meets_guarded {n : Nat} (h : s.rest.length < n → Meets seen s p A) :
    Meets seen s (guarded n p) A := by
  by_cases hlt : s.rest.length < n
  · exact Meets.congr (if_pos hlt) (h hlt)
  · exact meets_fail (if_neg hlt) (located_unexpected s _ _ seen)

/-! Looking at the state reads nothing. -/

theorem meets_kind {f : Kind → Parser β} (h : Meets seen s (f s.current.kind) B) :
    Meets seen s (kind >>= f) B := h

theorem meets_peekKind {n : Nat} {f : Kind → Parser β} (h : Meets seen s (f (s.peek n).kind) B) :
    Meets seen s (peekKind n >>= f) B := h

theorem meets_position {f : Position → Parser β} (h : Meets seen s (f s.position) B) :
    Meets seen s (position >>= f) B := h

theorem meets_spanFrom {start : Position} {f : Span → Parser β}
    (h : Meets seen s (f (s.spanFrom start)) B) : Meets seen s (spanFrom start >>= f) B := h

end

/-! ### Single tokens -/

theorem expect_run (expected : Kind) (production : String) (s : State) :
    expect expected production s =
      if s.current.kind = expected then .ok s.current s.advance
      else .error (s.notFound production expected) s := by
  show (if s.current.kind = expected then _ else _ : Parser Token) s = _
  split <;> rfl

theorem expect_eq_ok {s s' : State} {expected : Kind} {production : String} {t : Token}
    (hrun : expect expected production s = .ok t s') :
    s.current.kind = expected ∧ t = s.current ∧ s' = s.advance := by
  rw [expect_run] at hrun
  split at hrun
  · next hkind =>
    obtain ⟨rfl, rfl⟩ := EStateM.Result.ok.inj hrun
    exact ⟨hkind, rfl, rfl⟩
  · cases hrun

theorem kind_bind_run (f : Kind → Parser β) (s : State) :
    (kind >>= f) s = f s.current.kind s := rfl

theorem peekKind_bind_run (i : Nat) (f : Kind → Parser β) (s : State) :
    (peekKind i >>= f) s = f (s.peek i).kind s := rfl

theorem expect_of_rest {s : State} {t : Token} {rest : List Token} (h : s.rest = t :: rest)
    (production : String) : expect t.kind production s = .ok t s.advance := by
  rw [expect_run, current_of_rest h, if_pos rfl]

section

variable {seen : List Token} {s : State}

/-- A token of a plain kind is consumed. -/
theorem meets_expect {expected : Kind} {production : String} (hk : expected.isPlain) :
    Meets seen s (expect expected production) fun t ts => ts = [t] ∧ t.kind = expected := by
  by_cases h : s.current.kind = expected
  · obtain ⟨hbrace, hnumber, heof⟩ := Kind.isPlain_iff.mp (h ▸ hk)
    exact meets_ok (by rw [expect_run, if_pos h]) (reads_advance heof)
      (balanced_singleton hbrace) (inRange_of_ne_number hnumber) ⟨rfl, h⟩
  · refine meets_fail (by rw [expect_run, if_neg h]) ?_
    exact located_notFound s production expected seen

/-- The next token, if it is of a plain kind, is consumed. -/
theorem meets_advance (hk : s.current.kind.isPlain) :
    Meets seen s advance fun t ts => ts = [t] ∧ t = s.current := by
  obtain ⟨hbrace, hnumber, heof⟩ := Kind.isPlain_iff.mp hk
  exact meets_ok rfl (reads_advance heof) (balanced_singleton hbrace)
    (inRange_of_ne_number hnumber) ⟨rfl, rfl⟩

theorem meets_skip? {wanted : Kind} (hk : wanted.isPlain) :
    Meets seen s (skip? wanted) (Optional wanted) := by
  have hrun : skip? wanted s =
      if s.current.kind = wanted then .ok true s.advance else .ok false s := by
    show (if s.current.kind = wanted then _ else _ : Parser Bool) s = _
    split <;> rfl
  by_cases h : s.current.kind = wanted
  · obtain ⟨hbrace, hnumber, heof⟩ := Kind.isPlain_iff.mp (h ▸ hk)
    exact meets_ok (by rw [hrun, if_pos h]) (reads_advance heof) (balanced_singleton hbrace)
      (inRange_of_ne_number hnumber) (.present h)
  · exact meets_ok (by rw [hrun, if_neg h]) (.refl s) balanced_nil inRange_nil .absent

/-- Something behind a mark, if the mark is next, and what comes after it. -/
theorem meets_skipThen {k : Kind} {p : Parser α} {f : Option α → Parser β}
    {A : α → List Token → Prop} {B : β → List Token → Prop}
    (hk : k.isPlain) (hp : ∀ seen s, Meets seen s p A)
    (hf : ∀ o ts s', Reads s ts s' → Perhaps (Behind k A) o ts →
      Meets (seen ++ ts) s' (f o) fun b us => B b (ts ++ us)) :
    Meets seen s (skip? k >>= fun found =>
      if found then (some <$> p) >>= f else pure none >>= f) B := by
  refine (meets_skip? hk).bind fun found ts s₁ h₁ hfound => ?_
  cases hfound with
  | absent => simpa using hf none [] s₁ h₁ .none
  | @present t ht =>
    have hsome : Meets (seen ++ [t]) s₁ (some <$> p) fun o us => ∃ a, o = some a ∧ A a us :=
      (hp _ s₁).map fun a us ha => ⟨a, rfl, ha⟩
    refine hsome.bind ?_
    rintro _ us s₂ h₂ ⟨a, rfl, ha⟩
    simpa using hf (some a) _ s₂ (h₁.append h₂) (.some (.mk ht ha))

end

/-! ### Repetition, braces and recursion -/

/-- Repetition: if an item makes a value of what it reads wherever it is wanted, the
repetition makes a list of values of what it reads. -/
theorem meets_manyWhile {wanted : Kind → Bool} {item : Parser α} {V : α → List Token → Prop}
    (hitem : ∀ seen s, wanted s.current.kind → Meets seen s item V) (seen : List Token)
    (s : State) : Meets seen s (manyWhile wanted item) (Each V) := by
  induction hn : s.rest.length using Nat.strong_induction_on generalizing seen s with
  | _ n ih =>
    refine Meets.congr (manyWhile_run wanted item s) ?_
    split
    · next hw =>
      refine (hitem seen s hw).bind fun a ts s' _ ha => ?_
      have hmore := meets_guarded fun hlt => ih _ (hn ▸ hlt) (seen ++ ts) s' rfl
      refine hmore.bind fun as us s'' _ has => meets_pure ?_
      simpa using Each.cons ha has
    · exact meets_pure .nil

/-- Something between braces, and what is made of it behind them without reading on. -/
theorem Meets.braced {seen : List Token} {s : State} {items : Parser α} {f : α → Parser β}
    {A : α → List Token → Prop} {B : β → List Token → Prop} {production : String}
    (hitems : ∀ seen s, Meets seen s items A)
    (hf : ∀ a o ts c s', Reads s (o :: (ts ++ [c])) s' → o.kind = .symbol .openCurly →
      A a ts → c.kind = .symbol .closeCurly →
        ∃ b, f a s' = .ok b s' ∧ B b (o :: (ts ++ [c]))) :
    Meets seen s (expect (.symbol .openCurly) production >>= fun _ => items >>= fun a =>
      expect (.symbol .closeCurly) production >>= fun _ => f a) B := by
  by_cases hopen : s.current.kind = .symbol .openCurly
  · have hread := reads_advance (show s.current.kind ≠ .eof by rw [hopen]; simp)
    have hbrace : expect (.symbol .openCurly) production s = .ok s.current s.advance := by
      rw [expect_run, if_pos hopen]
    have hfirst : InRange [s.current] := inRange_of_ne_number (by rw [hopen]; simp)
    cases hrun : items s.advance with
    | error d s' =>
      obtain ⟨ts, hread', hopens, hheeds, hd⟩ :=
        (hitems (seen ++ [s.current]) _).heeds_of_error hrun
      rw [List.append_assoc] at hd
      -- The opening brace is consumed and stays open.
      refine meets_error ?_ (hread.append hread') (hopens.open_cons hopen) (hheeds.append hfirst) hd
      rw [bind_of_ok hbrace, bind_of_error hrun]
    | ok a s' =>
      obtain ⟨ts, hread', hbal, hrange, ha⟩ := (hitems seen _).inRange_of_ok hrun
      by_cases hclose : s'.current.kind = .symbol .closeCurly
      · have hread'' := reads_advance (show s'.current.kind ≠ .eof by rw [hclose]; simp)
        have hall := hread.append (hread'.append hread'')
        obtain ⟨b, hb, hB⟩ := hf a _ ts _ _ hall hopen ha hclose
        have hlast : InRange [s'.current] := inRange_of_ne_number (by rw [hclose]; simp)
        refine meets_ok ?_ hall (hbal.braced hopen hclose) (hfirst.append (hrange.append hlast)) hB
        have hbrace' : expect (.symbol .closeCurly) production s' = .ok s'.current s'.advance := by
          rw [expect_run, if_pos hclose]
        rw [bind_of_ok hbrace, bind_of_ok hrun, bind_of_ok hbrace', hb]
      · refine meets_error ?_ (hread.append hread') (hbal.opens.open_cons hopen)
          ((hfirst.append hrange).heeds _)
          (located_notFound s' production (.symbol .closeCurly) _)
        rw [bind_of_ok hbrace, bind_of_ok hrun]
        exact bind_of_error (by rw [expect_run, if_neg hclose])
  · refine meets_fail ?_ (located_notFound s production (.symbol .openCurly) _)
    exact bind_of_error (by rw [expect_run, if_neg hopen])

/-- Recursion: a recursive parser makes of what it reads what its body does, its recursive
calls doing so. -/
theorem meets_fix {body : (α → Parser β) → α → Parser β} {V : α → β → List Token → Prop}
    (hbody : ∀ self : α → Parser β, (∀ a seen s, Meets seen s (self a) (V a)) →
      ∀ a seen s, Meets seen s (body self a) (V a)) (a : α) (seen : List Token) (s : State) :
    Meets seen s (fix body a) (V a) := by
  induction hn : s.rest.length using Nat.strong_induction_on generalizing a seen s with
  | _ n ih =>
    refine Meets.congr (fix_run body a s) ?_
    -- A recursive call is made with fewer tokens left, or fails where it stands.
    refine hbody _ (fun b seen' s' => meets_guarded fun hlt => ?_) a seen s
    exact ih _ (hn ▸ hlt) b seen' s' rfl

end FrontEnd.Parser
