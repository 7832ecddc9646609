/-
The number of open braces along a run.

A parser that starts inside `base` braces never closes one of these.  `Step base` holds all
that it does to the state on its way: it consumes a token, which is a closing brace only if
more than `base` are open, records a diagnostic, hands out comments, or gives up on braces
that it has opened itself, before a token that ends all blocks.

* `Run base` — steps one after the other; `Run.le_depth` says that `base` braces stay open;
* `Counts` — the tokens between two states, with the braces among them counted exactly;
* `Keeps` — a parser that succeeds leaves as many braces open as it found, and one that fails
  leaves no fewer;
* `Settles` — besides, the count is that of the tokens, unless a token that ends all blocks
  has come.

The subtraction that `State.advance` makes at a closing brace stops at zero.  In a run it is
never made there, since a brace is open.
-/
import FrontEnd.Proofs.Parser.Crossing
import Mathlib.Logic.Relation

namespace FrontEnd.Parser

variable {α β : Type}

/-! ### Steps and runs -/

/-- One thing that a parser which started inside `base` braces does. -/
inductive Step (base : Nat) : State → State → Prop
  | consume {s : State} (hproper : s.current.kind ≠ .eof)
    (hclose : s.current.kind = .symbol .closeCurly → base < s.depth) : Step base s s.advance
  | note (s : State) (d : Diagnostic) :
    Step base s { s with diagnostics := s.diagnostics.push d }
  | breakOff (s : State) (t : Token) : Step base s { s with faults := s.faults ++ [t] }
  | comments (s : State) : Step base s s.commented
  | giveUp {s : State} {depth : Nat} (hends : s.current.kind.endsBlocks) (hbase : base ≤ depth)
    (hdepth : depth ≤ s.depth) : Step base s { s with depth }

/-- What a parser which started inside `base` braces does, step by step. -/
abbrev Run (base : Nat) : State → State → Prop := Relation.ReflTransGen (Step base)

/-- A token that is consumed with a brace open, if it closes one. -/
theorem nests?_of_open {s : State} {base : Nat} (hbase : base ≤ s.depth)
    (hclose : s.current.kind = .symbol .closeCurly → base < s.depth) :
    ∃ n, s.current.kind.nests? s.depth = some n ∧ base ≤ n := by
  unfold Kind.nests?
  split
  · exact ⟨s.depth + 1, rfl, by omega⟩
  · next hkind =>
    have hlt := hclose hkind
    cases hdepth : s.depth with
    | zero => omega
    | succ n => exact ⟨n, rfl, by omega⟩
  · exact ⟨s.depth, rfl, hbase⟩

/-- The braces that were open at the start stay open. -/
theorem Step.le_depth {base : Nat} {s s' : State} (h : Step base s s') (hbase : base ≤ s.depth) :
    base ≤ s'.depth := by
  cases h with
  | consume hproper hclose =>
    obtain ⟨n, hn, hle⟩ := nests?_of_open hbase hclose
    rw [depth_advance hproper hn]
    exact hle
  | note | breakOff | comments => exact hbase
  | giveUp hends hle => exact hle

theorem Run.le_depth {base : Nat} {s s' : State} (h : Run base s s') (hbase : base ≤ s.depth) :
    base ≤ s'.depth := by
  induction h with
  | refl => exact hbase
  | tail _ hstep ih => exact hstep.le_depth ih

/-- The number of open braces is never cut off at zero: a closing brace that is consumed lowers
it by one. -/
theorem Step.depth_closeCurly {base : Nat} {s s' : State} (h : Step base s s')
    (hclose : s.current.kind = .symbol .closeCurly) (hindex : s'.index ≠ s.index) :
    s'.depth + 1 = s.depth := by
  cases h with
  | consume hproper hopen =>
    have hlt := hopen hclose
    obtain ⟨n, hn⟩ : ∃ n, s.depth = n + 1 := ⟨s.depth - 1, by omega⟩
    rw [depth_advance hproper (n := n) (by rw [hclose, hn]; rfl), hn]
  | note | breakOff | comments | giveUp => exact absurd rfl hindex

/-- A step inside more braces is one inside fewer. -/
theorem Step.mono {base base' : Nat} {s s' : State} (h : Step base s s') (hle : base' ≤ base) :
    Step base' s s' := by
  cases h with
  | consume hproper hclose =>
    exact .consume hproper fun hkind => Nat.lt_of_le_of_lt hle (hclose hkind)
  | note d => exact .note s d
  | breakOff t => exact .breakOff s t
  | comments => exact .comments s
  | giveUp hends hbase hdepth => exact .giveUp hends (Nat.le_trans hle hbase) hdepth

theorem Run.mono {base base' : Nat} {s s' : State} (h : Run base s s') (hle : base' ≤ base) :
    Run base' s s' := Relation.ReflTransGen.mono (fun _ _ hstep => hstep.mono hle) _ _ h

/-- With no tokens between them, two states are the same. -/
theorem Reads.eq_of_nil {s s' : State} (h : Reads s [] s') : s' = s := by
  have hdepth := h.depth s.depth rfl
  have hrest := h.rest
  have hconsumed := h.consumed
  have htaken := h.commentsTaken
  have hback := h.restore h.faults.eq_of_nil
  obtain ⟨⟨consumed, rest, depth, taken⟩, eof, trivia, diagnostics, faults, hkind⟩ := s
  obtain ⟨⟨consumed', rest', depth', taken'⟩, eof', trivia', diagnostics', faults', hkind'⟩ := s'
  simp only [List.nil_append, List.reverse_nil] at hdepth hrest hconsumed htaken
  subst hdepth hrest hconsumed htaken
  exact hback

/-- What is left of a reading behind its first token, at which it may have broken off. -/
theorem Reads.behind {s s' : State} {t : Token} {ts : List Token} (h : Reads s (t :: ts) s')
    {m : Nat} (hm : t.kind.nests? s.depth = some m) :
    s.current = t ∧ s.advance.depth = m ∧ ∃ faults,
      (faults = s.advance.faults ∨ faults = s.advance.faults ++ [t]) ∧
        Reads { s.advance with faults } ts s' := by
  have hcurrent : s.current = t := current_of_rest h.rest
  have hproper : s.current.kind ≠ .eof := hcurrent ▸ h.proper t (by simp)
  have hfirst := reads_advance hproper
  have hdepth : s.advance.depth = m := depth_advance hproper (hcurrent ▸ hm)
  obtain ⟨faults, hwhich, hfaults⟩ := h.faults.behind
  rw [← faults_advance s] at hwhich
  refine ⟨hcurrent, hdepth, faults, hwhich, ⟨?_, ?_, ?_, ?_, ?_, hfaults⟩,
    fun n hn => h.depth n ?_, ?_, ?_⟩
  · have hrest := hfirst.rest
    rw [h.rest, hcurrent] at hrest
    exact (List.cons.inj hrest).2.symm
  · rw [h.consumed, hfirst.consumed, hcurrent]
    simp
  · exact fun u hu => h.proper u (List.mem_cons_of_mem t hu)
  · rw [h.eof, hfirst.eof]
  · rw [h.trivia, hfirst.trivia]
  · rw [nesting, hm, ← hdepth]
    exact hn
  · rw [h.commentsTaken, hfirst.commentsTaken]
  · rw [h.diagnostics, hfirst.diagnostics]

/-- Tokens that are only read, and close no brace but those they open and `j` others, are a
run inside the rest of the open braces. -/
theorem Reads.run {base j n : Nat} {s s' : State} {ts : List Token} (h : Reads s ts s')
    (hn : nesting j ts = some n) (hdepth : s.depth = base + j) : Run base s s' := by
  induction ts generalizing s j with
  | nil => rw [h.eq_of_nil]
  | cons t ts ih =>
    obtain ⟨m, hm, hn'⟩ := Option.bind_eq_some_iff.mp hn
    have hnests : t.kind.nests? s.depth = some (base + m) := by
      rw [hdepth]
      exact Kind.nests?_add hm base
    obtain ⟨hcurrent, hdepth', faults, hwhich, hrest⟩ := h.behind hnests
    have hconsume : Step base s s.advance := by
      refine .consume ?_ fun hclose => ?_
      · rw [hcurrent]
        exact h.proper t (by simp)
      · -- With none of the `j` braces open, a closing one would not be nested.
        rw [← hcurrent, hclose] at hm
        cases j with
        | zero => exact absurd hm (by simp [Kind.nests?])
        | succ j => omega
    have hbehind := ih hrest hn' hdepth'
    -- Breaking off at the token is a step of its own.
    rcases hwhich with rfl | rfl
    · exact .head hconsume hbehind
    · exact .head hconsume (.head (.breakOff s.advance t) hbehind)

/-! ### Braces counted exactly -/

/-- The tokens `ts` lie between the two states, `n` braces more are open behind them, and
these are the ones that the tokens open. -/
structure Counts (s : State) (ts : List Token) (n : Nat) (s' : State) : Prop
    extends Passes s ts s' where
  braces : nesting 0 ts = some n
  depth : s'.depth = s.depth + n

theorem Reads.counts {s s' : State} {ts : List Token} {n : Nat} (h : Reads s ts s')
    (hn : nesting 0 ts = some n) : Counts s ts n s' :=
  ⟨h.toPasses, hn, h.depth _ (nesting_add hn s.depth)⟩

theorem Counts.refl (s : State) : Counts s [] 0 s := ⟨.refl s, rfl, rfl⟩

theorem Counts.append {s s' s'' : State} {ts us : List Token} {n m : Nat}
    (h : Counts s ts n s') (h' : Counts s' us m s'') : Counts s (ts ++ us) (n + m) s'' where
  toPasses := h.toPasses.append h'.toPasses
  braces := by
    rw [nesting_append, h.braces]
    exact nesting_add h'.braces n
  depth := by
    rw [h'.depth, h.depth, Nat.add_assoc]

/-- Tokens that close some of the braces that were opened. -/
theorem Counts.append_reads {s s' s'' : State} {ts us : List Token} {n m : Nat}
    (h : Counts s ts n s') (h' : Reads s' us s'') (hm : nesting n us = some m) :
    Counts s (ts ++ us) m s'' where
  toPasses := h.toPasses.append h'.toPasses
  braces := by
    rw [nesting_append, h.braces]
    exact hm
  depth := by
    refine h'.depth _ ?_
    rw [h.depth]
    exact nesting_add hm s.depth

theorem Counts.note {s s' : State} {ts : List Token} {n : Nat} (h : Counts s ts n s')
    (d : Diagnostic) : Counts s ts n { s' with diagnostics := s'.diagnostics.push d } :=
  ⟨h.toPasses.aside, h.braces, h.depth⟩

theorem Counts.commented {s s' : State} {ts : List Token} {n : Nat} (h : Counts s ts n s') :
    Counts s ts n s'.commented :=
  ⟨h.toPasses.aside, h.braces, h.depth⟩

/-! ### Parsers that keep the number of open braces -/

/-- Run on `s`, the parser closes no brace that was open before, and closes all that it has
opened if it succeeds. -/
def Keeps (s : State) (p : Parser α) : Prop :=
  match p s with
  | .ok _ s' => Run s.depth s s' ∧ s'.depth = s.depth
  | .error _ s' => Run s.depth s s'

/-- Run on `s`, the parser keeps the number of open braces, and that is the number of those
that its tokens open, unless it succeeds before a token that ends all blocks. -/
def Settles (s : State) (p : Parser α) : Prop :=
  match p s with
  | .ok _ s' => Run s.depth s s' ∧ s'.depth = s.depth ∧
      ((∃ ts, Counts s ts 0 s') ∨ s'.current.kind.endsBlocks)
  | .error _ s' => Run s.depth s s' ∧ ∃ ts n, Counts s ts n s'

section

variable {s : State} {p : Parser α} {f : α → Parser β}
  {A : α → List Token → Prop}

theorem Keeps.of_ok (h : Keeps s p) {a : α} {s' : State} (hp : p s = .ok a s') :
    Run s.depth s s' ∧ s'.depth = s.depth := by
  unfold Keeps at h
  rwa [hp] at h

theorem Keeps.of_error (h : Keeps s p) {d : Diagnostic} {s' : State} (hp : p s = .error d s') :
    Run s.depth s s' := by
  unfold Keeps at h
  rwa [hp] at h

theorem keeps_ok {a : α} {s' : State} (hp : p s = .ok a s') (hrun : Run s.depth s s')
    (hdepth : s'.depth = s.depth) : Keeps s p := by
  unfold Keeps
  rw [hp]
  exact ⟨hrun, hdepth⟩

theorem keeps_error {d : Diagnostic} {s' : State} (hp : p s = .error d s')
    (hrun : Run s.depth s s') : Keeps s p := by
  unfold Keeps
  rw [hp]
  exact hrun

theorem Keeps.congr {q : Parser α} (h : p s = q s) (hq : Keeps s q) : Keeps s p := by
  unfold Keeps at hq ⊢
  rwa [h]

theorem Settles.of_ok (h : Settles s p) {a : α} {s' : State} (hp : p s = .ok a s') :
    Run s.depth s s' ∧ s'.depth = s.depth ∧
      ((∃ ts, Counts s ts 0 s') ∨ s'.current.kind.endsBlocks) := by
  unfold Settles at h
  rwa [hp] at h

theorem Settles.of_error (h : Settles s p) {d : Diagnostic} {s' : State}
    (hp : p s = .error d s') : Run s.depth s s' ∧ ∃ ts n, Counts s ts n s' := by
  unfold Settles at h
  rwa [hp] at h

theorem settles_ok {a : α} {s' : State} (hp : p s = .ok a s') (hrun : Run s.depth s s')
    (hdepth : s'.depth = s.depth)
    (hcount : (∃ ts, Counts s ts 0 s') ∨ s'.current.kind.endsBlocks) : Settles s p := by
  unfold Settles
  rw [hp]
  exact ⟨hrun, hdepth, hcount⟩

theorem settles_error {d : Diagnostic} {s' : State} {ts : List Token} {n : Nat}
    (hp : p s = .error d s') (hrun : Run s.depth s s') (hcount : Counts s ts n s') :
    Settles s p := by
  unfold Settles
  rw [hp]
  exact ⟨hrun, ts, n, hcount⟩

theorem Settles.congr {q : Parser α} (h : p s = q s) (hq : Settles s q) : Settles s p := by
  unfold Settles at hq ⊢
  rwa [h]

theorem Settles.keeps (h : Settles s p) : Keeps s p := by
  cases hrun : p s with
  | ok a s' => exact keeps_ok hrun (h.of_ok hrun).1 (h.of_ok hrun).2.1
  | error d s' => exact keeps_error hrun (h.of_error hrun).1

/-- A parser that only reads. -/
theorem Meets.settles (h : Meets [] s p A) : Settles s p := by
  cases hrun : p s with
  | ok a s' =>
    obtain ⟨ts, hread, hbal, -⟩ := h.of_ok hrun
    have hcount := hread.counts hbal
    exact settles_ok hrun (hread.run hbal rfl) hcount.depth (.inl ⟨ts, hcount⟩)
  | error d s' =>
    obtain ⟨ts, hread, ⟨n, hn⟩, -⟩ := h.of_error hrun
    exact settles_error hrun (hread.run hn rfl) (hread.counts hn)

/-- A parser after another that has succeeded and settled. -/
theorem settles_bind_of_ok {a : α} {s' : State} {ts : List Token} (hp : p s = .ok a s')
    (hfirst : Run s.depth s s') (hcount : Counts s ts 0 s') (hf : Settles s' (f a)) :
    Settles s (p >>= f) := by
  have hdepth : s'.depth = s.depth := hcount.depth
  cases hrun : f a s' with
  | ok b s'' =>
    obtain ⟨hthen, hdepth', hcount'⟩ := hf.of_ok hrun
    rw [hdepth] at hthen hdepth'
    refine settles_ok ((bind_of_ok hp).trans hrun) (hfirst.trans hthen) hdepth' ?_
    refine hcount'.imp_left ?_
    rintro ⟨us, hus⟩
    exact ⟨ts ++ us, hcount.append hus⟩
  | error d s'' =>
    obtain ⟨hthen, us, m, hus⟩ := hf.of_error hrun
    rw [hdepth] at hthen
    exact settles_error ((bind_of_ok hp).trans hrun) (hfirst.trans hthen) (hcount.append hus)

/-- A parser after one that only reads. -/
theorem Meets.settles_bind (h : Meets [] s p A) (hf : ∀ a s', Settles s' (f a)) :
    Settles s (p >>= f) := by
  cases hrun : p s with
  | error d s' =>
    obtain ⟨ts, hread, ⟨n, hn⟩, -⟩ := h.of_error hrun
    exact settles_error (bind_of_error hrun) (hread.run hn rfl) (hread.counts hn)
  | ok a s' =>
    obtain ⟨ts, hread, hbal, -⟩ := h.of_ok hrun
    exact settles_bind_of_ok hrun (hread.run hbal rfl) (hread.counts hbal) (hf a s')

/-- A parser after one that settles; it does nothing before a token that ends all blocks. -/
theorem Settles.bind (h : Settles s p) (hf : ∀ a s', Settles s' (f a))
    (hends : ∀ a s', s'.current.kind.endsBlocks → ∃ b, f a s' = .ok b s') :
    Settles s (p >>= f) := by
  cases hrun : p s with
  | error d s' =>
    obtain ⟨hfirst, ts, n, hcount⟩ := h.of_error hrun
    exact settles_error (bind_of_error hrun) hfirst hcount
  | ok a s' =>
    obtain ⟨hfirst, hdepth, hcount⟩ := h.of_ok hrun
    rcases hcount with ⟨ts, hcount⟩ | hstop
    · exact settles_bind_of_ok hrun hfirst hcount (hf a s')
    · obtain ⟨b, hb⟩ := hends a s' hstop
      exact settles_ok ((bind_of_ok hrun).trans hb) hfirst hdepth (.inr hstop)

theorem settles_pure (a : α) : Settles s (pure a) :=
  settles_ok rfl .refl rfl (.inl ⟨[], .refl s⟩)

theorem settles_unexpected (production : String) (expected : List Kind) :
    Settles s (unexpected production expected : Parser α) :=
  settles_error rfl .refl (.refl s)

theorem settles_kind {f : Kind → Parser β} (h : Settles s (f s.current.kind)) :
    Settles s (kind >>= f) := h

theorem settles_spanFrom_pure {start : Position} (g : Span → β) :
    Settles s (spanFrom start >>= fun span => pure (g span)) :=
  settles_pure (g (s.spanFrom start))

/-- A recursive call settles, or fails where it stands. -/
theorem settles_guarded {n : Nat} (h : s.rest.length < n → Settles s p) :
    Settles s (guarded n p) := by
  by_cases hlt : s.rest.length < n
  · exact Settles.congr (if_pos hlt) (h hlt)
  · exact settles_error (if_neg hlt) .refl (.refl s)

end

/-- Recursion.  A body may use that the parser it is given crosses tokens. -/
theorem settles_nest {body : Parser α → Parser α} {V : α → List Token → Prop}
    (hworks : ∀ s, Works true s (nest body) V)
    (hbody : ∀ self : Parser α, (∀ s, Works true s self V) → (∀ s, Settles s self) →
      ∀ s, Settles s (body self)) (s : State) : Settles s (nest body) := by
  induction hn : s.rest.length using Nat.strong_induction_on generalizing s with
  | _ n ih =>
    refine Settles.congr (nest_run body s) (hbody _ (fun s' => ?_) (fun s' => ?_) s)
    · exact works_guarded fun _ => hworks s'
    · exact settles_guarded fun hlt => ih _ (hn ▸ hlt) s' rfl

/-! ### The turns of a loop -/

/-- The loop that starts in one state comes to the other before one of its items, or behind
the last. -/
inductive Turns (wanted : Kind → Bool) (item : Parser α) : State → State → Prop
  | start (s : State) : Turns wanted item s s
  | next {s s' t : State} {a : α} (hwanted : wanted s.current.kind) (hitem : item s = .ok a s')
    (h : Turns wanted item s' t) : Turns wanted item s t

/-- What an item preserves is preserved by the loop. -/
theorem Turns.preserves {wanted : Kind → Bool} {item : Parser α} {I : State → Prop}
    (hitem : ∀ s a s', I s → wanted s.current.kind → item s = .ok a s' → I s') {s t : State}
    (h : Turns wanted item s t) (hs : I s) : I t := by
  induction h with
  | start => exact hs
  | next hwanted hrun _ ih => exact ih (hitem _ _ _ hs hwanted hrun)

/-- A loop that ends does so at a turn, before a token that it does not go on at. -/
theorem manyWhile_turns {wanted : Kind → Bool} {item : Parser α} {s s' : State} {as : List α}
    (h : manyWhile wanted item s = .ok as s') :
    Turns wanted item s s' ∧ wanted s'.current.kind = false := by
  induction hn : s.rest.length using Nat.strong_induction_on generalizing s as with
  | _ n ih =>
    rw [manyWhile_run] at h
    split at h
    · next hwanted =>
      obtain ⟨a, s₁, hitem, hmore⟩ := bind_eq_ok h
      obtain ⟨as', s₂, hguard, hpure⟩ := bind_eq_ok hmore
      obtain ⟨-, rfl⟩ := EStateM.Result.ok.inj hpure
      obtain ⟨hlt, hloop⟩ := guarded_eq_ok hguard
      obtain ⟨hturns, hstop⟩ := ih _ (hn ▸ hlt) hloop rfl
      exact ⟨.next hwanted hitem hturns, hstop⟩
    · next hwanted =>
      obtain ⟨-, rfl⟩ := EStateM.Result.ok.inj h
      exact ⟨.start s, by simpa using hwanted⟩

/-! ### Members in braces -/

section

variable {s : State} {p : Parser α} {f : α → Parser β}

/-- One parser after another. -/
theorem Keeps.bind (h : Keeps s p) (hf : ∀ a s', Keeps s' (f a)) : Keeps s (p >>= f) := by
  cases hrun : p s with
  | error d s' => exact keeps_error (bind_of_error hrun) (h.of_error hrun)
  | ok a s' =>
    obtain ⟨hfirst, hdepth⟩ := h.of_ok hrun
    have hrest := hf a s'
    cases hrun' : f a s' with
    | ok b s'' =>
      obtain ⟨hthen, hdepth'⟩ := hrest.of_ok hrun'
      rw [hdepth] at hthen hdepth'
      exact keeps_ok ((bind_of_ok hrun).trans hrun') (hfirst.trans hthen) hdepth'
    | error d s'' =>
      have hthen := hrest.of_error hrun'
      rw [hdepth] at hthen
      exact keeps_error ((bind_of_ok hrun).trans hrun') (hfirst.trans hthen)

theorem keeps_kind {f : Kind → Parser β} (h : Keeps s (f s.current.kind)) :
    Keeps s (kind >>= f) := h

theorem keeps_pure (a : α) : Keeps s (pure a) := (settles_pure a).keeps

theorem keeps_takeComments : Keeps s takeComments :=
  keeps_ok (takeComments_run s) (.single (.comments s)) rfl

theorem keeps_manyWhile {wanted : Kind → Bool} {item : Parser α} (hitem : ∀ s, Keeps s item)
    (s : State) : Keeps s (manyWhile wanted item) := by
  induction hn : s.rest.length using Nat.strong_induction_on generalizing s with
  | _ n ih =>
    refine Keeps.congr (manyWhile_run wanted item s) ?_
    split
    · refine (hitem s).bind fun a s' => ?_
      have hmore : Keeps s' (guarded s.rest.length (manyWhile wanted item)) := by
        by_cases hlt : s'.rest.length < s.rest.length
        · exact Keeps.congr (if_pos hlt) (ih _ (hn ▸ hlt) s' rfl)
        · exact keeps_error (if_neg hlt) .refl
      exact hmore.bind fun as s'' => keeps_pure _
    · exact keeps_pure _

/-- Something between braces.  What is made of it consumes the closing brace or fails. -/
theorem Keeps.braced {items : Parser α} {production : String} (hitems : ∀ s, Keeps s items)
    (hf : ∀ a s', (s'.current.kind = .symbol .closeCurly ∧ ∃ b, f a s' = .ok b s'.advance) ∨
      ∃ d, f a s' = .error d s') :
    Keeps s (expect (.symbol .openCurly) production >>= fun _ => items >>= f) := by
  by_cases hopen : s.current.kind = .symbol .openCurly
  · have hproper : s.current.kind ≠ .eof := by
      rw [hopen]
      simp
    have hbrace : expect (.symbol .openCurly) production s = .ok s.current s.advance := by
      rw [expect_run, if_pos hopen]
    have hdepth : s.advance.depth = s.depth + 1 := depth_advance hproper (by rw [hopen]; rfl)
    have hfirst : Run s.depth s s.advance := .single (.consume hproper (by simp [hopen]))
    cases hrun : items s.advance with
    | error d s' =>
      have hinside := (hitems s.advance).of_error hrun
      refine keeps_error (d := d) ?_ (hfirst.trans (hinside.mono (by omega)))
      rw [bind_of_ok hbrace, bind_of_error hrun]
    | ok a s' =>
      obtain ⟨hinside, hdepth'⟩ := (hitems s.advance).of_ok hrun
      have hsofar := hfirst.trans (hinside.mono (by omega))
      have hgo : (expect (.symbol .openCurly) production >>= fun _ => items >>= f) s = f a s' := by
        rw [bind_of_ok hbrace, bind_of_ok hrun]
      rcases hf a s' with ⟨hclose, b, hb⟩ | ⟨d, hd⟩
      · -- The brace that was opened is open here, and the only one.
        have hproper' : s'.current.kind ≠ .eof := by
          rw [hclose]
          simp
        refine keeps_ok (hgo.trans hb) (hsofar.tail (.consume hproper' fun _ => by omega)) ?_
        refine depth_advance hproper' ?_
        rw [hdepth', hdepth, hclose]
        rfl
      · exact keeps_error (hgo.trans hd) hsofar
  · exact keeps_error (bind_of_error (by rw [expect_run, if_neg hopen])) .refl

end

end FrontEnd.Parser
