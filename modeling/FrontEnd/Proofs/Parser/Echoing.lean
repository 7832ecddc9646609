/-
Runs that are repeated on other tokens of one template.

A run that reads without fault a stretch of tokens says which template the stretch is written
from: the places are those of the value that it gives.  A second run on anything that is written
from the template, and behind it from a settled one, gives the same value, but for places and
comments.

* `View` — what is compared of two values, and the places for marks in a value;
* `Echoes` — a parser and what repeats it: whatever the first reads the second reads from the same
  template;
* `Echoes.bind`, `echoes_manyWhile`, `echoes_fix` — the ways to put them together;
* `Echoes.ended` — behind an item there may be a mark, and nothing but it.

In the second run marks end where the token before them does, and there are no comments, so that
its value depends on the template only.  What has to stand behind a stretch is said by `next`, a
predicate on the template there: nothing (`Anywhere`), a token and no place (`Firm`), a token of
some kind (`Begins`).
-/
import FrontEnd.Proofs.Expr.Lookahead
import FrontEnd.Proofs.Grammar.Origins
import FrontEnd.Proofs.Parser.Template

namespace FrontEnd.Parser

variable {α β γ δ ε : Type}

/-! ### What is compared -/

/-- What is compared of two values, and the places for marks in a value. -/
structure View (α γ : Type) where
  shown : α → γ
  slots : α → List Slot

namespace View

/-- Everything is compared, and there are no places. -/
def same (α : Type) : View α α := ⟨id, fun _ => []⟩

/-- The members of a list. -/
def list (w : View α γ) : View (List α) (List γ) :=
  ⟨List.map w.shown, fun as => as.flatMap w.slots⟩

/-- A value that may be missing. -/
def option (w : View α γ) : View (Option α) (Option γ) :=
  ⟨Option.map w.shown, fun a => a.toList.flatMap w.slots⟩

end View

/-! ### What follows -/

/-- A token of one of the kinds is next. -/
def Begins (K : Kind → Prop) (cells : List Cell) : Prop :=
  ∃ t cells', cells = .token t :: cells' ∧ K t.kind

/-- No place is next. -/
def Firm (cells : List Cell) : Prop := ∀ s cells', cells ≠ .slot s :: cells'

/-- Anything may be next. -/
def Anywhere (_ : List Cell) : Prop := True

/-- Some token is next. -/
abbrev Moves : List Cell → Prop := Begins fun _ => True

/-- A token of one of the kinds is all that there is. -/
def Lone (K : Kind → Prop) (cells : List Cell) : Prop := ∃ t, cells = [.token t] ∧ K t.kind

/-- A token of one of the kinds is next, and no place right behind it. -/
def Headed (K : Kind → Prop) (cells : List Cell) : Prop :=
  ∃ t cells', cells = .token t :: cells' ∧ K t.kind ∧ Firm cells'

/-- A place that is next is one for the mark behind the value of a field. -/
def Calm (cells : List Cell) : Prop :=
  ∀ sl cells', cells = .slot sl :: cells' → sl.separator = .semicolon

section

variable {K L : Kind → Prop} {P : List Cell → Prop} {es fs : List Cell}

theorem Begins.mono (h : Begins K es) (hKL : ∀ k, K k → L k) : Begins L es := by
  obtain ⟨t, cells, rfl, ht⟩ := h
  exact ⟨t, cells, rfl, hKL _ ht⟩

theorem Begins.append (h : Begins K es) (fs : List Cell) : Begins K (es ++ fs) := by
  obtain ⟨t, cells, rfl, ht⟩ := h
  exact ⟨t, cells ++ fs, rfl, ht⟩

theorem Begins.firm (h : Begins K es) : Firm es := by
  obtain ⟨t, cells, rfl, -⟩ := h
  intro s cells' heq
  cases heq

theorem Begins.ne_nil (h : Begins K es) : es ≠ [] := by
  obtain ⟨t, cells, rfl, -⟩ := h
  simp

theorem firm_nil : Firm [] := fun _ _ heq => by cases heq

theorem Firm.append (hes : Firm es) (hfs : Firm fs) : Firm (es ++ fs) := by
  cases es with
  | nil => exact hfs
  | cons c es =>
    intro sl cells heq
    obtain ⟨rfl, -⟩ := List.cons.inj heq
    exact hes sl es rfl

theorem firm_of_anchored (hes : Anchored es) : Firm es := by
  cases hes with
  | nil => exact firm_nil
  | token | slot => exact fun _ _ heq => by cases heq

theorem Firm.calm (h : Firm es) : Calm es := fun sl cells heq => absurd heq (h sl cells)

theorem calm_append (hes : Firm es) (hfs : Calm fs) : Calm (es ++ fs) := by
  cases es with
  | nil => exact hfs
  | cons c es =>
    intro sl cells heq
    obtain ⟨rfl, -⟩ := List.cons.inj heq
    exact absurd rfl (hes sl es)

theorem Lone.begins (h : Lone K es) : Begins K es := by
  obtain ⟨t, rfl, ht⟩ := h
  exact ⟨t, [], rfl, ht⟩

theorem Lone.headed (h : Lone K es) (hfs : Firm fs) : Headed K (es ++ fs) := by
  obtain ⟨t, rfl, ht⟩ := h
  exact ⟨t, fs, rfl, ht, hfs⟩

theorem Lone.head (h : Lone K es) : Headed K es := by
  obtain ⟨t, rfl, ht⟩ := h
  exact ⟨t, [], rfl, ht, firm_nil⟩

theorem Headed.begins (h : Headed K es) : Begins K es := by
  obtain ⟨t, cells, rfl, ht, -⟩ := h
  exact ⟨t, cells, rfl, ht⟩

theorem Headed.mono (h : Headed K es) (hKL : ∀ k, K k → L k) : Headed L es := by
  obtain ⟨t, cells, rfl, ht, hcells⟩ := h
  exact ⟨t, cells, rfl, hKL _ ht, hcells⟩

theorem Headed.append (h : Headed K es) (hfs : Firm fs) : Headed K (es ++ fs) := by
  obtain ⟨t, cells, rfl, ht, hcells⟩ := h
  exact ⟨t, cells ++ fs, rfl, ht, hcells.append hfs⟩

/-- What stands behind a token does not matter. -/
theorem firm_of_begins (es fs : List Cell) (_ : Anchored es) (h : Begins K es) (_ : P fs) :
    Firm (es ++ fs) := (h.append fs).firm

theorem calm_of_begins (es fs : List Cell) (_ : Anchored es) (h : Begins K es) (_ : P fs) :
    Calm (es ++ fs) := (h.append fs).firm.calm

theorem begins_of_begins (es fs : List Cell) (_ : Anchored es) (h : Begins K es) (_ : P fs) :
    Begins K (es ++ fs) := h.append fs

theorem firm_of_headed (es fs : List Cell) (_ : Anchored es) (h : Headed K es) (_ : P fs) :
    Firm (es ++ fs) := (h.begins.append fs).firm

theorem calm_of_calm (es fs : List Cell) (hes : Anchored es) (_ : P es) (hfs : Calm fs) :
    Calm (es ++ fs) := calm_append (firm_of_anchored hes) hfs

end

/-! ### A second run -/

/-- The second state stands before what is written from the template, the token before which ends
at `p`, as deep in braces as the first one. -/
structure Standing (s : State) (p : Position) (cells : List Cell) (u : State) : Prop where
  rest : Written True p cells u.rest
  previousEnd : u.previousEnd = p
  depth : u.depth = s.depth
  eof : u.eof = s.eof
  trivia : u.trivia = []
  clean : u.Clean

namespace Standing

variable {s u : State} {p : Position} {cells : List Cell} {t : Token}

theorem current_eq (h : Standing s p cells u) (hs : Written False p cells s.rest)
    (hfirm : Firm cells) : u.current = s.current := by
  have hu := h.rest
  cases cells with
  | nil => rw [current_eq_headD, current_eq_headD, h.eof, hs.eq_nil, hu.eq_nil]
  | cons c cells =>
    cases c with
    | token t => exact hu.current.trans hs.current.symm
    | slot sl => exact absurd rfl (hfirm sl cells)

/-- A kind that no token has where a mark may stand is the next one in both states or neither. -/
theorem kind_iff (h : Standing s p cells u) (hs : Written False p cells s.rest)
    (hcells : Settled cells) {k : Kind} (hk : k ∉ seams) :
    s.current.kind = k ↔ u.current.kind = k := by
  rw [State.kind_current, State.kind_current]
  exact hcells.headKind_eq_iff hk hs h.rest

/-- Behind a token that both consume. -/
theorem advance (h : Standing s p (.token t :: cells) u) (hs : s.current = t)
    (ht : t.kind ≠ .eof) : Standing s.advance t.span.stop cells u.advance := by
  obtain ⟨us, hus, -⟩ := h.rest.eq_cons
  have hread := reads_of_rest hus ht
  obtain ⟨ss, hss⟩ := rest_of_current (s := s) (by rwa [hs])
  refine ⟨h.rest.advance ht, ?_, ?_, ?_, ?_, ?_⟩
  · rw [State.previousEnd, hread.consumed]
    rfl
  · rw [State.advance, State.advance, hus, hss, hs, h.depth]
    simp only [ht, if_false]
  · rw [hread.eof, h.eof, (passes_advance (s := s) (by rwa [hs])).eof]
  · rw [hread.trivia, h.trivia]
  · rw [State.Clean, hread.diagnostics]
    exact h.clean

/-- Behind a token of the template, which both states are at. -/
theorem behind (h : Standing s p (.token t :: cells) u) (hs : Written False p (.token t :: cells) s.rest)
    (ht : t.kind ≠ .eof) : Written False t.span.stop cells s.advance.rest ∧
      Standing s.advance t.span.stop cells u.advance :=
  ⟨hs.advance ht, h.advance hs.current ht⟩

/-- The token behind the next one is the same where no place is between them. -/
theorem peek_eq (h : Standing s p (.token t :: cells) u)
    (hs : Written False p (.token t :: cells) s.rest) (ht : t.kind ≠ .eof) (hcells : Firm cells) :
    u.peek 1 = s.peek 1 := by
  obtain ⟨hs', hu'⟩ := h.behind hs ht
  rw [← current_advance (h.rest.current ▸ ht), ← current_advance (hs.current ▸ ht),
    hu'.current_eq hs' hcells]

/-- Where a place may be next, what does not tell the tokens that may stand there from each other
comes to the same in both states. -/
theorem same_of_calm {f : Kind → α} (h : Standing s p cells u) (hs : Written False p cells s.rest)
    (hcalm : Calm cells) (hcells : Settled cells)
    (hsame : ∀ k ∈ Separator.semicolon.heads, f k = f .eof) :
    f u.current.kind = f s.current.kind := by
  cases cells with
  | nil => rw [h.current_eq hs firm_nil]
  | cons c cells =>
    cases c with
    | token t => rw [h.current_eq hs fun _ _ heq => by cases heq]
    | slot sl =>
      have hsemicolon := hcalm sl cells rfl
      have hend : ∀ {tidy : Prop} {w : State}, Written tidy p (.slot sl :: cells) w.rest →
          f w.current.kind = f .eof := fun hw =>
        hsame _ (State.kind_current _ ▸ hsemicolon ▸ hcells.headKind_mem hw)
      rw [hend h.rest, hend hs]

end Standing

/-- What the second run does, given the template that the first one has read: nothing depends on
what is written from it. -/
structure Repeats (next : List Cell → Prop) (s s' : State) (p : Position) (cells : List Cell)
    (q : Parser α) (b : α) : Prop where
  settled : ∀ {fs}, Settled fs → next fs → Settled (cells ++ fs)
  run : ∀ {fs u}, Settled fs → next fs → Written False (ending p cells) fs s'.rest →
    Standing s p (cells ++ fs) u → ∃ u', q u = .ok b u' ∧ Standing s' (ending p cells) fs u' ∧
      u'.rest.length ≤ u.rest.length ∧ (cells ≠ [] → u'.rest.length < u.rest.length)

/-- Two stretches that are repeated one after the other are repeated by `r`, if this does what one
does and then the other. -/
theorem Repeats.append {next next' : List Cell → Prop} {s s₁ s' : State} {p : Position}
    {es es' : List Cell} {ts : List Token} {q : Parser α} {q' : Parser β} {r : Parser γ} {a : α}
    {b : β} {c : γ} (h : Repeats next' s s₁ p es q a)
    (h' : Repeats next s₁ s' (ending p es) es' q' b) (hpass : Passes s₁ ts s')
    (hwritten : Written False (ending p es) es' ts) (hnext : ∀ fs, next fs → next' (es' ++ fs))
    (hrun : ∀ {fs u u₁ u'}, Written False (ending p es) (es' ++ fs) s₁.rest →
      Standing s p (es ++ (es' ++ fs)) u → q u = .ok a u₁ →
      (es ≠ [] → u₁.rest.length < u.rest.length) → q' u₁ = .ok b u' → r u = .ok c u') :
    Repeats next s s' p (es ++ es') r c where
  settled hfs hn := by
    rw [List.append_assoc]
    exact h.settled (h'.settled hfs hn) (hnext _ hn)
  run {fs u} hfs hn hrest hu := by
    rw [ending_append] at hrest ⊢
    rw [List.append_assoc] at hu
    have hrest' : Written False (ending p es) (es' ++ fs) s₁.rest := by
      rw [hpass.rest]
      exact hwritten.append hrest
    obtain ⟨u₁, hfirst, hu₁, hle, hlt⟩ := h.run (h'.settled hfs hn) (hnext _ hn) hrest' hu
    obtain ⟨u', hsecond, hu', hle', hlt'⟩ := h'.run hfs hn hrest hu₁
    refine ⟨u', hrun hrest' hu hfirst hlt hsecond, hu', Nat.le_trans hle' hle, fun hne => ?_⟩
    by_cases hes : es = []
    · exact Nat.lt_of_lt_of_le (hlt' (by simpa [hes] using hne)) hle
    · exact Nat.lt_of_le_of_lt hle' (hlt hes)

/-- Whatever `q` reads from `s` on without fault has been read from a template of the given shape,
whose places are, with those of `seen`, the places of the value; and `q'` repeats it wherever
`next` holds behind it. -/
def Echoes (next shape : List Cell → Prop) (w : View α γ) (seen : List Slot) (s : State)
    (q q' : Parser α) : Prop :=
  ∀ a s', q s = .ok a s' → s'.Clean → s.Clean ∧ ((∃ T, s.InPlace T) → ∀ p, ∃ cells ts b,
    Passes s ts s' ∧ Written False p cells ts ∧ Anchored cells ∧ shape cells ∧
    w.shown a = w.shown b ∧ (∀ x, x ∈ seen ++ slotsOf cells ↔ x ∈ w.slots a) ∧
    Repeats next s s' p cells q' b)

section

variable {next next' shape shape' : List Cell → Prop} {w : View α γ} {v : View β δ}
  {seen : List Slot} {s s' u : State} {q q' r r' : Parser α} {f f' : α → Parser β}

theorem Echoes.mono (h : Echoes next shape w seen s q q') (hnext : ∀ fs, next' fs → next fs)
    (hshape : ∀ es, shape es → shape' es) : Echoes next' shape' w seen s q q' := by
  intro a s' hrun hclean
  obtain ⟨hs, hecho⟩ := h a s' hrun hclean
  refine ⟨hs, fun hT p => ?_⟩
  obtain ⟨cells, ts, b, hpass, hwritten, hanchored, hcells, hb, hslots, hrepeats⟩ := hecho hT p
  exact ⟨cells, ts, b, hpass, hwritten, hanchored, hshape _ hcells, hb, hslots,
    fun hfs hn => hrepeats.settled hfs (hnext _ hn), fun hfs hn => hrepeats.run hfs (hnext _ hn)⟩

/-- A value in which there are no places. -/
theorem Echoes.blank (h : Echoes next shape (.same α) [] s q q')
    (hw : ∀ a s', q s = .ok a s' → w.slots a = []) : Echoes next shape w [] s q q' := by
  intro a s' hrun hclean
  obtain ⟨hs, hecho⟩ := h a s' hrun hclean
  refine ⟨hs, fun hT p => ?_⟩
  obtain ⟨cells, ts, b, hpass, hwritten, hanchored, hcells, hb, hslots, hrepeats⟩ := hecho hT p
  refine ⟨cells, ts, b, hpass, hwritten, hanchored, hcells, congrArg w.shown hb, fun x => ?_,
    hrepeats⟩
  rw [hw a s' hrun]
  exact hslots x

/-- A parser that does the same, unless it fails or records something. -/
theorem Echoes.of_ok (h : Echoes next shape w seen s r r')
    (hq : ∀ a s', q s = .ok a s' → s'.Clean → r s = .ok a s')
    (hq' : ∀ u a u', r' u = .ok a u' → q' u = .ok a u') : Echoes next shape w seen s q q' := by
  intro a s' hrun hclean
  obtain ⟨hs, hecho⟩ := h a s' (hq a s' hrun hclean) hclean
  refine ⟨hs, fun hT p => ?_⟩
  obtain ⟨cells, ts, b, hpass, hwritten, hanchored, hcells, hb, hslots, hrepeats⟩ := hecho hT p
  refine ⟨cells, ts, b, hpass, hwritten, hanchored, hcells, hb, hslots, hrepeats.settled,
    fun hfs hn hrest hu => ?_⟩
  obtain ⟨u', hrun', hu', hle, hlt⟩ := hrepeats.run hfs hn hrest hu
  exact ⟨u', hq' _ b u' hrun', hu', hle, hlt⟩

theorem echoes_of_fails (h : ∀ a s', q s ≠ .ok a s') : Echoes next shape w seen s q q' :=
  fun a s' hrun => absurd hrun (h a s')

theorem echoes_throw {d : Diagnostic} : Echoes next shape w seen s (throw d) q' :=
  echoes_of_fails fun _ _ => nofun

theorem echoes_unexpected {production : String} {expected : List Kind} :
    Echoes next shape w seen s (unexpected production expected) q' :=
  echoes_of_fails fun _ _ => nofun

/-- Nothing is read. -/
theorem echoes_pure {a b : α} (hshape : shape []) (hb : w.shown a = w.shown b)
    (hslots : ∀ x, x ∈ seen ↔ x ∈ w.slots a) :
    Echoes next shape w seen s (pure a) (pure b) := by
  rintro a s' hrun hclean
  obtain ⟨rfl, rfl⟩ := EStateM.Result.ok.inj hrun
  refine ⟨hclean, fun _ p => ⟨[], [], b, .refl s, .nil, .nil, hshape, hb, by simpa [slotsOf] using hslots,
    fun hfs _ => hfs, fun _ _ _ hu => ⟨_, rfl, hu, Nat.le_refl _, fun h => absurd rfl h⟩⟩⟩

theorem echoes_return {a b : α} (hb : w.shown a = w.shown b)
    (hslots : ∀ x, x ∈ seen ↔ x ∈ w.slots a) :
    Echoes next Anywhere w seen s (pure a) (pure b) := echoes_pure trivial hb hslots

/-- One after the other: what the second one reads has to be fit to stand behind the first. -/
theorem Echoes.bind_seen {next₁ shape₁ : List Cell → Prop} {seen₁ : List Slot}
    (hq : Echoes next₁ shape₁ w seen₁ s q q')
    (hf : ∀ a b s₁, q s = .ok a s₁ → w.shown a = w.shown b →
      Echoes next shape' v (seen ++ w.slots a) s₁ (f a) (f' b))
    (hnext : ∀ es fs, Anchored es → shape' es → next fs → next₁ (es ++ fs))
    (hshape : ∀ es es', Anchored es' → shape₁ es → shape' es' → shape (es ++ es')) :
    Echoes next shape v (seen ++ seen₁) s (q >>= f) (q' >>= f') := by
  intro c s'' hrun hclean
  obtain ⟨a, s', hfirst, hsecond⟩ := bind_eq_ok hrun
  have hclean' := (hf a a s' hfirst rfl c s'' hsecond hclean).1
  obtain ⟨hs, hecho⟩ := hq a s' hfirst hclean'
  refine ⟨hs, fun hT p => ?_⟩
  obtain ⟨es, ts, b, hpass, hwritten, hanchored, hes, hb, hslots, hrepeats⟩ := hecho hT p
  obtain ⟨-, hecho'⟩ := hf a b s' hfirst hb c s'' hsecond hclean
  have hT' : ∃ T, s'.InPlace T := hT.imp fun T h => h.passes hpass
  obtain ⟨es', ts', d, hpass', hwritten', hanchored', hes', hd, hslots', hrepeats'⟩ :=
    hecho' hT' (ending p es)
  refine ⟨es ++ es', ts ++ ts', d, hpass.append hpass', hwritten.append hwritten',
    hanchored.append hanchored', hshape _ _ hanchored' hes hes', hd, fun x => ?_,
    hrepeats.append hrepeats' hpass' hwritten' (fun fs => hnext _ fs hanchored' hes')
      fun _ _ hrun' _ hrun'' => (bind_of_ok hrun').trans hrun''⟩
  have hx := hslots x
  have hx' := hslots' x
  simp only [slotsOf_append, List.mem_append] at hx hx' ⊢
  rw [← hx', ← hx]
  simp only [or_assoc]

theorem Echoes.bind {next₁ shape₁ : List Cell → Prop} (hq : Echoes next₁ shape₁ w [] s q q')
    (hf : ∀ a b s₁, q s = .ok a s₁ → w.shown a = w.shown b →
      Echoes next shape' v (seen ++ w.slots a) s₁ (f a) (f' b))
    (hnext : ∀ es fs, Anchored es → shape' es → next fs → next₁ (es ++ fs))
    (hshape : ∀ es es', Anchored es' → shape₁ es → shape' es' → shape (es ++ es')) :
    Echoes next shape v seen s (q >>= f) (q' >>= f') := by
  have hboth := hq.bind_seen hf hnext hshape
  rwa [List.append_nil] at hboth

/-- The same if the first one gives the same value twice. -/
theorem Echoes.bind_same {next₁ shape₁ : List Cell → Prop}
    (hq : Echoes next₁ shape₁ (.same α) [] s q q')
    (hf : ∀ a s₁, q s = .ok a s₁ → Echoes next shape' v seen s₁ (f a) (f' a))
    (hnext : ∀ es fs, Anchored es → shape' es → next fs → next₁ (es ++ fs))
    (hshape : ∀ es es', Anchored es' → shape₁ es → shape' es' → shape (es ++ es')) :
    Echoes next shape v seen s (q >>= f) (q' >>= f') := by
  refine hq.bind (fun a b s₁ hrun hb => ?_) hnext hshape
  obtain rfl : a = b := hb
  rw [show (View.same α).slots a = [] from rfl, List.append_nil]
  exact hf a s₁ hrun

/-- Behind a token anything may stand. -/
theorem Echoes.then {K : Kind → Prop} (hq : Echoes Anywhere (Lone K) (.same α) [] s q q')
    (hf : ∀ a s₁, q s = .ok a s₁ → Echoes next shape' v seen s₁ (f a) (f' a)) :
    Echoes next (Begins K) v seen s (q >>= f) (q' >>= f') :=
  hq.bind_same hf (fun _ _ _ _ _ => trivial) fun _ _ _ h _ => h.begins.append _

/-- A token with no place right behind it. -/
theorem Echoes.behind {K : Kind → Prop} (hq : Echoes Anywhere (Lone K) (.same α) [] s q q')
    (hf : ∀ a s₁, q s = .ok a s₁ → Echoes next shape' v seen s₁ (f a) (f' a)) :
    Echoes next (Headed K) v seen s (q >>= f) (q' >>= f') :=
  hq.bind_same hf (fun _ _ _ _ _ => trivial) fun _ _ h hes _ => hes.headed (firm_of_anchored h)

/-- What is read first decides how the whole starts. -/
theorem Echoes.lead {K : Kind → Prop} {next₁ : List Cell → Prop}
    (hq : Echoes next₁ (Headed K) w [] s q q')
    (hf : ∀ a b s₁, q s = .ok a s₁ → w.shown a = w.shown b →
      Echoes next shape' v (seen ++ w.slots a) s₁ (f a) (f' b))
    (hnext : ∀ es fs, Anchored es → shape' es → next fs → next₁ (es ++ fs)) :
    Echoes next (Headed K) v seen s (q >>= f) (q' >>= f') :=
  hq.bind hf hnext fun _ _ h hes _ => hes.append (firm_of_anchored h)

/-- The same where it does not matter how the whole starts. -/
theorem Echoes.go {next₁ shape₁ : List Cell → Prop} (hq : Echoes next₁ shape₁ w [] s q q')
    (hf : ∀ a b s₁, q s = .ok a s₁ → w.shown a = w.shown b →
      Echoes next shape' v (seen ++ w.slots a) s₁ (f a) (f' b))
    (hnext : ∀ es fs, Anchored es → shape' es → next fs → next₁ (es ++ fs)) :
    Echoes next Anywhere v seen s (q >>= f) (q' >>= f') :=
  hq.bind hf hnext fun _ _ _ _ _ => trivial

/-- The same where nothing may have been read. -/
theorem Echoes.and (hq : Echoes Anywhere shape' (.same α) [] s q q')
    (hf : ∀ a s₁, q s = .ok a s₁ → Echoes next shape v seen s₁ (f a) (f' a)) :
    Echoes next Anywhere v seen s (q >>= f) (q' >>= f') :=
  hq.bind_same hf (fun _ _ _ _ _ => trivial) fun _ _ _ _ _ => trivial

/-- Behind it nothing is read. -/
theorem Echoes.rest {shape₁ : List Cell → Prop} (hq : Echoes next shape₁ w [] s q q')
    (hf : ∀ a b s₁, q s = .ok a s₁ → w.shown a = w.shown b →
      Echoes next (· = []) v (seen ++ w.slots a) s₁ (f a) (f' b)) :
    Echoes next shape₁ v seen s (q >>= f) (q' >>= f') := by
  refine hq.bind hf ?_ ?_
  · rintro _ fs - rfl hn
    exact hn
  · rintro es _ - hes rfl
    rwa [List.append_nil]

theorem Echoes.map {g : α → β} (hq : Echoes next shape w [] s q q')
    (hg : ∀ a b, w.shown a = w.shown b → v.shown (g a) = v.shown (g b))
    (hslots : ∀ a, v.slots (g a) = w.slots a) :
    Echoes next shape v [] s (g <$> q) (g <$> q') := by
  have hmap : ∀ r : Parser α, g <$> r = r >>= fun a => pure (g a) := fun r =>
    funext fun u => map_run g r u
  rw [hmap, hmap]
  have hpure : ∀ a b s₁, q s = .ok a s₁ → w.shown a = w.shown b →
      Echoes next (fun es => es = []) v ([] ++ w.slots a) s₁ (pure (g a)) (pure (g b)) :=
    fun a b s₁ _ hb => echoes_pure rfl (hg a b hb) fun x => by rw [hslots, List.nil_append]
  exact hq.rest hpure

/-! ### Looking at the state -/

/-- A look at what is next, where the second run is sure to go on in the same way. -/
theorem echoes_seen {a : α} (hq : q s = .ok a s)
    (hq' : ∀ es fs u p, Anchored es → shape es → next fs → Settled (es ++ fs) →
      Written False p (es ++ fs) s.rest → Standing s p (es ++ fs) u →
      ∃ b, q' u = .ok b u ∧ f' b = f' a)
    (hf : Echoes next shape v seen s (f a) (f' a)) :
    Echoes next shape v seen s (q >>= f) (q' >>= f') := by
  intro c s' hrun hclean
  rw [bind_of_ok hq] at hrun
  obtain ⟨hs, hecho⟩ := hf c s' hrun hclean
  refine ⟨hs, fun hT p => ?_⟩
  obtain ⟨es, ts, b, hpass, hwritten, hanchored, hes, hb, hslots, hrepeats⟩ := hecho hT p
  refine ⟨es, ts, b, hpass, hwritten, hanchored, hes, hb, hslots, hrepeats.settled,
    fun {fs u} hfs hn hrest hu => ?_⟩
  have hall : Written False p (es ++ fs) s.rest := by
    rw [hpass.rest]
    exact hwritten.append hrest
  obtain ⟨b', hlook, hsame⟩ := hq' es fs u p hanchored hes hn (hrepeats.settled hfs hn) hall hu
  rw [bind_of_ok hlook, hsame]
  exact hrepeats.run hfs hn hrest hu

/-- The next token is the same where no place is next. -/
theorem echoes_kind {f f' : Kind → Parser β}
    (hfirm : ∀ es fs, Anchored es → shape es → next fs → Firm (es ++ fs))
    (hf : Echoes next shape v seen s (f s.current.kind) (f' s.current.kind)) :
    Echoes next shape v seen s (kind >>= f) (kind >>= f') :=
  echoes_seen rfl (fun es fs _ _ hes hshape hn _ hs hu =>
    ⟨_, rfl, by rw [hu.current_eq hs (hfirm es fs hes hshape hn)]⟩) hf

theorem echoes_position {f f' : Position → Parser β}
    (hfirm : ∀ es fs, Anchored es → shape es → next fs → Firm (es ++ fs))
    (hf : Echoes next shape v seen s (f s.position) (f' s.position)) :
    Echoes next shape v seen s (position >>= f) (position >>= f') :=
  echoes_seen (a := s.position) rfl (fun es fs _ _ hes hshape hn _ hs hu => ⟨_, rfl, by
    rw [State.position, State.position, hu.current_eq hs (hfirm es fs hes hshape hn)]⟩) hf

/-- Where a place may be next, none of the tokens that may stand there has to be told from the
end. -/
theorem echoes_kind_calm {f f' : Kind → Parser β} (hcalm : ∀ fs, next fs → Calm fs)
    (hsame : ∀ k ∈ Separator.semicolon.heads, f' k = f' .eof)
    (hf : Echoes next shape v seen s (f s.current.kind) (f' s.current.kind)) :
    Echoes next shape v seen s (kind >>= f) (kind >>= f') :=
  echoes_seen rfl (fun _ fs _ _ hes _ hn hcells hs hu =>
    ⟨_, rfl, hu.same_of_calm hs (calm_append (firm_of_anchored hes) (hcalm fs hn)) hcells hsame⟩) hf

/-- The token behind the next one is the same where no place is right behind the next one. -/
theorem echoes_peekKind {f f' : Kind → Parser β}
    (hfirm : ∀ es fs, shape es → next fs → Headed (· ≠ .eof) (es ++ fs))
    (hf : Echoes next shape v seen s (f (s.peek 1).kind) (f' (s.peek 1).kind)) :
    Echoes next shape v seen s (peekKind 1 >>= f) (peekKind 1 >>= f') := by
  refine echoes_seen rfl (fun es fs u p hes hshape hn _ hs hu => ⟨_, rfl, ?_⟩) hf
  obtain ⟨t, cells, heq, ht, hcells⟩ := hfirm es fs hshape hn
  rw [heq] at hs hu
  rw [hu.peek_eq hs ht hcells]

/-- The same where a place may be right behind a name. -/
theorem echoes_peekKind_calm {f f' : Kind → Parser β} (hcalm : ∀ fs, next fs → Calm fs)
    (hshape : ∀ es, shape es → Headed (· = .identifier) es)
    (hsame : ∀ k ∈ Separator.semicolon.heads, f' k = f' .eof)
    (hf : Echoes next shape v seen s (f (s.peek 1).kind) (f' (s.peek 1).kind)) :
    Echoes next shape v seen s (peekKind 1 >>= f) (peekKind 1 >>= f') := by
  refine echoes_seen rfl (fun es fs u p _ hes hn hcells hs hu => ⟨_, rfl, ?_⟩) hf
  obtain ⟨t, cells, rfl, ht, hfirm⟩ := hshape es hes
  have hproper : t.kind ≠ .eof := by simp [ht]
  rw [List.cons_append] at hcells hs hu
  obtain ⟨hs', hu'⟩ := hu.behind hs hproper
  have hpeek : ∀ {w : State} {tidy : Prop}, Written tidy p (.token t :: (cells ++ fs)) w.rest →
      w.peek 1 = w.advance.current :=
    fun hw => (current_advance (hw.current ▸ hproper)).symm
  rw [hpeek hu.rest, hpeek hs]
  exact hu'.same_of_calm hs' (calm_append hfirm (hcalm fs hn)) (hcells.token_inv (by simp [ht])) hsame

/-- A decision by a kind that no token has where a mark may stand. -/
theorem echoes_test {k : Kind} {r r' : Parser β} {q q' : Parser β} (hk : k ∉ seams)
    (hthen : s.current.kind = k → Echoes next shape v seen s q q')
    (helse : s.current.kind ≠ k → Echoes next shape v seen s r r') :
    Echoes next shape v seen s (kind >>= fun k' => if k' = k then q else r)
      (kind >>= fun k' => if k' = k then q' else r') := by
  have hgo : ∀ {q r : Parser β}, (kind >>= fun k' => if k' = k then q else r) =
      ((fun u => .ok (decide (u.current.kind = k)) u : Parser Bool) >>= fun same =>
        if same then q else r) := by
    intro q r
    funext u
    rw [kind_bind_run]
    show _ = (if decide (u.current.kind = k) = true then q else r) u
    simp
  rw [hgo, hgo]
  refine echoes_seen rfl (fun es fs u p _ _ _ hcells hs hu => ⟨_, rfl, ?_⟩) ?_
  · simp only [hu.kind_iff hs hcells hk]
  · by_cases hkind : s.current.kind = k
    · simpa [hkind] using hthen hkind
    · simpa [hkind] using helse hkind

/-- The span up to the last token is that of the template. -/
theorem echoes_spanFrom {f f' : Span → Parser β} (start start' : Position)
    (hf : ∀ span span', Echoes next shape v seen s (f span) (f' span')) :
    Echoes next shape v seen s (spanFrom start >>= f) (spanFrom start' >>= f') := by
  intro c s' hrun hclean
  refine ⟨(hf (s.spanFrom start) (s.spanFrom start) c s' hrun hclean).1, fun hT p => ?_⟩
  obtain ⟨-, hecho⟩ := hf (s.spanFrom start)
    (if p.offset < start'.offset then Span.empty start' else ⟨start', p⟩) c s' hrun hclean
  obtain ⟨es, ts, b, hpass, hwritten, hanchored, hes, hb, hslots, hrepeats⟩ := hecho hT p
  refine ⟨es, ts, b, hpass, hwritten, hanchored, hes, hb, hslots, hrepeats.settled,
    fun {fs u} hfs hn hrest hu => ?_⟩
  have hspan : (spanFrom start' >>= f') u = f' (u.spanFrom start') u := rfl
  rw [hspan, State.spanFrom, hu.previousEnd]
  exact hrepeats.run hfs hn hrest hu

/-! ### Single tokens -/

/-- A token of one of the kinds is consumed, whatever follows if an angle bracket is none.  The
runs may break off at it. -/
theorem echoes_token {K : Kind → Prop} (hK : ∀ k, K k → k ≠ .eof)
    (hsettled : ∀ t fs, K t.kind → Settled fs → next fs → Settled (.token t :: fs))
    (hq : ∀ a s', q s = .ok a s' → K s.current.kind ∧
      (∃ faults, s' = { s.advance with faults } ∧ Faults s.faults [s.current] faults) ∧
      ∀ u : State, u.current = s.current → ∃ faults, q' u = .ok a { u.advance with faults }) :
    Echoes next (Lone K) (.same α) [] s q q' := by
  intro a s' hrun hclean
  obtain ⟨hkind, ⟨faults, rfl, hfaults⟩, hrepeat⟩ := hq a s' hrun
  have hproper := hK _ hkind
  have hread := reads_advance hproper
  have hpass : Passes s [s.current] { s.advance with faults } :=
    ⟨hread.rest, hread.consumed, hread.proper, hread.eof, hread.trivia, hfaults⟩
  refine ⟨?_, fun _ p => ⟨[.token s.current], [s.current], a, hpass, .token .nil,
    .token .nil, ⟨_, rfl, hkind⟩, rfl, fun _ => Iff.rfl, fun hfs hn => hsettled _ _ hkind hfs hn,
    fun {fs u} _ _ _ hu => ?_⟩⟩
  · rw [State.Clean, ← hread.diagnostics]
    exact hclean
  · have hcurrent := hu.rest.current
    have hlt := length_rest_advance (s := u) (by rwa [hcurrent])
    obtain ⟨faults', hrun'⟩ := hrepeat u hcurrent
    have hbehind := hu.advance rfl hproper
    exact ⟨_, hrun', ⟨hbehind.rest, hbehind.previousEnd, hbehind.depth, hbehind.eof,
      hbehind.trivia, hbehind.clean⟩, Nat.le_of_lt hlt, fun _ => hlt⟩

theorem settled_token {t : Token} {fs : List Cell} {k : Kind} (hk : k ≠ .symbol .less)
    (ht : t.kind = k) (hfs : Settled fs) : Settled (.token t :: fs) := .token (ht ▸ hk) hfs

theorem echoes_expect {k : Kind} (hk : k ≠ .eof ∧ k ≠ .symbol .less) (production : String) :
    Echoes next (Lone (· = k)) (.same Token) [] s (expect k production) (expect k production) := by
  refine echoes_token (fun _ h => h ▸ hk.1) (fun _ _ ht hfs _ => settled_token hk.2 ht hfs) ?_
  intro t s' hrun
  obtain ⟨hkind, rfl, rfl⟩ := expect_eq_ok hrun
  refine ⟨hkind, ⟨_, rfl, .of_eq (faults_advance s)⟩, fun u hu => ⟨u.advance.faults, ?_⟩⟩
  rw [expect_run, if_pos (hu ▸ hkind), hu]

theorem echoes_advance {k : Kind} (hk : k ≠ .eof ∧ k ≠ .symbol .less) (hkind : s.current.kind = k) :
    Echoes next (Lone (· = k)) (.same Token) [] s advance advance := by
  refine echoes_token (fun _ h => h ▸ hk.1) (fun _ _ ht hfs _ => settled_token hk.2 ht hfs) ?_
  intro t s' hrun
  obtain ⟨rfl, rfl⟩ := EStateM.Result.ok.inj hrun
  refine ⟨hkind, ⟨_, rfl, .of_eq (faults_advance s)⟩, fun u hu => ⟨u.advance.faults, ?_⟩⟩
  rw [← hu]
  rfl

/-- A mark, if it is next, that can be missing in other places only. -/
theorem echoes_skip? {k : Kind} (hk : k ∉ seams) (hless : k ≠ .symbol .less) :
    Echoes next Anywhere (.same Bool) [] s (skip? k) (skip? k) := by
  have hpure : ∀ (found : Bool) (u : State),
      Echoes next Anywhere (.same Bool) [] u (pure found) (pure found) :=
    fun _ _ => echoes_pure trivial rfl fun _ => Iff.rfl
  refine echoes_test hk (fun hkind => ?_) fun _ => hpure false s
  have hproper : k ≠ .eof := by
    rintro rfl
    exact hk (Separator.mem_seams (s := .comma) List.mem_cons_self)
  exact (echoes_advance ⟨hproper, hless⟩ hkind).and fun _ u _ => hpure true u

/-- Something behind a mark, if the mark is next, and what comes after it. -/
theorem echoes_skipThen {next₁ shape₁ : List Cell → Prop} {k : Kind} {f f' : Option α → Parser β}
    (hk : k ∉ seams) (hless : k ≠ .symbol .less) (hq : ∀ s, Echoes next₁ shape₁ w [] s q q')
    (hf : ∀ a b s₁, w.option.shown a = w.option.shown b →
      Echoes next shape' v (seen ++ w.option.slots a) s₁ (f a) (f' b))
    (hnext : ∀ es fs, Anchored es → shape' es → next fs → next₁ (es ++ fs)) :
    Echoes next Anywhere v seen s
      (skip? k >>= fun found => if found then (some <$> q) >>= f else pure none >>= f)
      (skip? k >>= fun found => if found then (some <$> q') >>= f' else pure none >>= f') := by
  refine (echoes_skip? hk hless).and fun found s₁ _ => (?_ : Echoes _ Anywhere _ _ _ _ _)
  cases found with
  | false =>
    have hnone := hf none none s₁ rfl
    rw [show w.option.slots none = [] from rfl, List.append_nil] at hnone
    exact hnone.mono (fun _ h => h) fun _ _ => trivial
  | true =>
    have hsome : Echoes next₁ shape₁ w.option [] s₁ (some <$> q) (some <$> q') :=
      (hq s₁).map (fun _ _ h => congrArg some h) fun _ => by simp [View.option]
    exact hsome.go (fun a b s₂ _ hab => hf a b s₂ hab) hnext

/-! ### What reads nothing -/

/-- A step that consumes nothing in both runs. -/
theorem echoes_still {a b : α} {s₁ : State} (hq : q s = .ok a s₁) (hpass : Passes s [] s₁)
    (hclean : s₁.Clean → s.Clean)
    (hq' : ∀ p cells u, Standing s p cells u →
      ∃ u', q' u = .ok b u' ∧ Standing s₁ p cells u' ∧ u'.rest = u.rest)
    (hf : Echoes next shape v seen s₁ (f a) (f' b)) :
    Echoes next shape v seen s (q >>= f) (q' >>= f') := by
  intro c s' hrun hend
  rw [bind_of_ok hq] at hrun
  obtain ⟨hs₁, hecho⟩ := hf c s' hrun hend
  refine ⟨hclean hs₁, fun hT p => ?_⟩
  obtain ⟨es, ts, d, hpass', hwritten, hanchored, hes, hd, hslots, hrepeats⟩ :=
    hecho (hT.imp fun T h => h.passes hpass) p
  refine ⟨es, ts, d, hpass.append hpass', hwritten, hanchored, hes, hd, hslots, hrepeats.settled,
    fun {fs u} hfs hn hrest hu => ?_⟩
  obtain ⟨u₁, hrun₁, hu₁, hsame⟩ := hq' p _ u hu
  rw [bind_of_ok hrun₁, ← hsame]
  exact hrepeats.run hfs hn hrest hu₁

/-- There are no comments in the second run. -/
theorem echoes_takeComments {f f' : List Comment → Parser β}
    (hf : Echoes next shape v seen s.commented (f s.comments) (f' [])) :
    Echoes next shape v seen s (takeComments >>= f) (takeComments >>= f') := by
  refine echoes_still (takeComments_run s) (Passes.refl s).aside id ?_ hf
  intro p cells u hu
  have hnone : u.comments = [] := by
    rw [State.comments, hu.trivia]
    rfl
  exact ⟨u.commented, hnone ▸ takeComments_run u,
    ⟨hu.rest, hu.previousEnd, hu.depth, hu.eof, hu.trivia, hu.clean⟩, rfl⟩

theorem echoes_setDepth {f f' : Unit → Parser β} (depth : Nat)
    (hf : Echoes next shape v seen { s with depth } (f ()) (f' ())) :
    Echoes next shape v seen s (setDepth depth >>= f) (setDepth depth >>= f') :=
  echoes_still rfl (Passes.refl s).aside id (fun _ _ u hu =>
    ⟨{ u with depth }, rfl, ⟨hu.rest, hu.previousEnd, rfl, hu.eof, hu.trivia, hu.clean⟩, rfl⟩) hf

/-! ### Recursion and repetition -/

/-- A recursive call is repeated by one without a guard. -/
theorem Echoes.guarded {n : Nat} (h : s.rest.length < n → Echoes next shape w seen s q q') :
    Echoes next shape w seen s (guarded n q) q' := by
  intro a s' hrun hclean
  obtain ⟨hlt, hrun⟩ := guarded_eq_ok hrun
  exact h hlt a s' hrun hclean

/-- A recursive parser is repeated by one that is its own body. -/
theorem echoes_fix (I : δ → δ → Prop) (seen : δ → List Slot) {again : δ → Parser α}
    {body : (δ → Parser α) → δ → Parser α} (body' : (δ → Parser α) → δ → Parser α)
    (hagain : ∀ d, again d = body' again d)
    (hbody : ∀ self : δ → Parser α,
      (∀ d d', I d d' → ∀ s, Echoes next shape w (seen d) s (self d) (again d')) →
      ∀ d d', I d d' → ∀ s, Echoes next shape w (seen d) s (body self d) (body' again d'))
    {d d' : δ} (hd : I d d') (s : State) :
    Echoes next shape w (seen d) s (fix body d) (again d') := by
  induction hn : s.rest.length using Nat.strong_induction_on generalizing d d' s with
  | _ n ih =>
    have hself : ∀ d d', I d d' → ∀ u,
        Echoes next shape w (seen d) u (Parser.guarded s.rest.length (fix body d)) (again d') :=
      fun d d' hd u => .guarded fun hlt => ih _ (hn ▸ hlt) hd u rfl
    exact (hbody _ hself d d' hd s).of_ok (fun _ _ h _ => (fix_run body d s).symm.trans h)
      fun u _ _ h => (congrFun (hagain d') u).trans h

/-- A repetition ends where no place is next.  Between its items stands what can stand behind an
item. -/
theorem echoes_manyWhile {wanted : Kind → Bool} {item item' : Parser α}
    {nextItem : List Cell → Prop} {K : Kind → Prop}
    (hitem : ∀ s : State, wanted s.current.kind → Echoes nextItem (Begins K) w [] s item item')
    (hnext : ∀ fs, next fs → Firm fs ∧ nextItem fs)
    (hmore : ∀ fs, Begins K fs → nextItem fs) (s : State) :
    Echoes next (fun es => es = [] ∨ Begins K es) w.list [] s (manyWhile wanted item)
      (manyWhile wanted item') := by
  induction hn : s.rest.length using Nat.strong_induction_on generalizing s with
  | _ n ih =>
    intro as s' hrun hclean
    rcases manyWhile_eq_ok hrun with ⟨hwanted, rfl, rfl⟩ |
      ⟨hwanted, a, s₁, as, rfl, hfirst, hlt, hothers⟩
    · refine ⟨hclean, fun _ p => ⟨[], [], [], .refl s', .nil, .nil, .inl rfl, rfl,
        fun _ => Iff.rfl, fun hfs _ => hfs, fun {fs u} hfs hn hrest hu => ?_⟩⟩
      have hcurrent := hu.current_eq hrest (hnext _ hn).1
      exact ⟨u, manyWhile_of_not (hcurrent ▸ hwanted) item', hu, Nat.le_refl _,
        fun h => absurd rfl h⟩
    · obtain ⟨hclean₁, hecho'⟩ := ih _ (hn ▸ hlt) s₁ rfl as s' hothers hclean
      obtain ⟨hs, hecho⟩ := hitem s hwanted a s₁ hfirst hclean₁
      refine ⟨hs, fun hT p => ?_⟩
      obtain ⟨es, ts, b, hpass, hwritten, hanchored, hes, hb, hslots, hrepeats⟩ := hecho hT p
      obtain ⟨es', ts', bs, hpass', hwritten', hanchored', hes', hbs, hslots', hrepeats'⟩ :=
        hecho' (hT.imp fun T h => h.passes hpass) (ending p es)
      -- What stands behind the first item is either another one or what stands behind them all.
      have hbehind : ∀ fs, next fs → nextItem (es' ++ fs) := by
        intro fs hn
        rcases hes' with rfl | hopens
        · exact (hnext fs hn).2
        · exact hmore _ (hopens.append fs)
      refine ⟨es ++ es', ts ++ ts', b :: bs, hpass.append hpass', hwritten.append hwritten',
        hanchored.append hanchored', .inr (hes.append es'), congrArg₂ List.cons hb hbs,
        fun x => ?_, hrepeats.append hrepeats' hpass' hwritten' hbehind
          fun {fs u u₁ u'} hrest' hu hrun₁ hlt₁ hrun' => ?_⟩
      · have hx := hslots x
        have hx' := hslots' x
        simp only [slotsOf_append, List.mem_append, List.nil_append, View.list,
          List.flatMap_cons] at hx hx' ⊢
        rw [hx, hx']
      · -- The second run goes on where the first one does: the items start with the same token.
        have hall : Written False p (es ++ (es' ++ fs)) s.rest := by
          rw [hpass.rest]
          exact hwritten.append hrest'
        have hwanted' : wanted u.current.kind := by
          rwa [hu.current_eq hall (hes.append _).firm]
        exact manyWhile_cons hwanted' hrun₁ (hlt₁ hes.ne_nil) hrun'

end

/-! ### Marks that may be left out -/

/-- Consumes a mark of the sort, if one is next. -/
def dropMark (sep : Separator) : Parser Unit := fun s =>
  .ok () (if s.current.kind ∈ sep.kinds then s.advance else s)

/-- What `q` reads, with the mark behind it if there is one. -/
def ended (sep : Separator) (q : Parser α) : Parser α := do
  let a ← q
  dropMark sep
  return a

/-- It does not matter whether there was a mark. -/
theorem skip?_ended {k : Kind} (sep : Separator) (hk : sep.kinds = [k]) (q : Parser α)
    (f : α → Parser β) : (q >>= fun a => skip? k >>= fun _ => f a) = ended sep q >>= f := by
  have hdrop : ∀ r : Parser β, (skip? k >>= fun _ => r) = (dropMark sep >>= fun _ => r) := by
    intro r
    funext u
    rw [bind_run, skip?_run, bind_run, dropMark, hk]
    simp only [List.mem_singleton]
    split <;> rfl
  simp only [hdrop, ended, bind_assoc, pure_bind]

/-- A value that has a place for a mark behind it. -/
def View.ended (w : View α γ) (sep : Separator) (place : α → Nat) : View α γ :=
  ⟨w.shown, fun a => ⟨sep, place a⟩ :: w.slots a⟩

theorem ne_eof_of_mark {sep : Separator} {k : Kind} (h : k ∈ sep.kinds) : k ≠ .eof := by
  have hall : ∀ sep : Separator, ∀ k ∈ sep.kinds, k ≠ .eof := by
    intro sep
    cases sep <;> decide
  exact hall sep k h

theorem depth_advance_of_mark {sep : Separator} {s : State} (h : s.current.kind ∈ sep.kinds) :
    s.advance.depth = s.depth := by
  have hbraces : ∀ sep : Separator, ∀ k ∈ sep.kinds,
      k ≠ .symbol .openCurly ∧ k ≠ .symbol .closeCurly := by
    intro sep
    cases sep <;> decide
  obtain ⟨hopen, hclose⟩ := hbraces sep _ h
  refine depth_advance (ne_eof_of_mark h) ?_
  unfold Kind.nests?
  split
  · next hk => exact absurd hk hopen
  · next hk => exact absurd hk hclose
  · rfl

theorem not_mem_kinds_of_follower {sep : Separator} {k : Kind} (h : k ∈ sep.followers) :
    k ∉ sep.kinds := by
  have hall : ∀ sep : Separator, ∀ k ∈ sep.followers, k ∉ sep.kinds := by
    intro sep
    cases sep <;> decide
  exact hall sep k h

/-- The state behind the mark of the sort, if one is next. -/
def State.pastMark (sep : Separator) (s : State) : State :=
  if s.current.kind ∈ sep.kinds then s.advance else s

theorem State.depth_pastMark (sep : Separator) (s : State) : (s.pastMark sep).depth = s.depth := by
  unfold State.pastMark
  split
  · next hmark => exact depth_advance_of_mark hmark
  · rfl

/-- What is skipped is the mark, or nothing: both can be written for a place. -/
theorem State.reads_pastMark (sep : Separator) (s : State) :
    ∃ ms, Reads s ms (s.pastMark sep) ∧
      ∀ p place, Written False p [.slot ⟨sep, place⟩] ms := by
  unfold State.pastMark
  split
  · next hmark =>
    exact ⟨_, reads_advance (ne_eof_of_mark hmark), fun p place => .mark hmark False.elim .nil⟩
  · exact ⟨[], .refl s, fun p place => .empty .nil⟩

/-- Both runs skip the mark that is written for them, if one is, and no more. -/
theorem Standing.pastMark {s u : State} {p : Position} {sep : Separator} {place : Nat} {t : Token}
    {fs : List Cell} (h : Standing s p (.slot ⟨sep, place⟩ :: .token t :: fs) u)
    (ht : t.kind ∈ sep.followers) :
    Standing (s.pastMark sep) p (.token t :: fs) (u.pastMark sep) ∧
      (u.pastMark sep).rest.length ≤ u.rest.length := by
  obtain ⟨ms, hread, -⟩ := s.reads_pastMark sep
  have hdepth := (u.depth_pastMark sep).trans (h.depth.trans (s.depth_pastMark sep).symm)
  have hmarked := h.rest
  generalize hus : u.rest = us at hmarked
  cases hmarked with
  | empty hrest =>
    obtain ⟨us, rfl, -⟩ := hrest.eq_cons
    have hnot : u.current.kind ∉ sep.kinds := by
      rw [current_of_rest hus]
      exact not_mem_kinds_of_follower ht
    rw [show u.pastMark sep = u from if_neg hnot] at hdepth ⊢
    exact ⟨⟨hus ▸ hrest, h.previousEnd, hdepth, h.eof.trans hread.eof.symm, h.trivia, h.clean⟩,
      Nat.le_of_eq (congrArg List.length hus)⟩
  | @mark _ _ m _ us hm hstop hrest =>
    have hmark : u.current.kind ∈ sep.kinds := by rwa [current_of_rest hus]
    have hproper := ne_eof_of_mark hmark
    have hread' := reads_of_rest hus (current_of_rest hus ▸ hproper)
    have hprevious : u.advance.previousEnd = m.span.stop := by
      rw [State.previousEnd, hread'.consumed]
      rfl
    rw [show u.pastMark sep = u.advance from if_pos hmark] at hdepth ⊢
    have hlt := length_rest_advance hproper
    rw [hus] at hlt
    refine ⟨⟨rest_advance hus (current_of_rest hus ▸ hproper) ▸ hrest, hprevious.trans (hstop trivial),
      hdepth, (hread'.eof.trans h.eof).trans hread.eof.symm, hread'.trivia.trans h.trivia, ?_⟩,
      Nat.le_of_lt hlt⟩
    rw [State.Clean, hread'.diagnostics]
    exact h.clean

/-- What can have a place for a mark behind it ends with a token. -/
theorem exists_last_token {es : List Cell} {sl : Slot} (hne : es ≠ [])
    (hsettled : Settled (es ++ [.slot sl])) : ∃ before t, es = before ++ [.token t] := by
  obtain ⟨before, c, rfl⟩ := (List.eq_nil_or_concat es).resolve_left hne
  rw [List.concat_eq_append] at hsettled ⊢
  cases c with
  | token t => exact ⟨before, t, rfl⟩
  | slot sl' =>
    rw [List.append_assoc] at hsettled
    obtain ⟨t, heq, -⟩ := hsettled.next_of_slot rfl _ rfl
    cases heq

/-- Behind an item that can be followed by a place for a mark there is one, if the item ends
where its value says. -/
theorem Echoes.ended {K : Kind → Prop} {nextItem : List Cell → Prop} {w : View α γ} {s : State}
    {q q' : Parser α} {sep : Separator} {place : α → Nat}
    (hq : Echoes nextItem (Begins K) w [] s q q')
    (hslot : ∀ sl fs, sl.separator = sep → nextItem (.slot sl :: fs))
    (hplace : ∀ a s₁ t, (∃ T, s.InPlace T) → q s = .ok a s₁ → s₁.consumed.head? = some t →
      place a = t.span.stop.offset ∧ sep.Admits t.kind) :
    Echoes (Begins (· ∈ sep.followers)) (Begins K) (w.ended sep place) [] s (Parser.ended sep q)
      (Parser.ended sep q') := by
  intro a s' hrun hclean
  obtain ⟨a, s₁, hfirst, hrun⟩ := bind_eq_ok hrun
  obtain ⟨rfl, rfl⟩ := EStateM.Result.ok.inj hrun
  change (s₁.pastMark sep).Clean at hclean
  obtain ⟨ms, hread, hms⟩ := s₁.reads_pastMark sep
  obtain ⟨hs, hecho⟩ := hq a s₁ hfirst (by rwa [State.Clean, ← hread.diagnostics])
  refine ⟨hs, fun hT p => ?_⟩
  obtain ⟨es, ts, b, hpass, hwritten, hanchored, hes, hb, hslots, hrepeats⟩ := hecho hT p
  have hend : Settled [.slot ⟨sep, 0⟩] := .slot (by simp) .nil
  obtain ⟨before, t, rfl⟩ := exists_last_token hes.ne_nil (hrepeats.settled hend (hslot _ _ rfl))
  obtain ⟨vs, ws, rfl, -, hws⟩ := hwritten.exists_append
  obtain ⟨none, rfl, hnone⟩ := hws.eq_cons
  obtain rfl := hnone.eq_nil
  have hlast : s₁.consumed.head? = some t := by
    rw [hpass.consumed]
    simp
  obtain ⟨hstop, hkind⟩ := hplace a s₁ t hT hfirst hlast
  have hstep : before ++ [.token t, .slot ⟨sep, place a⟩] =
      (before ++ [.token t]) ++ [.slot ⟨sep, place a⟩] := by simp
  refine ⟨before ++ [.token t, .slot ⟨sep, place a⟩], vs ++ [t] ++ ms, b,
    hpass.append hread.toPasses, ?_, hanchored.concat hstop hkind, ?_, hb, fun x => ?_, ⟨?_, ?_⟩⟩
  · rw [hstep]
    exact hwritten.append (hms _ _)
  · rw [hstep]
    exact hes.append _
  · have hx := hslots x
    rw [hstep, slotsOf_append]
    simp only [View.ended, List.mem_append, List.nil_append, slotsOf, List.mem_cons,
      List.not_mem_nil, or_false] at hx ⊢
    rw [hx, or_comm]
  · intro fs hfs hn
    obtain ⟨t', fs, rfl, ht'⟩ := hn
    rw [hstep, List.append_assoc]
    exact hrepeats.settled (.slot (by simpa using ht') hfs) (hslot _ _ rfl)
  · rintro fs u hfs ⟨t', fs, rfl, ht'⟩ hrest hu
    have hending : ending p (before ++ [.token t, .slot ⟨sep, place a⟩]) =
        ending p (before ++ [.token t]) := by
      rw [hstep, ending_append]
      rfl
    rw [hending] at hrest ⊢
    rw [hstep, List.append_assoc] at hu
    have hrest₁ : Written False (ending p (before ++ [.token t]))
        ([.slot ⟨sep, place a⟩] ++ .token t' :: fs) s₁.rest := by
      rw [hread.rest]
      exact (hms _ _).append hrest
    obtain ⟨u₁, hrun₁, hu₁, hle, hlt⟩ := hrepeats.run (.slot (by simpa using ht') hfs)
      (hslot _ _ rfl) hrest₁ hu
    obtain ⟨hu', hle'⟩ := hu₁.pastMark ht'
    exact ⟨u₁.pastMark sep, bind_of_ok hrun₁, hu', Nat.le_trans hle' hle,
      fun _ => Nat.lt_of_le_of_lt hle' (hlt (by simp))⟩

end FrontEnd.Parser
