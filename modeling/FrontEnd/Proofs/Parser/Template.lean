/-
Tokens with places for marks between them.

A template is a list of cells: tokens, and places where a mark of some sort may stand.  A list of
tokens is written from it if every token of the template stands in it and every place is either
empty or holds one mark of its sort.  All these lists say the same to the parser if the template
is settled.

* `Written` — the lists of tokens that a template stands for; in a tidy one a mark ends where the
  token before it does, so that marks can be seen in no span;
* `Anchored` — every place stands right behind the token that it is about;
* `Settled` — what stands behind a place shows that nothing is missing there, and an angle bracket
  is told apart, as an operator or as the start of a generic argument, by the tokens of the
  template alone;
* `Settled.head_cases` — what the parser can see of the next token.
-/
import FrontEnd.Proofs.Grammar.Types
import FrontEnd.Proofs.Tree.Slots

namespace FrontEnd

namespace Separator

/-- The kinds of tokens that stand behind what may end with a mark of the sort. -/
def followers : Separator → List Kind
  | comma => [.identifier, .symbol .closeParen, .keyword .fnKw, .symbol .closeCurly]
  | semicolon => [.identifier, .symbol .closeCurly]
  | bar => [.number, .symbol .fatArrow]
  | path => [.identifier, .symbol .semicolon]

/-- The kinds of the next token where a mark of the sort may stand. -/
def heads (s : Separator) : List Kind := .eof :: (s.kinds ++ s.followers)

/-- A token of the given kind can stand right before a mark of the sort. -/
def Admits : Separator → Kind → Prop
  | bar, k => k = .number
  | path, k => k = .identifier
  | _, _ => True

end Separator

/-- The kinds of the next token wherever a mark may be left out. -/
def seams : List Kind :=
  [Separator.comma, .semicolon, .bar, .path].flatMap Separator.heads

theorem Separator.mem_seams {s : Separator} {k : Kind} (h : k ∈ s.heads) : k ∈ seams :=
  List.mem_flatMap.mpr ⟨s, by cases s <;> simp, h⟩

/-- A token, or a place for a mark. -/
inductive Cell where
  | token (t : Token)
  | slot (s : Slot)

/-- The places in a template. -/
def slotsOf : List Cell → List Slot
  | [] => []
  | .token _ :: cells => slotsOf cells
  | .slot s :: cells => s :: slotsOf cells

/-- Where the last token of a template ends, the one before it ending at `p`. -/
def ending (p : Position) : List Cell → Position
  | [] => p
  | .token t :: cells => ending t.span.stop cells
  | .slot _ :: cells => ending p cells

@[simp] theorem slotsOf_append (es fs : List Cell) : slotsOf (es ++ fs) = slotsOf es ++ slotsOf fs := by
  induction es with
  | nil => rfl
  | cons c es ih => cases c <;> simp [slotsOf, ih]

@[simp] theorem slotsOf_tokens (ts : List Token) : slotsOf (ts.map .token) = [] := by
  induction ts with
  | nil => rfl
  | cons t ts ih => exact ih

theorem ending_append (p : Position) (es fs : List Cell) :
    ending p (es ++ fs) = ending (ending p es) fs := by
  induction es generalizing p with
  | nil => rfl
  | cons c es ih => cases c <;> exact ih _

/-! ### What is written from a template -/

/-- The tokens are those of the template, with a mark at some of the places.  In a tidy list a
mark ends where the token before it does; the token before the template ends at `p`. -/
inductive Written (tidy : Prop) : Position → List Cell → List Token → Prop
  | nil {p : Position} : Written tidy p [] []
  | token {p : Position} {t : Token} {cells : List Cell} {ts : List Token}
    (h : Written tidy t.span.stop cells ts) : Written tidy p (.token t :: cells) (t :: ts)
  | empty {p : Position} {s : Slot} {cells : List Cell} {ts : List Token}
    (h : Written tidy p cells ts) : Written tidy p (.slot s :: cells) ts
  | mark {p : Position} {s : Slot} {m : Token} {cells : List Cell} {ts : List Token}
    (hm : m.kind ∈ s.separator.kinds) (hstop : tidy → m.span.stop = p)
    (h : Written tidy p cells ts) : Written tidy p (.slot s :: cells) (m :: ts)

namespace Written

variable {tidy : Prop} {p q : Position} {es fs cells : List Cell} {t : Token} {ts us : List Token}

theorem append (h : Written tidy p es ts) (h' : Written tidy (ending p es) fs us) :
    Written tidy p (es ++ fs) (ts ++ us) := by
  induction h with
  | nil => exact h'
  | token _ ih => exact .token (ih h')
  | empty _ ih => exact .empty (ih h')
  | mark hm hstop _ ih => exact .mark hm hstop (ih h')

theorem exists_append (h : Written tidy p (es ++ fs) ts) : ∃ vs ws, ts = vs ++ ws ∧
    Written tidy p es vs ∧ Written tidy (ending p es) fs ws := by
  induction es generalizing p ts with
  | nil => exact ⟨[], ts, rfl, .nil, h⟩
  | cons c es ih =>
    cases h with
    | token h =>
      obtain ⟨vs, ws, rfl, hvs, hws⟩ := ih h
      exact ⟨_ :: vs, ws, rfl, .token hvs, hws⟩
    | empty h =>
      obtain ⟨vs, ws, rfl, hvs, hws⟩ := ih h
      exact ⟨vs, ws, rfl, .empty hvs, hws⟩
    | mark hm hstop h =>
      obtain ⟨vs, ws, rfl, hvs, hws⟩ := ih h
      exact ⟨_ :: vs, ws, rfl, .mark hm hstop hvs, hws⟩

theorem eq_cons (h : Written tidy p (.token t :: cells) ts) :
    ∃ us, ts = t :: us ∧ Written tidy t.span.stop cells us := by
  cases h with
  | token h => exact ⟨_, rfl, h⟩

theorem eq_nil (h : Written tidy p [] ts) : ts = [] := by
  cases h
  rfl

/-- Where marks may end anywhere, it does not matter where the template starts. -/
theorem loose (h : Written tidy p cells ts) : Written False q cells ts := by
  induction h generalizing q with
  | nil => exact .nil
  | token _ ih => exact .token ih
  | empty _ ih => exact .empty ih
  | mark hm _ _ ih => exact .mark hm False.elim ih

/-- Tokens without places between them. -/
theorem tokens (ts : List Token) : Written tidy p (ts.map .token) ts := by
  induction ts generalizing p with
  | nil => exact .nil
  | cons t ts ih => exact .token ih

theorem of_tokens (h : Written tidy p (ts.map .token ++ cells) us) :
    ∃ vs, us = ts ++ vs ∧ Written tidy (ending p (ts.map .token)) cells vs := by
  induction ts generalizing p us with
  | nil => exact ⟨us, rfl, h⟩
  | cons t ts ih =>
    rw [List.map_cons, List.cons_append] at h
    obtain ⟨us, rfl, hus⟩ := h.eq_cons
    obtain ⟨vs, rfl, hvs⟩ := ih hus
    exact ⟨vs, rfl, hvs⟩

end Written

/-! ### Where places stand -/

/-- The template starts with a token, if it is not empty, and every place stands right behind a
token, where that one ends. -/
inductive Anchored : List Cell → Prop
  | nil : Anchored []
  | token {t : Token} {cells : List Cell} (h : Anchored cells) : Anchored (.token t :: cells)
  | slot {t : Token} {s : Slot} {cells : List Cell} (hplace : s.place = t.span.stop.offset)
    (hkind : s.separator.Admits t.kind) (h : Anchored cells) :
    Anchored (.token t :: .slot s :: cells)

namespace Anchored

variable {es fs : List Cell}

theorem append (h : Anchored es) (h' : Anchored fs) : Anchored (es ++ fs) := by
  induction h with
  | nil => exact h'
  | token _ ih => exact .token ih
  | slot hplace hkind _ ih => exact .slot hplace hkind ih

theorem tokens (ts : List Token) : Anchored (ts.map .token) := by
  induction ts with
  | nil => exact .nil
  | cons t ts ih => exact .token ih

theorem exists_cons (h : Anchored es) (hne : es ≠ []) : ∃ t cells, es = .token t :: cells := by
  cases h with
  | nil => exact absurd rfl hne
  | token h => exact ⟨_, _, rfl⟩
  | slot hplace hkind h => exact ⟨_, _, rfl⟩

/-- A place can be put behind a last token. -/
theorem concat {t : Token} {s : Slot} (h : Anchored (es ++ [.token t]))
    (hplace : s.place = t.span.stop.offset) (hkind : s.separator.Admits t.kind) :
    Anchored (es ++ [.token t, .slot s]) := by
  generalize hcells : es ++ [Cell.token t] = cells at h
  induction h generalizing es with
  | nil => simp at hcells
  | @token u cells h ih =>
    cases es with
    | nil => exact .slot hplace hkind .nil
    | cons c es =>
      obtain ⟨rfl, hrest⟩ := List.cons.inj hcells
      exact .token (ih hrest)
  | @slot u s' cells hplace' hkind' h ih =>
    match es with
    | [] => simp at hcells
    | [c] => simp at hcells
    | c :: c' :: es =>
      simp only [List.cons_append, List.cons.injEq] at hcells
      obtain ⟨rfl, rfl, hrest⟩ := hcells
      exact .slot hplace' hkind' (ih hrest)

end Anchored

/-! ### Settled templates -/

/-- Every place is followed by a token that shows that nothing is missing.  Every angle bracket
opens a generic argument that is closed in the template, or stands before an operand. -/
inductive Settled : List Cell → Prop
  | nil : Settled []
  | token {t : Token} {cells : List Cell} (ht : t.kind ≠ .symbol .less) (h : Settled cells) :
    Settled (.token t :: cells)
  | slot {s : Slot} {cells : List Cell}
    (hnext : ∀ c ∈ cells.head?, ∃ t, c = .token t ∧ t.kind ∈ s.separator.followers)
    (h : Settled cells) : Settled (.slot s :: cells)
  | operator {o t : Token} {cells : List Cell} (ho : o.kind = .symbol .less)
    (ht : (Grammar.standard.primary? t.kind).isSome) (h : Settled (.token t :: cells)) :
    Settled (.token o :: .token t :: cells)
  | clause {type : TypeExpr} {ts : List Token} {cells : List Cell} (htype : GenericClause type ts)
    (h : Settled cells) : Settled (ts.map .token ++ cells)

/-- A type leaves a template settled. -/
theorem TypeExpr.SpelledBy.settled {type : TypeExpr} {ts : List Token} (h : type.SpelledBy ts)
    {cells : List Cell} (hcells : Settled cells) : Settled (ts.map .token ++ cells) := by
  induction h generalizing cells with
  | primitive ht | string ht => exact .token (by simp [ht]) hcells
  | named name => exact .token (by simp [Identifier.token]) hcells
  | @array o semi c element es length ns ho helement hsemi hlength hc ih =>
    obtain ⟨hnumber, -, -⟩ := hlength
    have hclose : Settled (.token c :: cells) := .token (by simp [hc]) hcells
    have hlength := Settled.token (by rw [hnumber]; simp) hclose
    have hsemi : Settled (.token semi :: _) := .token (by simp [hsemi]) hlength
    simpa using Settled.token (t := o) (by simp [ho]) (ih hsemi)
  | pointer hstar _ ih => exact .token (by simp [hstar]) (ih hcells)
  | reference hmark _ ih => exact .token (by simp [hmark]) (ih hcells)
  | doubleReference hmarks _ ih => exact .token (by simp [hmarks]) (ih hcells)
  | generic name ho hargument hplain hc _ =>
    exact .token (by simp [Identifier.token]) (.clause ⟨ho, hargument, hplain, hc⟩ hcells)

/-- The kind of the first token, or that of the end of the input. -/
def headKind (ts : List Token) : Kind := (ts.head?.map (·.kind)).getD .eof

theorem Parser.State.kind_current (s : Parser.State) : s.current.kind = headKind s.rest := by
  unfold Parser.State.current Parser.State.peek headKind
  cases s.rest with
  | nil => exact s.eof_kind
  | cons t ts => rfl

/-- A state before what is written from a template is at its first token. -/
theorem Written.current {tidy : Prop} {p : Position} {t : Token} {cells : List Cell}
    {s : Parser.State} (h : Written tidy p (.token t :: cells) s.rest) : s.current = t := by
  obtain ⟨us, hus, -⟩ := h.eq_cons
  exact Parser.current_of_rest hus

/-- Behind that token it is before what is written from the rest. -/
theorem Written.advance {tidy : Prop} {p : Position} {t : Token} {cells : List Cell}
    {s : Parser.State} (h : Written tidy p (.token t :: cells) s.rest) (ht : t.kind ≠ .eof) :
    Written tidy t.span.stop cells s.advance.rest := by
  obtain ⟨us, hus, hcells⟩ := h.eq_cons
  exact Parser.rest_advance hus ht ▸ hcells

theorem Parser.State.kind_peek_one {s : Parser.State} {t : Token} {ts : List Token}
    (h : s.rest = t :: ts) : (s.peek 1).kind = headKind ts := by
  unfold Parser.State.peek headKind
  rw [h]
  cases ts with
  | nil => exact s.eof_kind
  | cons u us => rfl

namespace Settled

variable {tidy : Prop} {p : Position} {cells : List Cell} {s : Slot} {ts : List Token}

theorem slot_inv (h : Settled (.slot s :: cells)) :
    (∀ c ∈ cells.head?, ∃ t, c = .token t ∧ t.kind ∈ s.separator.followers) ∧ Settled cells := by
  generalize hcells : Cell.slot s :: cells = all at h
  cases h with
  | nil | token | operator => cases hcells
  | slot hnext h =>
    obtain ⟨heq, rfl⟩ := List.cons.inj hcells
    cases heq
    exact ⟨hnext, h⟩
  | clause htype h =>
    obtain ⟨ho, hargument, hplain, hc⟩ := htype
    simp at hcells

/-- What stands behind a place, wherever the place is. -/
theorem next_of_slot (h : Settled cells) {es fs : List Cell} (hcells : cells = es ++ .slot s :: fs) :
    ∀ c ∈ fs.head?, ∃ t, c = .token t ∧ t.kind ∈ s.separator.followers := by
  induction h generalizing es with
  | nil => simp at hcells
  | token ht h ih =>
    cases es with
    | nil => cases hcells
    | cons c es => exact ih (List.cons.inj hcells).2
  | slot hnext h ih =>
    cases es with
    | nil =>
      obtain ⟨heq, rfl⟩ := List.cons.inj hcells
      exact Cell.slot.inj heq ▸ hnext
    | cons c es => exact ih (List.cons.inj hcells).2
  | operator ho ht h ih =>
    cases es with
    | nil => cases hcells
    | cons c es => exact ih (List.cons.inj hcells).2
  | clause htype h ih =>
    rcases List.append_eq_append_iff.mp hcells with ⟨es', -, hcells⟩ | ⟨es', hes', hcells⟩
    · exact ih hcells
    · cases es' with
      | nil => exact ih (hcells.symm.trans (List.nil_append _).symm)
      | cons c es' =>
        obtain ⟨rfl, -⟩ := List.cons.inj hcells
        have hmem : Cell.slot s ∈ _ := hes' ▸ List.mem_append_right es List.mem_cons_self
        obtain ⟨t, -, heq⟩ := List.mem_map.mp hmem
        cases heq

theorem token_inv {t : Token} (h : Settled (.token t :: cells)) (ht : t.kind ≠ .symbol .less) :
    Settled cells := by
  generalize hcells : Cell.token t :: cells = all at h
  cases h with
  | nil | slot => cases hcells
  | token _ h =>
    obtain ⟨-, rfl⟩ := List.cons.inj hcells
    exact h
  | operator ho _ _ =>
    obtain ⟨heq, -⟩ := List.cons.inj hcells
    exact absurd (Cell.token.inj heq ▸ ho) ht
  | clause htype h =>
    obtain ⟨ho, hargument, hplain, hc⟩ := htype
    obtain ⟨heq, -⟩ := List.cons.inj hcells
    exact absurd (Cell.token.inj heq ▸ ho) ht

theorem less_cases {o : Token} (h : Settled (.token o :: cells)) (ho : o.kind = .symbol .less) :
    (∃ t cells', cells = .token t :: cells' ∧ (Grammar.standard.primary? t.kind).isSome ∧
        Settled cells) ∨
      ∃ type ts cells', GenericClause type ts ∧ .token o :: cells = ts.map .token ++ cells' ∧
        Settled cells' := by
  generalize hcells : Cell.token o :: cells = all at h
  cases h with
  | nil | slot => cases hcells
  | token ht _ =>
    obtain ⟨heq, -⟩ := List.cons.inj hcells
    exact absurd (Cell.token.inj heq ▸ ho) ht
  | operator _ ht h =>
    obtain ⟨-, rfl⟩ := List.cons.inj hcells
    exact .inl ⟨_, _, rfl, ht, h⟩
  | clause htype h => exact .inr ⟨_, _, _, htype, rfl, h⟩

/-- The next token where a mark may stand. -/
theorem headKind_mem (h : Settled (.slot s :: cells)) (hts : Written tidy p (.slot s :: cells) ts) :
    headKind ts ∈ s.separator.heads := by
  have hempty : ∀ {us}, Written tidy p cells us →
      headKind us = .eof ∨ headKind us ∈ s.separator.followers := by
    intro us hus
    cases cells with
    | nil => rw [hus.eq_nil]; exact .inl rfl
    | cons c cells =>
      obtain ⟨t, rfl, ht⟩ := h.slot_inv.1 c rfl
      obtain ⟨vs, rfl, -⟩ := hus.eq_cons
      exact .inr ht
  cases hts with
  | empty hts =>
    rcases hempty hts with hend | hnext
    · rw [hend]
      exact List.mem_cons_self
    · exact List.mem_cons_of_mem _ (List.mem_append_right _ hnext)
  | mark hm _ _ => exact List.mem_cons_of_mem _ (List.mem_append_left _ hm)

/-- The next token is that of the template, or one of a few. -/
theorem head_cases (h : Settled cells) (hts : Written tidy p cells ts) :
    (cells = [] ∧ ts = []) ∨
      (∃ t cells' ts', cells = .token t :: cells' ∧ ts = t :: ts' ∧
        Written tidy t.span.stop cells' ts') ∨
      ∃ s cells', cells = .slot s :: cells' ∧ headKind ts ∈ s.separator.heads := by
  cases cells with
  | nil => exact .inl ⟨rfl, hts.eq_nil⟩
  | cons c cells =>
    cases c with
    | token t =>
      obtain ⟨us, rfl, hus⟩ := hts.eq_cons
      exact .inr (.inl ⟨t, cells, us, rfl, rfl, hus⟩)
    | slot s => exact .inr (.inr ⟨s, cells, rfl, h.headKind_mem hts⟩)

/-- A next token of any other kind is one of the template. -/
theorem exists_token (h : Settled cells) (hts : Written tidy p cells ts) (hk : headKind ts ∉ seams) :
    ∃ t cells', cells = .token t :: cells' ∧ t.kind = headKind ts := by
  rcases h.head_cases hts with ⟨-, rfl⟩ | ⟨t, cells', ts', rfl, rfl, -⟩ | ⟨s, cells', rfl, hs⟩
  · exact absurd (Separator.mem_seams (s := .comma) List.mem_cons_self) hk
  · exact ⟨t, cells', rfl, rfl⟩
  · exact absurd (Separator.mem_seams hs) hk

/-- Of two lists written from a settled template both start with a token of the given kind or
neither, unless it is one that may stand where a mark is left out. -/
theorem headKind_eq_iff {tidy' : Prop} {q : Position} {us : List Token} {k : Kind}
    (hk : k ∉ seams) (h : Settled cells) (hts : Written tidy p cells ts)
    (hus : Written tidy' q cells us) : headKind ts = k ↔ headKind us = k := by
  rcases h.head_cases hts with ⟨rfl, rfl⟩ | ⟨t, cells', ts', rfl, rfl, -⟩ | ⟨s, cells', rfl, hs⟩
  · rw [hus.eq_nil]
  · obtain ⟨us', rfl, -⟩ := hus.eq_cons
    exact Iff.rfl
  · have hs' := h.headKind_mem hus
    refine iff_of_false ?_ ?_ <;> rintro rfl
    · exact hk (Separator.mem_seams hs)
    · exact hk (Separator.mem_seams hs')

end Settled

end FrontEnd
