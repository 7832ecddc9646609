/-
Lists of tokens that something is written with.

The grammar says what a construct is written with in terms of what its parts are written
with.  Parts follow one another (`Each`), stand between separators (`Separated`) or behind a
mark (`Behind`), or may be missing (`Perhaps`, `Optional`), and a construct covers the tokens
it is written with (`covering`).
-/
import FrontEnd.Token.Stream

namespace FrontEnd

variable {α β : Type}

/-- The tokens are those of the values, put end to end. -/
inductive Each (V : α → List Token → Prop) : List α → List Token → Prop
  | nil : Each V [] []
  | cons {a : α} {ts : List Token} {as : List α} {us : List Token} :
    V a ts → Each V as us → Each V (a :: as) (ts ++ us)

/-- The tokens are those of the values, with a token of kind `k` between them. -/
inductive Separated (k : Kind) (V : α → List Token → Prop) : List α → List Token → Prop
  | nil : Separated k V [] []
  | one {a : α} {ts : List Token} : V a ts → Separated k V [a] ts
  | more {a : α} {ts : List Token} {sep : Token} {b : α} {as : List α} {us : List Token} :
    V a ts → sep.kind = k → Separated k V (b :: as) us →
      Separated k V (a :: b :: as) (ts ++ sep :: us)

/-- A token of kind `k` that may stand here or not. -/
inductive Optional (k : Kind) : Bool → List Token → Prop
  | absent : Optional k false []
  | present {t : Token} (h : t.kind = k) : Optional k true [t]

/-- Something that may stand here or not. -/
inductive Perhaps (V : α → List Token → Prop) : Option α → List Token → Prop
  | none : Perhaps V none []
  | some {a : α} {ts : List Token} (h : V a ts) : Perhaps V (some a) ts

/-- Something with a token of kind `k` before it. -/
inductive Behind (k : Kind) (V : α → List Token → Prop) : α → List Token → Prop
  | mk {t : Token} {a : α} {ts : List Token} (ht : t.kind = k) (h : V a ts) :
    Behind k V a (t :: ts)

theorem Each.map {V : α → List Token → Prop} {W : β → List Token → Prop} {g : α → β}
    (h : ∀ a ts, V a ts → W (g a) ts) {as : List α} {ts : List Token} (hs : Each V as ts) :
    Each W (as.map g) ts := by
  induction hs with
  | nil => exact .nil
  | cons hv _ ih => exact .cons (h _ _ hv) ih

theorem Each.append {V : α → List Token → Prop} {as bs : List α} {ts us : List Token}
    (hs : Each V as ts) (hs' : Each V bs us) : Each V (as ++ bs) (ts ++ us) := by
  induction hs with
  | nil => exact hs'
  | cons hv _ ih =>
    rw [List.append_assoc]
    exact .cons hv ih

/-- Values that are written with no tokens. -/
theorem Each.of_nil {V : β → List Token → Prop} {g : α → β} (h : ∀ a, V (g a) [])
    (as : List α) : Each V (as.map g) [] := by
  induction as with
  | nil => exact .nil
  | cons a as ih => exact .cons (h a) ih

/-- Each of the values is written with some of the tokens, next to each other. -/
theorem Each.of_mem {V : α → List Token → Prop} {as : List α} {ts : List Token}
    (h : Each V as ts) {a : α} (ha : a ∈ as) : ∃ us, us <:+: ts ∧ V a us := by
  induction h with
  | nil => simp at ha
  | cons hv _ ih =>
    rcases List.mem_cons.mp ha with rfl | hmem
    · exact ⟨_, (List.prefix_append _ _).isInfix, hv⟩
    · obtain ⟨us, hus, hvs⟩ := ih hmem
      exact ⟨us, hus.trans (List.suffix_append _ _).isInfix, hvs⟩

/-- Lists of values, put end to end. -/
theorem Each.flatten {V : α → List Token → Prop} {as : List (List α)} {ts : List Token}
    (h : Each (Each V) as ts) : Each V as.flatten ts := by
  induction h with
  | nil => exact .nil
  | cons hv _ ih =>
    rw [List.flatten_cons]
    exact hv.append ih

/-- Values each of which has its separator before it, after a first one that has none. -/
theorem Separated.of_each {k : Kind} {V : α → List Token → Prop} {a : α} {as : List α}
    {ts us : List Token} (ha : V a ts)
    (has : Each (fun b vs => ∃ sep ws, vs = sep :: ws ∧ sep.kind = k ∧ V b ws) as us) :
    Separated k V (a :: as) (ts ++ us) := by
  induction has generalizing a ts with
  | nil =>
    rw [List.append_nil]
    exact .one ha
  | cons hb _ ih =>
    obtain ⟨sep, ws, rfl, hsep, hb⟩ := hb
    exact .more ha hsep (ih hb)

/-! ### What tokens cover -/

/-- From `p` up to the end of the last of the tokens, or nothing at `p` if that lies
before it. -/
def spanning (p : Position) (ts : List Token) : Span :=
  match ts.getLast? with
  | none => Span.empty p
  | some t => if t.span.stop.offset < p.offset then Span.empty p else ⟨p, t.span.stop⟩

/-- From the start of the first of the tokens up to the end of the last. -/
def covering (ts : List Token) : Span :=
  spanning ((ts.head?.map (·.span.start)).getD Position.start) ts

@[simp] theorem spanning_start (p : Position) (ts : List Token) : (spanning p ts).start = p := by
  unfold spanning
  split
  · rfl
  · split <;> rfl

theorem spanning_append (p : Position) (ts us : List Token) (h : us ≠ []) :
    spanning p (ts ++ us) = spanning p us := by
  unfold spanning
  rw [List.getLast?_append, List.getLast?_eq_some_getLast h, Option.some_or]

theorem covering_cons (t : Token) (ts : List Token) :
    covering (t :: ts) = spanning t.span.start (t :: ts) := rfl

end FrontEnd
