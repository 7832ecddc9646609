/-
What spells a type is read as the type.

A spelling keeps the spans: wherever its tokens come next, reading them gives the type with all
its spans.  There is one exception, since a name takes an angle bracket that follows it as the
start of an argument.

* `ReadBack` — the type is read where the tokens come next;
* `ReadBack.marked` — behind one more mark a type is read, with the mark, if it is without;
* `readBack_of_spelledBy` — each spelling of a type is read back, one lemma per production;
* `genericClause_of_spelledBy` — so is a generic argument, whatever follows.
-/
import FrontEnd.Proofs.Expr.Casting
import FrontEnd.Proofs.Grammar.Types

namespace FrontEnd.Parser

variable {s : State} {ts rest : List Token}

/-- Where the tokens come next, they are read as the type, unless they end in a name and an
angle bracket follows. -/
def ReadBack (type : TypeExpr) (ts : List Token) : Prop :=
  ∀ (s : State) (rest : List Token), s.rest = ts ++ rest →
    ((∃ t ∈ ts.getLast?, t.kind = .identifier) → ∀ t ∈ rest.head?, t.kind ≠ .symbol .less) →
    ∃ s', typeExpr Grammar.standard s = .ok type s' ∧ Reads s ts s' ∧ s'.rest = rest

theorem expect_of_kind {t : Token} {k : Kind} (hrest : s.rest = t :: rest) (hk : t.kind = k)
    (production : String) : expect k production s = .ok t s.advance :=
  hk ▸ expect_of_rest hrest production

theorem number_of_spelledBy {n : Number} (h : n.SpelledBy ts) (hrest : s.rest = ts ++ rest)
    (production : String) : number production s = .ok n s.advance := by
  obtain ⟨hkind, hvalue, hlimit⟩ := h
  rw [number, bind_of_ok (expect_of_kind hrest hkind production), hvalue]
  simp only [hlimit, if_true]
  rfl

/-! ### Types that are one token -/

/-- What is read as one token leaves the tokens behind it. -/
theorem readBack_of_token {type : TypeExpr} {t : Token} (ht : t.kind ≠ .eof)
    (h : ∀ {s : State} {rest : List Token}, s.rest = t :: rest →
      (t.kind = .identifier → ∀ u ∈ rest.head?, u.kind ≠ .symbol .less) →
      typeExpr Grammar.standard s = .ok type s.advance) :
    ReadBack type [t] := fun _ _ hrest hname =>
  ⟨_, h hrest fun hk => hname ⟨t, rfl, hk⟩, reads_of_rest hrest ht, rest_advance hrest ht⟩

theorem readBack_primitive {p : Primitive} {t : Token} (ht : t.kind = .keyword (.primitive p)) :
    ReadBack (.primitive p t.span) [t] := by
  refine readBack_of_token (by simp [ht]) fun {s rest} hrest _ => ?_
  have hadvance : advance s = .ok t s.advance := by
    rw [← current_of_rest hrest]
    rfl
  rw [typeExpr_run (current_of_rest hrest ▸ ht)]
  show primitiveType s = _
  rw [primitiveType, bind_of_ok hadvance, ht]
  rfl

theorem readBack_string {t : Token} (ht : t.kind = .keyword .stringKw) :
    ReadBack (.string t.span) [t] := by
  refine readBack_of_token (by simp [ht]) fun {s rest} hrest _ => ?_
  rw [typeExpr_run (current_of_rest hrest ▸ ht)]
  show stringType s = _
  rw [stringType, bind_of_ok (expect_of_kind hrest ht _)]
  rfl

theorem readBack_named (name : Identifier) : ReadBack (.named name) [name.token] := by
  have hproper : name.token.kind ≠ .eof := by simp [Identifier.token]
  refine readBack_of_token hproper fun {s rest} hrest hname => ?_
  have hcurrent : s.current = name.token := current_of_rest hrest
  have hless : s.advance.current.kind ≠ .symbol .less := by
    have hadvance := rest_advance hrest hproper
    cases rest with
    | nil =>
      have heof := s.advance.eof_kind
      simp [State.current, State.peek, hadvance, heof]
    | cons u us => rw [current_of_rest hadvance]; exact hname rfl u rfl
  rw [typeExpr_of_name (hcurrent ▸ rfl), if_neg hless, hcurrent]
  rfl

/-! ### Types behind a mark -/

/-- A mark does not change how the type behind it ends, and the type that is made of both spans
the tokens from the mark on. -/
theorem ReadBack.marked {type made : TypeExpr} {t : Token} {k : Kind} {production : String}
    {make : Token → TypeExpr → Parser TypeExpr} (h : ReadBack type ts) (hne : ts ≠ [])
    (ht : t.kind = k) (hk : k ≠ .eof)
    (hrun : ∀ {s : State}, s.current.kind = k → typeExpr Grammar.standard s =
      (expect k production >>= fun mark => typeExpr Grammar.standard >>= make mark) s)
    (hmake : ∀ {s' : State}, (∀ p, s'.spanFrom p = spanning p (t :: ts)) →
      make t type s' = .ok made s') :
    ReadBack made (t :: ts) := by
  intro s rest hrest hname
  have hproper : t.kind ≠ .eof := ht ▸ hk
  obtain ⟨s', htype, hread, hrest'⟩ := h _ _ (rest_advance hrest hproper)
    (List.getLast?_cons_of_ne_nil hne ▸ hname)
  have hall : Reads s (t :: ts) s' := (reads_of_rest hrest hproper).append hread
  refine ⟨s', ?_, hall, hrest'⟩
  rw [hrun (current_of_rest hrest ▸ ht), bind_of_ok (expect_of_kind hrest ht production),
    bind_of_ok htype]
  exact hmake (hall.spanFrom (by simp))

theorem ReadBack.pointer {star : Token} {pointee : TypeExpr} (h : ReadBack pointee ts)
    (hne : ts ≠ []) (hstar : star.kind = .symbol .star) :
    ReadBack (.pointer pointee (covering (star :: ts))) (star :: ts) := by
  refine h.marked hne hstar (by simp) typeExpr_run fun {s'} hspan => ?_
  rw [covering_cons, ← hspan]
  rfl

theorem ReadBack.reference {mark : Token} {referent : TypeExpr} (h : ReadBack referent ts)
    (hne : ts ≠ []) (hmark : mark.kind = .symbol .ampersand) :
    ReadBack (.reference referent (covering (mark :: ts))) (mark :: ts) := by
  refine h.marked hne hmark (by simp) typeExpr_run fun {s'} hspan => ?_
  rw [covering_cons, ← hspan]
  rfl

theorem ReadBack.doubleReference {marks : Token} {referent : TypeExpr} (h : ReadBack referent ts)
    (hne : ts ≠ []) (hmarks : marks.kind = .symbol .and) :
    ReadBack (.reference
      (.reference referent (spanning (marks.span.start.next '&') (marks :: ts)))
      (covering (marks :: ts))) (marks :: ts) := by
  refine h.marked hne hmarks (by simp) typeExpr_run fun {s'} hspan => ?_
  rw [covering_cons, ← hspan, ← hspan]
  rfl

/-! ### Types that hold another one -/

theorem ReadBack.array {o semi c : Token} {element : TypeExpr} {length : Number} {ns : List Token}
    (h : ReadBack element ts) (ho : o.kind = .symbol .openBracket)
    (hsemi : semi.kind = .symbol .semicolon) (hlength : length.SpelledBy ns)
    (hc : c.kind = .symbol .closeBracket) :
    ReadBack (.array element length (covering (o :: (ts ++ semi :: (ns ++ [c])))))
      (o :: (ts ++ semi :: (ns ++ [c]))) := by
  intro s rest hrest _
  obtain ⟨n, rfl, hn⟩ : ∃ n, ns = [n] ∧ n.kind = .number := by
    obtain ⟨hkind, -, -⟩ := hlength
    exact ⟨_, rfl, hkind⟩
  have hrest₁ : s.advance.rest = ts ++ semi :: n :: c :: rest := by
    simpa using rest_advance hrest (by rw [ho]; simp)
  obtain ⟨s', hrun, hread, hrest'⟩ := h _ _ hrest₁ (by simp [hsemi])
  have hrest₂ := rest_advance hrest' (by rw [hsemi]; simp)
  have hrest₃ := rest_advance hrest₂ (by rw [hn]; simp)
  have hall : Reads s (o :: (ts ++ semi :: ([n] ++ [c]))) s'.advance.advance.advance :=
    (reads_of_rest hrest (by rw [ho]; simp)).append (hread.append
      ((reads_of_rest hrest' (by rw [hsemi]; simp)).append
        ((reads_of_rest hrest₂ (by rw [hn]; simp)).append
          (reads_of_rest hrest₃ (by rw [hc]; simp)))))
  refine ⟨s'.advance.advance.advance, ?_, hall, rest_advance hrest₃ (by rw [hc]; simp)⟩
  rw [typeExpr_run (current_of_rest hrest ▸ ho), covering_cons,
    ← hall.spanFrom (by simp) o.span.start]
  show arrayTypeOf (typeExpr Grammar.standard) s = _
  rw [arrayTypeOf, bind_of_ok (expect_of_kind hrest ho _), bind_of_ok hrun,
    bind_of_ok (expect_of_kind hrest' hsemi _),
    bind_of_ok (number_of_spelledBy hlength hrest₂ _),
    bind_of_ok (expect_of_kind hrest₃ hc _)]
  rfl

/-- A plain type that is read back is so as a generic argument, whatever follows. -/
theorem ReadBack.genericClause {type : TypeExpr} {o c : Token} (h : ReadBack type ts)
    (hplain : type.isPlain) (ho : o.kind = .symbol .less) (hc : c.kind = .symbol .greater)
    (hrest : s.rest = o :: (ts ++ [c]) ++ rest) :
    ∃ s', genericClause Grammar.standard s = .ok type s' ∧ Reads s (o :: (ts ++ [c])) s' ∧
      s'.rest = rest := by
  have hrest₁ : s.advance.rest = ts ++ c :: rest := by
    simpa using rest_advance hrest (by rw [ho]; simp)
  obtain ⟨s', hrun, hread, hrest'⟩ := h _ _ hrest₁ (by simp [hc])
  refine ⟨s'.advance, ?_, ?_, rest_advance hrest' (by rw [hc]; simp)⟩
  · exact genericClause_eq_ok_iff.mpr ⟨current_of_rest hrest ▸ ho, s', hrun, hplain,
      current_of_rest hrest' ▸ hc, rfl⟩
  · exact (reads_of_rest hrest (by rw [ho]; simp)).append
      (hread.append (reads_of_rest hrest' (by rw [hc]; simp)))

theorem ReadBack.generic {o c : Token} {argument : TypeExpr} (h : ReadBack argument ts)
    (name : Identifier) (ho : o.kind = .symbol .less) (hplain : argument.isPlain)
    (hc : c.kind = .symbol .greater) :
    ReadBack (.generic name argument (covering (name.token :: o :: (ts ++ [c]))))
      (name.token :: o :: (ts ++ [c])) := by
  intro s rest hrest _
  have hproper : name.token.kind ≠ .eof := by simp [Identifier.token]
  have hrest₁ := rest_advance hrest hproper
  obtain ⟨s', hclause, hread, hrest'⟩ := h.genericClause hplain ho hc hrest₁
  have hall : Reads s (name.token :: o :: (ts ++ [c])) s' :=
    (reads_of_rest hrest hproper).append hread
  refine ⟨s', ?_, hall, hrest'⟩
  have hcurrent : s.current = name.token := current_of_rest hrest
  rw [typeExpr_of_name (hcurrent ▸ rfl), if_pos (current_of_rest hrest₁ ▸ ho), hclause, hcurrent,
    covering_cons, ← hall.spanFrom (by simp) name.token.span.start]
  rfl

/-! ### Every spelling -/

/-- What is spelled by the next tokens is read, unless it ends in a name and an angle bracket
follows. -/
theorem readBack_of_spelledBy {type : TypeExpr} (h : type.SpelledBy ts) : ReadBack type ts := by
  induction h with
  | primitive ht => exact readBack_primitive ht
  | string ht => exact readBack_string ht
  | named name => exact readBack_named name
  | array ho _ hsemi hlength hc ih => exact ih.array ho hsemi hlength hc
  | pointer hstar hpointee ih => exact ih.pointer hpointee.startsWith.ne_nil hstar
  | reference hmark hreferent ih => exact ih.reference hreferent.startsWith.ne_nil hmark
  | doubleReference hmarks hreferent ih =>
    exact ih.doubleReference hreferent.startsWith.ne_nil hmarks
  | generic name ho _ hplain hc ih => exact ih.generic name ho hplain hc

/-- So is a generic argument, whatever follows. -/
theorem genericClause_of_spelledBy {type : TypeExpr} (h : GenericClause type ts)
    (hrest : s.rest = ts ++ rest) :
    ∃ s', genericClause Grammar.standard s = .ok type s' ∧ Reads s ts s' ∧ s'.rest = rest := by
  obtain ⟨ho, hargument, hplain, hc⟩ := h
  exact (readBack_of_spelledBy hargument).genericClause hplain ho hc hrest

end FrontEnd.Parser
