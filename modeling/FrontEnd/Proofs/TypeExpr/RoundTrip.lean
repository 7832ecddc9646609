/-
Types are read back from every way to write them.

A type is written with few choices: two references in a row are two ampersands or the one token
of both, and zeros may stand before the digits of a length.  Each of these ways is read back as
the type, up to where its parts stand, and nothing else is read as a type.

* `TypeExpr.WrittenAs` — the ways to write a type, whatever the spans of its parts;
* `TypeExpr.Proper` — the types that can be written so that they are read back: no pointer,
  reference or generic type is an argument, and no length exceeds 64 bits;
* `TypeExpr.WrittenAs.exists_spelledBy` — a way to write a proper type spells it, once its parts
  are put where the tokens stand, and a spelling is read back;
* `TypeExpr.SpelledBy.proper`, `TypeExpr.SpelledBy.writtenAs` — what a spelling, which keeps the
  spans, says about the type and its tokens;
* `typeExpr_round_trip` — both directions.

A name takes an angle bracket that follows it as the start of an argument, so that a type which
ends in a name is read back only where no such bracket follows.
-/
import FrontEnd.Proofs.Literal.RoundTrip
import FrontEnd.Proofs.Text.Digits
import FrontEnd.Proofs.Tree.Bare
import FrontEnd.Proofs.TypeExpr.Spelling

namespace FrontEnd

/-! ### Decimal numbers -/

/-- The token is the number `n` in decimal digits. -/
structure Token.WritesNumber (t : Token) (n : Nat) : Prop where
  kind : t.kind = .number
  digits : Text.WritesDecimal t.text.toList n

/-- The token, if it is a number, consists of decimal digits. -/
def Token.InDigits (t : Token) : Prop := t.kind = .number → ∀ c ∈ t.text.toList, Text.isDecimal c

theorem Lexeme.isDecimal_of_number {c : Char} {cs : List Char}
    (h : (first c cs).kind = .token .number) : ∀ d ∈ (first c cs).text, Text.isDecimal d := by
  obtain ⟨run, hfirst, hspells⟩ := exists_spells h (by simp) (by simp)
  rw [hfirst]
  cases hspells with
  | number hmatch =>
    obtain ⟨-, rfl⟩ := leading?_eq_some hmatch
    exact fun d hd => List.mem_takeWhile_imp hd

/-- The numbers of a text consist of decimal digits: no sign belongs to them. -/
theorem inDigits_of_mem_tokenize {source : String} {t : Token}
    (h : t ∈ (tokenize source).stream.tokens) : t.InDigits := by
  intro hkind
  rw [tokens_tokenize] at h
  rcases List.mem_append.mp h with h | h
  · obtain ⟨l, hl, hl', htext⟩ := exists_of_mem_placedTokens h
    rw [htext, String.toList_ofList]
    rw [hkind] at hl'
    clear h htext
    generalize source.toList = text at hl
    induction text using lexemes_induction with
    | nil => simp [lexemes] at hl
    | cons c cs rest htext hlex ih =>
      rw [hlex] at hl
      rcases List.mem_cons.mp hl with rfl | hmem
      · exact Lexeme.isDecimal_of_number hl'
      · exact ih hmem
  · rw [List.mem_singleton.mp h] at hkind
    cases hkind

/-! ### Ways to write a type -/

namespace TypeExpr

/-- The ways to write a type, whatever the spans of its parts are. -/
inductive WrittenAs : TypeExpr → List Token → Prop
  | primitive {p : Primitive} {t : Token} (span : Span) (ht : t.kind = .keyword (.primitive p)) :
    WrittenAs (.primitive p span) [t]
  | string {t : Token} (span : Span) (ht : t.kind = .keyword .stringKw) :
    WrittenAs (.string span) [t]
  | named {name : Identifier} {t : Token} (ht : t.kind = .identifier)
    (htext : t.text = name.name) : WrittenAs (.named name) [t]
  | array {o semi n c : Token} {element : TypeExpr} {es : List Token} {length : Number}
    (span : Span) (ho : o.kind = .symbol .openBracket) (helement : element.WrittenAs es)
    (hsemi : semi.kind = .symbol .semicolon) (hlength : n.WritesNumber length.value)
    (hc : c.kind = .symbol .closeBracket) :
    WrittenAs (.array element length span) (o :: (es ++ [semi, n, c]))
  | pointer {star : Token} {pointee : TypeExpr} {ts : List Token} (span : Span)
    (hstar : star.kind = .symbol .star) (hpointee : pointee.WrittenAs ts) :
    WrittenAs (.pointer pointee span) (star :: ts)
  | reference {mark : Token} {referent : TypeExpr} {ts : List Token} (span : Span)
    (hmark : mark.kind = .symbol .ampersand) (hreferent : referent.WrittenAs ts) :
    WrittenAs (.reference referent span) (mark :: ts)
  /-- Two references whose ampersands are one token. -/
  | doubleReference {marks : Token} {referent : TypeExpr} {ts : List Token} (inside span : Span)
    (hmarks : marks.kind = .symbol .and) (hreferent : referent.WrittenAs ts) :
    WrittenAs (.reference (.reference referent inside) span) (marks :: ts)
  | generic {name : Identifier} {t o c : Token} {argument : TypeExpr} {ts : List Token}
    (span : Span) (ht : t.kind = .identifier) (htext : t.text = name.name)
    (ho : o.kind = .symbol .less) (hargument : argument.WrittenAs ts)
    (hc : c.kind = .symbol .greater) :
    WrittenAs (.generic name argument span) (t :: o :: (ts ++ [c]))

/-- Every generic argument is plain, and every length is one of 64 bits. -/
def Proper : TypeExpr → Prop
  | primitive .. | string .. | named .. => True
  | array element length _ => element.Proper ∧ length.value < Number.limit
  | pointer pointee _ => pointee.Proper
  | reference referent _ => referent.Proper
  | generic _ argument _ => argument.isPlain ∧ argument.Proper

/-! ### Spellings -/

/-- Only a proper type has a spelling. -/
theorem SpelledBy.proper {type : TypeExpr} {ts : List Token} (h : type.SpelledBy ts) :
    type.Proper := by
  induction h with
  | primitive | string | named => trivial
  | array _ _ _ hlength _ ih =>
    obtain ⟨-, -, hlimit⟩ := hlength
    exact ⟨ih, hlimit⟩
  | pointer _ _ ih | reference _ _ ih | doubleReference _ _ ih => exact ih
  | generic _ _ _ hplain _ ih => exact ⟨hplain, ih⟩

/-- A spelling in which the numbers consist of decimal digits is a way to write the type. -/
theorem SpelledBy.writtenAs {type : TypeExpr} {ts : List Token} (h : type.SpelledBy ts)
    (hdigits : ∀ t ∈ ts, t.InDigits) :
    type.WrittenAs ts := by
  induction h with
  | primitive ht => exact .primitive _ ht
  | string ht => exact .string _ ht
  | named name => exact .named rfl rfl
  | array ho _ hsemi hlength hc ih =>
    obtain ⟨hkind, hvalue, -⟩ := hlength
    have hn := Text.writesDecimal_of_readNumber? (hdigits _ (by simp) hkind) hvalue
    exact .array _ ho (ih fun t ht => hdigits t (by simp [ht])) hsemi ⟨hkind, hn⟩ hc
  | pointer hstar _ ih => exact .pointer _ hstar (ih fun t ht => hdigits t (by simp [ht]))
  | reference hmark _ ih => exact .reference _ hmark (ih fun t ht => hdigits t (by simp [ht]))
  | doubleReference hmarks _ ih =>
    exact .doubleReference _ _ hmarks (ih fun t ht => hdigits t (by simp [ht]))
  | generic name ho _ _ hc ih =>
    exact .generic _ rfl rfl ho (ih fun t ht => hdigits t (by simp [ht])) hc

/-- A way to write a proper type is a spelling of a type with the same parts, put where the
tokens stand. -/
theorem WrittenAs.exists_spelledBy {type : TypeExpr} {ts : List Token} (h : type.WrittenAs ts)
    (hproper : type.Proper) :
    ∃ placed : TypeExpr, placed.SpelledBy ts ∧
      placed.relocate unplaced = type.relocate unplaced := by
  induction h with
  | primitive span ht => exact ⟨_, .primitive ht, rfl⟩
  | string span ht => exact ⟨_, .string ht, rfl⟩
  | @named name t ht htext =>
    obtain ⟨kind, text, span⟩ := t
    obtain rfl : kind = .identifier := ht
    obtain rfl : text = name.name := htext
    exact ⟨_, .named ⟨name.name, span⟩, rfl⟩
  | @array o semi n c element es length span ho helement hsemi hlength hc ih =>
    obtain ⟨hproper, hlimit⟩ := hproper
    obtain ⟨placed, hspelled, hsame⟩ := ih hproper
    have hn : (⟨length.value, n.span⟩ : Number).SpelledBy [n] :=
      .mk hlength.kind hlength.digits.readNumber? hlimit
    refine ⟨_, .array ho hspelled hsemi hn hc, ?_⟩
    simp only [relocate, hsame]
    rfl
  | pointer span hstar hpointee ih =>
    obtain ⟨placed, hspelled, hsame⟩ := ih hproper
    refine ⟨_, .pointer hstar hspelled, ?_⟩
    simp only [relocate, hsame]
    rfl
  | reference span hmark hreferent ih =>
    obtain ⟨placed, hspelled, hsame⟩ := ih hproper
    refine ⟨_, .reference hmark hspelled, ?_⟩
    simp only [relocate, hsame]
    rfl
  | doubleReference inside span hmarks hreferent ih =>
    obtain ⟨placed, hspelled, hsame⟩ := ih hproper
    refine ⟨_, .doubleReference hmarks hspelled, ?_⟩
    simp only [relocate, hsame]
    rfl
  | @generic name t o c argument ts span ht htext ho hargument hc ih =>
    obtain ⟨hplain, hproper⟩ := hproper
    obtain ⟨placed, hspelled, hsame⟩ := ih hproper
    have hplain' : placed.isPlain := by
      rw [← isPlain_relocate unplaced, hsame, isPlain_relocate]
      exact hplain
    obtain ⟨kind, text, start⟩ := t
    obtain rfl : kind = .identifier := ht
    obtain rfl : text = name.name := htext
    refine ⟨_, .generic ⟨name.name, start⟩ ho hspelled hplain' hc, ?_⟩
    simp only [relocate, hsame]
    rfl

end TypeExpr

namespace Parser

/-- **Types are read back, and nothing else is.**  Let the generic arguments of a type be plain
and its lengths be of 64 bits.  However it is written, two references in a row with one token or
with two and lengths with zeros before them, and whatever follows (but no `<` after a last name),
reading a type consumes just that and gives the type, up to where its parts stand.  Conversely, a
type that has been read is such a type, and the tokens consumed are a way to write it; numbers are
taken to consist of digits, and those of every source text do. -/
theorem typeExpr_round_trip :
    (∀ (type : TypeExpr) (ts rest : List Token) (s : State),
      type.Proper → type.WrittenAs ts → s.rest = ts ++ rest →
      ((∃ t ∈ ts.getLast?, t.kind = .identifier) → ∀ t ∈ rest.head?, t.kind ≠ .symbol .less) →
        ∃ type' s', typeExpr Grammar.standard s = .ok type' s' ∧
          type'.relocate unplaced = type.relocate unplaced ∧ Reads s ts s' ∧ s'.rest = rest) ∧
    (∀ (type : TypeExpr) (s s' : State), typeExpr Grammar.standard s = .ok type s' →
      type.Proper ∧
        ∃ ts, Reads s ts s' ∧ ((∀ t ∈ ts, t.InDigits) → type.WrittenAs ts)) ∧
    ∀ source : String, ∀ t ∈ (tokenize source).stream.tokens, t.InDigits := by
  have hmeets : ∀ s, Meets [] s (typeExpr Grammar.standard) TypeExpr.SpelledBy :=
    fun _ => meets_typeExpr
  refine ⟨?_, ?_, fun source t ht => inDigits_of_mem_tokenize ht⟩
  · intro type ts rest s hproper hwritten hrest hname
    obtain ⟨placed, hspelled, hsame⟩ := hwritten.exists_spelledBy hproper
    obtain ⟨s', hrun, hread, hrest'⟩ := readBack_of_spelledBy hspelled s rest hrest hname
    exact ⟨placed, s', hrun, hsame, hread, hrest'⟩
  · intro type s s' hrun
    obtain ⟨ts, hread, -, hspelled⟩ := (hmeets s).of_ok hrun
    exact ⟨hspelled.proper, ts, hread, hspelled.writtenAs⟩

/-- A name whose argument is an array of references to references. -/
def nestedType : TypeExpr :=
  let span := Span.empty Position.start
  .generic ⟨"a", span⟩
    (.array (.reference (.reference (.named ⟨"b", span⟩) span) span) ⟨7, span⟩ span) span

/-- The tokens of `a<[&&b; 007]>`. -/
def nestedTokens : List Token :=
  [(.identifier, "a"), (.symbol .less, "<"), (.symbol .openBracket, "["), (.symbol .and, "&&"),
    (.identifier, "b"), (.symbol .semicolon, ";"), (.number, "007"),
    (.symbol .closeBracket, "]"), (.symbol .greater, ">")].map
    fun (kind, text) => ⟨kind, text, Span.empty Position.start⟩

theorem typeExpr_round_trip_nested :
    ∃ type s', typeExpr Grammar.standard (State.ofStream ⟨nestedTokens, []⟩) = .ok type s' ∧
      type.relocate unplaced = nestedType.relocate unplaced ∧ s'.rest = [] ∧ type.Proper := by
  have hwritten : nestedType.WrittenAs nestedTokens :=
    .generic _ rfl rfl rfl
      (.array _ rfl (.doubleReference _ _ rfl (.named rfl rfl)) rfl ⟨rfl, 2, by decide⟩ rfl) rfl
  obtain ⟨type, s', hrun, htype, -, hrest⟩ := typeExpr_round_trip.1 nestedType nestedTokens []
    (State.ofStream ⟨nestedTokens, []⟩) ⟨rfl, trivial, by decide⟩ hwritten rfl (by simp)
  exact ⟨type, s', hrun, htype, hrest, (typeExpr_round_trip.2.1 _ _ _ hrun).1⟩

end Parser

end FrontEnd
