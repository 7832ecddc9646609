/-
The first rule that matches has the longest match.

The rules are tried in order, and the run of the first one that matches is taken, whatever later
rules would match.  Nothing is lost by that.  What starts like white space, a name or a number
starts like nothing else, and of two marks that start alike the longer one stands before the
shorter one.  So wherever two rules match, the run of the earlier one starts with the run of the
later one.

* `Unicode.isXidContinue_of_isWhiteSpace`, `Rule.mark_head` — white space, names, numbers and marks
  do not start alike;
* `Rule.pairwise_outruns` — the order of the table: an earlier rule matches no less than a later
  one;
* `Lexeme.first_stops` — white space, names, numbers and comments up to the end of the line end
  only where the next character is none of theirs;
* `first_match_longest` — at every place where a piece of a text starts.
-/
import FrontEnd.Proofs.Literal.Agreement
import FrontEnd.Proofs.Text.Digits
import FrontEnd.Proofs.Token.Pieces
import FrontEnd.Proofs.Token.Seams
import FrontEnd.Proofs.Token.Tiling

namespace FrontEnd

/-! ### What starts alike -/

namespace Unicode

theorem ascending_whiteSpaceRanges : Ascending 0 whiteSpaceRanges := by
  simp [whiteSpaceRanges, Ascending]

/-- White space does not go on with a name. -/
theorem isXidContinue_of_isWhiteSpace {c : Char} (h : isWhiteSpace c) :
    isXidContinue c = false := by
  obtain ⟨r, hr, hlow, hhigh⟩ := (inRanges_iff ascending_whiteSpaceRanges).mp h
  -- The ranges of white space are short, so that their code points can be gone through.
  have hall : ∀ r ∈ whiteSpaceRanges, ∀ n ∈ List.range' r.1 (r.2 + 1 - r.1),
      (inRanges n xidStartRanges || inRanges n xidContinueOnlyRanges) = false := by
    decide +kernel
  exact hall r hr c.toNat (List.mem_range'_1.mpr ⟨hlow, by omega⟩)

theorem isXidStart_of_isWhiteSpace {c : Char} (h : isWhiteSpace c) : isXidStart c = false := by
  rw [← Bool.not_eq_true]
  intro hstart
  have hcontinue := isXidContinue_of_isXidStart hstart
  rw [isXidContinue_of_isWhiteSpace h] at hcontinue
  cases hcontinue

end Unicode

/-- White space, names and numbers do not start alike. -/
theorem startsWord_of_isWhiteSpace {c : Char} (h : Unicode.isWhiteSpace c) :
    startsWord c = false := by
  rw [startsWord, Unicode.isXidStart_of_isWhiteSpace h, Bool.or_false, beq_eq_false_iff_ne]
  rintro rfl
  exact absurd h (by decide)

theorem isDecimal_starts {c : Char} (h : Text.isDecimal c) :
    Unicode.isWhiteSpace c = false ∧ startsWord c = false := by
  obtain ⟨d, hd, rfl⟩ := Text.exists_of_isDecimal h
  have hall : ∀ d < 10, Unicode.isWhiteSpace (Nat.digitChar d) = false ∧
      startsWord (Nat.digitChar d) = false := by
    decide +kernel
  exact hall d hd

namespace Rule

theorem mark_eq_nil {rule : Rule} (h : rule.mark = []) :
    rule = whitespace ∨ rule = word ∨ rule = number := by
  cases rule with
  | symbol s => exact absurd h s.spelling_ne_nil
  | whitespace | word | number => simp
  | lineComment | blockComment | string | char => cases h

/-- A rule with a mark opens with the first character of the mark. -/
theorem opens_iff {rule : Rule} (h : rule.mark ≠ []) {c : Char} :
    rule.opens c ↔ rule.mark.head? = some c := by
  cases rule with
  | whitespace | word | number => exact absurd rfl h
  | lineComment | blockComment | string | char | symbol s => simp [opens]

/-- No mark starts like white space, a name or a number. -/
theorem mark_head {rule : Rule} {d : Char} (h : rule.mark.head? = some d) :
    Unicode.isWhiteSpace d = false ∧ startsWord d = false ∧ Text.isDecimal d = false := by
  cases rule with
  | symbol s =>
    cases s <;>
    · obtain rfl := Option.some.inj h
      decide +kernel
  | whitespace | word | number => cases h
  | lineComment | blockComment | string | char =>
    obtain rfl := Option.some.inj h
    decide +kernel

/-- A rule without a mark opens with no character that another rule opens with. -/
theorem not_opens_of_unmarked {r r' : Rule} (hmark : r.mark = []) (hne : r ≠ r') {c : Char}
    (h : r.opens c) : ¬ r'.opens c := by
  intro h'
  by_cases hmark' : r'.mark = []
  · have hdigit := @isDecimal_starts c
    have hwhite := @startsWord_of_isWhiteSpace c
    rcases mark_eq_nil hmark with rfl | rfl | rfl <;>
      rcases mark_eq_nil hmark' with rfl | rfl | rfl <;> simp_all [opens]
  · obtain ⟨hwhite, hword, hnumber⟩ := mark_head ((opens_iff hmark').mp h')
    rcases mark_eq_nil hmark with rfl | rfl | rfl <;> simp_all [opens]

/-! ### The order of the table -/

/-- Wherever both rules match, the run of the first starts with the run of the second. -/
def Outruns (r r' : Rule) : Prop :=
  ∀ cs run run', r.match? cs = some run → r'.match? cs = some run' → run' <+: run

theorem outruns_of_unmarked {r r' : Rule} (hmark : r.mark = [] ∨ r'.mark = []) (hne : r ≠ r') :
    r.Outruns r' := by
  intro cs run run' h h'
  exfalso
  obtain ⟨hrun, hstarts⟩ := match?_eq_some h
  obtain ⟨c, cs, rfl⟩ := List.exists_cons_of_ne_nil (hstarts.ne_nil hrun)
  have hopens := opens_of_match? h
  have hopens' := opens_of_match? h'
  rcases hmark with hmark | hmark
  · exact not_opens_of_unmarked hmark hne hopens hopens'
  · exact not_opens_of_unmarked hmark hne.symm hopens' hopens

/-- What a rule matches starts with its mark. -/
theorem mark_starts {r : Rule} {cs run : List Char} (h : r.match? cs = some run) :
    r.mark <+: run := by
  obtain ⟨tail, rfl⟩ := List.isPrefixOf_iff_prefix.mp (isPrefixOf_of_match? h)
  cases r with
  | whitespace | word | number => exact List.nil_prefix
  | blockComment => exact (match?_blockComment h).1
  | lineComment | string | char =>
    obtain rfl := Option.some.inj h
    exact ⟨_, rfl⟩
  | symbol s =>
    rw [match?_symbol h]
    exact List.prefix_rfl

/-- No rule is in the table twice, no mark is the start of a later one, and if a later mark is the
start of an earlier one, it is a punctuation mark. -/
theorem pairwise_table : table.Pairwise fun r r' => r ≠ r' ∧
    (r.mark ≠ [] → ¬ r.mark <+: r'.mark) ∧
    (r'.mark ≠ [] → r'.mark <+: r.mark → r' ∈ Symbol.all.map symbol) := by
  decide +kernel

/-- **The order of the table.**  An earlier rule matches no less than a later one. -/
theorem pairwise_outruns : table.Pairwise Outruns := by
  refine pairwise_table.imp fun {r r'} h => ?_
  obtain ⟨hne, hlonger, hsymbol⟩ := h
  by_cases hmark : r.mark = [] ∨ r'.mark = []
  · exact outruns_of_unmarked hmark hne
  obtain ⟨hr, hr'⟩ := not_or.mp hmark
  intro cs run run' h h'
  have hstart := (mark_starts h).trans (match?_eq_some h).2
  have hstart' := (mark_starts h').trans (match?_eq_some h').2
  rcases List.prefix_or_prefix_of_prefix hstart hstart' with hshort | hlong
  · exact absurd hshort (hlonger hr)
  · obtain ⟨s, -, rfl⟩ := List.mem_map.mp (hsymbol hr' hlong)
    rw [match?_symbol h']
    exact hlong.trans (mark_starts h)

/-- The first rule that matches has the longest match. -/
theorem first?_longest {cs run : List Char} {rule : Rule} (h : first? cs = some (rule, run))
    {r : Rule} (hr : r ∈ table) {m : List Char} (hm : r.match? cs = some m) : m <+: run := by
  obtain ⟨before, chosen, behind, htable, hchosen, hbefore⟩ := List.findSome?_eq_some_iff.mp h
  obtain ⟨run', hrun, heq⟩ := Option.map_eq_some_iff.mp hchosen
  obtain ⟨rfl, rfl⟩ := Prod.mk.inj heq
  have hlater := pairwise_outruns
  rw [htable] at hr hlater
  rcases List.mem_append.mp hr with hr | hr
  · -- no rule before it matches
    have hnone := hbefore r hr
    rw [hm] at hnone
    cases hnone
  rcases List.mem_cons.mp hr with rfl | hr
  · rw [hrun] at hm
    obtain rfl := Option.some.inj hm
    exact List.prefix_rfl
  · have hbehind := (List.pairwise_append.mp hlater).2.1
    exact (List.pairwise_cons.mp hbehind).1 r hr cs run' m hrun hm

theorem first?_eq_none {cs : List Char} (h : first? cs = none) {r : Rule} (hr : r ∈ table) :
    r.match? cs = none :=
  Option.map_eq_none_iff.mp (List.findSome?_eq_none_iff.mp h r hr)

/-- The quote of the literals that a rule opens. -/
def quote? : Rule → Option Char
  | string => some '"'
  | char => some '\''
  | _ => none

end Rule

/-! ### Where pieces end -/

/-- A piece of the kind can go on with the character: white space, comments up to the end of the
line, names, reserved words and numbers are runs of characters. -/
def PieceKind.goesOn : PieceKind → Char → Bool
  | .trivia .whitespace, x => Unicode.isWhiteSpace x
  | .trivia (.comment .line), x | .trivia (.comment .doc), x => x != '\n'
  | .token .identifier, x | .token (.keyword _), x => continuesWord x
  | .token .number, x => Text.isDecimal x
  | _, _ => false

/-- Behind the leading characters of a text that satisfy `p` stands none that does. -/
theorem stops_of_takeWhile {p : Char → Bool} {cs run rest : List Char} (hrun : run = cs.takeWhile p)
    (hcut : run ++ rest = cs) : ∀ x ∈ rest.head?, p x = false := by
  have hagain : (run ++ rest).takeWhile p = run := by rw [hcut, hrun]
  exact head?_of_takeWhile hagain

/-- The first piece of a text takes up all that it can go on with. -/
theorem Lexeme.first_stops {c : Char} {cs rest : List Char}
    (hcut : (first c cs).text ++ rest = c :: cs) :
    ∀ x ∈ rest.head?, (first c cs).kind.goesOn x = false := by
  unfold first at hcut ⊢
  split at hcut
  · exact fun x _ => rfl
  · next rule matched hrule =>
    have hmatch := Rule.first?_eq_some hrule
    cases rule with
    | whitespace => exact stops_of_takeWhile (leading?_eq_some hmatch).2 hcut
    | lineComment =>
      obtain ⟨tail, htail⟩ := List.isPrefixOf_iff_prefix.mp (Rule.isPrefixOf_of_match? hmatch)
      rw [← htail] at hmatch hcut
      obtain rfl := Option.some.inj hmatch
      have hline := stops_of_takeWhile rfl (List.append_cancel_left
        (show ['/', '/'] ++ (tail.takeWhile (· != '\n') ++ rest) = ['/', '/'] ++ tail from hcut))
      intro x hx
      dsimp only
      split
      · exact hline x hx
      · exact hline x hx
    | word =>
      simp only [Rule.match?] at hmatch
      split at hmatch
      · obtain rfl := Option.some.inj hmatch
        have hword := stops_of_takeWhile rfl (List.cons.inj hcut).2
        intro x hx
        simp only [token, Kind.ofWord]
        split
        · exact hword x hx
        · exact hword x hx
      · cases hmatch
    | number => exact stops_of_takeWhile (leading?_eq_some hmatch).2 hcut
    | blockComment | string | char | symbol => exact fun x _ => rfl

/-- The piece is cut off the text `cs` by the first rule that matches it: no rule has a longer
match, and the piece is the match, or the literal that it opens.  What no rule matches is cut off
character by character. -/
inductive Piece.CutOff (p : Piece) (cs : List Char) : Prop
  | matched {rule : Rule} {run : List Char} (first : Rule.first? cs = some (rule, run))
    (longest : ∀ r ∈ Rule.table, ∀ m, r.match? cs = some m → m <+: run)
    (exact : rule.quote? = none → p.text.toList = run)
    (literal : ∀ quote, rule.quote? = some quote → run = [quote] ∧
      ∃ l, Literal.scanString? quote (String.ofList cs) = some l ∧ p.text.toList = l.raw)
  | skipped (none : ∀ r ∈ Rule.table, r.match? cs = none) (kind : p.kind = .trivia .skipped)
    (single : p.text.toList.length = 1)

theorem Lexeme.cutOff_first (c : Char) (cs : List Char) (span : Span) :
    Piece.CutOff ⟨(first c cs).kind, String.ofList (first c cs).text, span⟩ (c :: cs) := by
  unfold first
  cases hrule : Rule.first? (c :: cs) with
  | none =>
    exact .skipped (fun r hr => Rule.first?_eq_none hrule hr) rfl (by simp [skipped])
  | some found =>
    obtain ⟨rule, run⟩ := found
    have hmatch := Rule.first?_eq_some hrule
    have hopens := Rule.opens_of_match? hmatch
    refine .matched hrule (fun r hr m hm => Rule.first?_longest hrule hr hm) ?_ ?_
    · intro hquote
      cases rule with
      | string | char => cases hquote
      | _ => exact String.toList_ofList
    · intro quote hquote
      cases rule with
      | string =>
        obtain rfl := Option.some.inj hquote
        obtain rfl : '"' = c := by simpa [Rule.opens, Rule.mark] using hopens
        exact ⟨(Option.some.inj hmatch).symm, _, Literal.scanString?_cons _ cs,
          String.toList_ofList⟩
      | char =>
        obtain rfl := Option.some.inj hquote
        obtain rfl : '\'' = c := by simpa [Rule.opens, Rule.mark] using hopens
        exact ⟨(Option.some.inj hmatch).symm, _, Literal.scanString?_cons _ cs,
          String.toList_ofList⟩
      | _ => cases hquote

/-! ### All pieces of a text -/

/-- The pieces of a text are its lexemes at their places, and the end of the input. -/
theorem Piece.placed_eq_pieces (p : Position) (ls : List Lexeme) :
    placed p ls = (piecesAt p ls).map (fun piece =>
        ⟨piece.1.kind, String.ofList piece.1.text, piece.1.spanAt piece.2⟩) ++
      [⟨.token .eof, "", Span.empty (p.after (lexemesText ls))⟩] := by
  induction ls generalizing p with
  | nil => rfl
  | cons l ls ih =>
    rw [placed, ih, lexemesText_cons, Position.after_append]
    rfl

/-- A piece of a text other than the end of the input is the first one of what is left of the text
where it starts. -/
theorem exists_first_of_mem_pieces {source : String} {p : Piece}
    (h : p ∈ (tokenize source).stream.pieces) (hkind : p.kind ≠ .token .eof) :
    ∃ before c cs, source.toList = before ++ c :: cs ∧
      p = ⟨(Lexeme.first c cs).kind, String.ofList (Lexeme.first c cs).text,
        (Lexeme.first c cs).spanAt (Position.start.after before)⟩ := by
  rw [tokenize, pieces_ofLexemes _ _ fun l hl => (lexeme_proper hl).1,
    Piece.placed_eq_pieces] at h
  rcases List.mem_append.mp h with hmem | heof
  · obtain ⟨piece, hpiece, rfl⟩ := List.mem_map.mp hmem
    obtain ⟨before, c, cs, htext, rfl⟩ := exists_of_mem_piecesAt hpiece
    exact ⟨before, c, cs, htext, rfl⟩
  · rw [List.mem_singleton.mp heof] at hkind
    exact absurd rfl hkind

/-- **The first match is the longest match.**  Where a piece of a text starts, no rule matches more
than the first one that matches.  The piece is what that rule matches, or, of a literal, what
reading the literal takes up from there.  White space, names, reserved words, numbers and comments
up to the end of the line are followed by no character that they could go on with. -/
theorem first_match_longest (source : String) :
    ∀ p ∈ (tokenize source).stream.pieces, p.kind ≠ .token .eof →
      ∃ before cs behind, splitAtByte? p.span.start.offset source.toList = some (before, cs) ∧
        p.CutOff cs ∧ cs = p.text.toList ++ behind ∧
        ∀ x ∈ behind.head?, p.kind.goesOn x = false := by
  intro p hp hkind
  obtain ⟨before, c, cs, hsource, rfl⟩ := exists_first_of_mem_pieces hp hkind
  obtain ⟨-, behind, hbehind⟩ := Lexeme.first_text c cs
  have hoffset : (Position.start.after before).offset = byteLength before := by
    rw [Position.offset_after]
    exact Nat.zero_add _
  refine ⟨before, c :: cs, behind, ?_, Lexeme.cutOff_first c cs _, ?_, Lexeme.first_stops hbehind⟩
  · rw [hsource]
    show splitAtByte? (Position.start.after before).offset _ = _
    rw [hoffset, splitAtByte?_append]
  · rw [String.toList_ofList, hbehind]

/-- Marks that start alike, right behind each other. -/
theorem first_match_longest_marks :
    (⟨.token (.symbol .shiftRight), ">>", ⟨⟨3, 1, 4⟩, ⟨5, 1, 6⟩⟩⟩ : Piece) ∈
        (tokenize "x=>>>=1//").stream.pieces ∧
      ∃ before cs behind, splitAtByte? 3 "x=>>>=1//".toList = some (before, cs) ∧
        Piece.CutOff ⟨.token (.symbol .shiftRight), ">>", ⟨⟨3, 1, 4⟩, ⟨5, 1, 6⟩⟩⟩ cs ∧
        cs = ">>".toList ++ behind ∧
        ∀ x ∈ behind.head?, (PieceKind.token (.symbol .shiftRight)).goesOn x = false := by
  have hmem : (⟨.token (.symbol .shiftRight), ">>", ⟨⟨3, 1, 4⟩, ⟨5, 1, 6⟩⟩⟩ : Piece) ∈
      (tokenize "x=>>>=1//").stream.pieces := by
    rw [tokenize, pieces_ofLexemes _ _ fun l hl => (lexeme_proper hl).1]
    decide +kernel
  exact ⟨hmem, first_match_longest _ _ hmem (by decide)⟩

end FrontEnd
