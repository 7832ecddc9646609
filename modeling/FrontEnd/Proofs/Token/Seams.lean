/-
Where one piece ends and another text begins.

A piece that is not white space is told by its own characters and by the one behind it: that one
ends a name, a number and a comment up to the end of the line, and it shows that a mark is not the
start of a longer one.  So a piece stays what it is if the text behind it is replaced by one that
starts with the same character, or with one that cannot go on with it.

* `Lexeme.EndsBefore` — a character that the piece does not go on with;
* `Lexeme.first_seam` — the first piece of a text with another text behind it;
* `lexemes_seam`, `lexemes_mark` — the same for the pieces of a text, and for a mark put in.

A slash and a star are an exception: further letters decide whether they start a comment.
-/
import FrontEnd.Proofs.Token.Blanks

namespace FrontEnd

/-- A run of leading characters that ends before one text ends before another. -/
theorem takeWhile_seam {p : Char → Bool} {run behind behind' : List Char}
    (h : (run ++ behind).takeWhile p = run) (hstop : ∀ x ∈ behind'.head?, p x = false) :
    (run ++ behind').takeWhile p = run := by
  have hrun : ∀ x ∈ run, p x := by
    intro x hx
    rw [← h] at hx
    exact List.all_eq_true.mp List.all_takeWhile x hx
  rw [List.takeWhile_append_of_pos hrun]
  cases behind' with
  | nil => simp
  | cons x xs => simp [hstop x rfl]

/-- The character behind a run of leading characters is not in the run. -/
theorem head?_of_takeWhile {p : Char → Bool} {run behind : List Char}
    (h : (run ++ behind).takeWhile p = run) : ∀ x ∈ behind.head?, p x = false := by
  have hrun : ∀ x ∈ run, p x := by
    intro x hx
    rw [← h] at hx
    exact List.all_eq_true.mp List.all_takeWhile x hx
  rw [List.takeWhile_append_of_pos hrun] at h
  cases behind with
  | nil => simp
  | cons x xs =>
    rintro _ ⟨⟩
    rw [← Bool.not_eq_true]
    intro hx
    simp [hx] at h

/-! ### Which rule matches -/

/-- The piece does not go on with the character. -/
inductive Lexeme.EndsBefore (l : Lexeme) (x : Char) : Prop
  | comment (hl : l.kind = .trivia (.comment .block))
  | symbol {s : Symbol} (hl : l.kind = .token (.symbol s))
    (hx : ∀ rule : Rule, rule.mark ≠ s.spelling.toList ++ [x])
  | token {k : Kind} (hl : l.kind = .token k) (hk : ∀ s, k ≠ .symbol s)
    (hword : continuesWord x = false) (hnumber : Text.isDecimal x = false)

namespace Rule

/-- The first rule that matches is the same if none before it comes to match. -/
theorem first?_seam {cs cs' matched : List Char} {rule : Rule} (h : first? cs = some (rule, matched))
    (hnone : ∀ r : Rule, r.match? cs = none → r.match? cs' = none)
    (hsame : rule.match? cs' = some matched) : first? cs' = some (rule, matched) := by
  obtain ⟨before, r, behind, htable, hr, hbefore⟩ := List.findSome?_eq_some_iff.mp h
  obtain ⟨run, hrun, heq⟩ := Option.map_eq_some_iff.mp hr
  obtain ⟨rfl, rfl⟩ := Prod.mk.inj heq
  refine List.findSome?_eq_some_iff.mpr ⟨before, r, behind, htable, by rw [hsame]; rfl, ?_⟩
  intro r' hr'
  rw [hnone r' (Option.map_eq_none_iff.mp (hbefore r' hr'))]
  rfl

/-- Marks have at most two characters, and those that have two start with none that anything else
starts with. -/
theorem mark_cases (rule : Rule) :
    rule.mark = [] ∨ (∃ c, rule.mark = [c]) ∨ ∃ c d, rule.mark = [c, d] ∧
      startsWord c = false ∧ Text.isDecimal c = false ∧ c ≠ '"' ∧ c ≠ '\'' := by
  cases rule with
  | symbol s =>
    cases s <;> first
      | exact .inr (.inl ⟨_, rfl⟩)
      | exact .inr (.inr ⟨_, _, rfl, by decide +kernel⟩)
  | lineComment | blockComment => exact .inr (.inr ⟨_, _, rfl, by decide +kernel⟩)
  | string | char => exact .inr (.inl ⟨_, rfl⟩)
  | whitespace | word | number => exact .inl rfl

theorem isPrefixOf_of_match?_none {rule : Rule} {cs : List Char} (hblock : rule ≠ blockComment)
    (hmark : rule.mark ≠ []) (h : rule.match? cs = none) : rule.mark.isPrefixOf cs = false := by
  rw [← Bool.not_eq_true]
  intro hprefix
  obtain ⟨tail, rfl⟩ := List.isPrefixOf_iff_prefix.mp hprefix
  cases rule with
  | blockComment => exact hblock rfl
  | whitespace | word | number => exact hmark rfl
  | lineComment | string | char => simp [match?, mark] at h
  | symbol s => simp [match?, mark] at h

theorem isPrefixOf_of_match? {rule : Rule} {cs run : List Char} (h : rule.match? cs = some run) :
    rule.mark.isPrefixOf cs := by
  cases hmark : rule.mark.isPrefixOf cs with
  | true => rfl
  | false => cases (match?_eq_none hmark).symm.trans h

/-- A block comment is matched whatever stands behind it. -/
theorem match?_blockComment {cs run : List Char} (h : blockComment.match? cs = some run) :
    ['/', '*'] <+: run ∧ ∀ behind, blockComment.match? (run ++ behind) = some run := by
  obtain ⟨tail, rfl⟩ := List.isPrefixOf_iff_prefix.mp (isPrefixOf_of_match? h)
  obtain ⟨letters, hletters, hend⟩ := Option.bind_eq_some_iff.mp h
  split at hend
  · obtain rfl := Option.some.inj hend
    obtain ⟨hne, rfl⟩ := leading?_eq_some hletters
    refine ⟨⟨_, rfl⟩, fun behind => ?_⟩
    generalize hrun : List.takeWhile inBlockComment _ = letters at hne
    have hall : ∀ x ∈ letters, inBlockComment x := by
      intro x hx
      rw [← hrun] at hx
      exact List.all_eq_true.mp List.all_takeWhile x hx
    have hleading : leading? inBlockComment (letters ++ '*' :: '/' :: behind) = some letters := by
      have htake : (letters ++ '*' :: '/' :: behind).takeWhile inBlockComment = letters := by
        rw [List.takeWhile_append_of_pos hall]
        simp [show inBlockComment '*' = false by decide]
      unfold leading?
      rw [htake]
      split
      · exact absurd rfl hne
      · rfl
    simp only [List.cons_append, List.append_assoc, List.nil_append, match?, hleading,
      Option.bind_some, List.drop_left]
    simp [List.isPrefixOf]
  · cases hend

/-- A rule that does not match the one text does not match the other. -/
theorem none_seam {c : Char} {cs cs' : List Char}
    (hmark : ∀ rule : Rule, rule.mark.isPrefixOf (c :: cs') → rule.mark.isPrefixOf (c :: cs))
    (hblock : blockComment.match? (c :: cs) = none → blockComment.match? (c :: cs') = none)
    (rule : Rule) (h : rule.match? (c :: cs) = none) : rule.match? (c :: cs') = none := by
  by_cases hrule : rule = blockComment
  · exact hrule ▸ hblock (hrule ▸ h)
  by_cases hempty : rule.mark = []
  · refine match?_of_opens ?_ cs'
    rw [← Bool.not_eq_true]
    intro hopens
    cases rule with
    | whitespace | word | number => simp_all [opens, match?, leading?]
    | symbol s => exact s.spelling_ne_nil hempty
    | _ => simp [mark] at hempty
  · refine match?_eq_none ?_
    rw [← Bool.not_eq_true]
    intro hprefix
    have hnot := isPrefixOf_of_match?_none hrule hempty h
    exact absurd (hmark rule hprefix) (by simp [hnot])

end Rule

namespace Lexeme

variable {c : Char} {cs run behind behind' : List Char}

/-! ### How a piece starts -/

/-- A token that is no mark starts like a name, a number or a literal. -/
theorem first_token {k : Kind} (h : (first c cs).kind = .token k) (hk : ∀ s, k ≠ .symbol s) :
    startsWord c ∨ Text.isDecimal c ∨ c = '"' ∨ c = '\'' := by
  unfold first at h
  split at h
  · simp [skipped] at h
  · next rule matched hrule =>
    have hopens := Rule.opens_of_match? (Rule.first?_eq_some hrule)
    cases rule with
    | whitespace | lineComment | blockComment => simp [trivia] at h
    | word => exact .inl hopens
    | number => exact .inr (.inl hopens)
    | string => exact .inr (.inr (.inl (by simpa [Rule.opens, Rule.mark, eq_comm] using hopens)))
    | char => exact .inr (.inr (.inr (by simpa [Rule.opens, Rule.mark, eq_comm] using hopens)))
    | symbol s =>
      obtain rfl : Kind.symbol s = k := by simpa [token] using h
      exact absurd rfl (hk s)

/-- A block comment starts with its mark. -/
theorem first_blockComment (h : (first c cs).kind = .trivia (.comment .block)) :
    ['/', '*'] <+: (first c cs).text := by
  unfold first at h ⊢
  split at h
  · simp [skipped] at h
  · next rule matched hrule =>
    have hmatch := Rule.first?_eq_some hrule
    cases rule with
    | blockComment => exact (Rule.match?_blockComment hmatch).1
    | lineComment =>
      simp only [trivia, PieceKind.trivia.injEq, TriviaKind.comment.injEq] at h
      split at h <;> cases h
    | whitespace | word | number | string | char | symbol =>
      simp [trivia, token, stringLiteral, charLiteral] at h

/-! ### What follows a piece -/

/-- What the text starts with when the piece is followed by another text, it starts with before. -/
theorem mark_seam (hcut : (first c (run ++ behind)).text = c :: run)
    (hseam : behind'.head? = behind.head? ∨
      ∃ x, behind'.head? = some x ∧ (first c (run ++ behind)).EndsBefore x)
    (rule : Rule) (h : rule.mark.isPrefixOf (c :: (run ++ behind'))) :
    rule.mark.isPrefixOf (c :: (run ++ behind)) := by
  obtain hmark | ⟨d, hmark⟩ | ⟨d, e, hmark, hword, hnumber, hstring, hchar⟩ := rule.mark_cases
  · simp [hmark]
  · simpa [hmark] using h
  cases run with
  | cons r run => simpa [hmark] using h
  | nil =>
    rw [hmark] at h ⊢
    obtain ⟨rest, hrest⟩ := List.isPrefixOf_iff_prefix.mp h
    obtain ⟨rfl, htail⟩ := List.cons.inj hrest
    have hhead : behind'.head? = some e := congrArg List.head? htail.symm
    rw [hhead] at hseam
    obtain hsame | ⟨x, hx, hends⟩ := hseam
    · obtain ⟨tail, rfl⟩ : ∃ tail, behind = e :: tail := by
        cases behind with
        | nil => cases hsame
        | cons x tail => exact ⟨tail, by rw [Option.some.inj hsame]⟩
      simp
    · -- The two characters would be a mark that the piece is the start of.
      obtain rfl := Option.some.inj hx
      cases hends with
      | comment hl =>
        obtain ⟨tail, htail⟩ := first_blockComment hl
        rw [hcut] at htail
        cases htail
      | @symbol m hl hx =>
        rw [first_symbol hl] at hcut
        have hspelling : m.spelling.toList = [d] := hcut
        exact absurd (hmark.trans (by rw [hspelling]; rfl)) (hx rule)
      | token hl hk =>
        obtain hstart | hstart | hstart | hstart := first_token hl hk
        · simp [hword] at hstart
        · simp [hnumber] at hstart
        · exact absurd hstart hstring
        · exact absurd hstart hchar

/-- A run of leading characters is one before another text too, which starts in the same way or
with a character that neither the piece nor the run goes on with. -/
theorem takeWhile_same {p : Char → Bool} {cs : List Char} {l : Lexeme}
    (h : (cs ++ behind).takeWhile p = cs)
    (hseam : behind'.head? = behind.head? ∨ ∃ x, behind'.head? = some x ∧ l.EndsBefore x)
    (hends : ∀ x, l.EndsBefore x → p x = false) : (cs ++ behind').takeWhile p = cs := by
  refine takeWhile_seam h fun x hx => ?_
  obtain hsame | ⟨y, hy, hy'⟩ := hseam
  · exact head?_of_takeWhile h x (hsame ▸ hx)
  · obtain rfl := Option.some.inj (hx.symm.trans hy)
    exact hends x hy'

/-- A line comment goes up to the end of its line, and so ends where the text does. -/
theorem lineComment_seam
    (hmatch : Rule.lineComment.match? (c :: (run ++ behind)) = some (c :: run))
    (hsame : behind'.head? = behind.head?) :
    Rule.lineComment.match? (c :: (run ++ behind')) = some (c :: run) := by
  obtain ⟨tail, htail⟩ := List.isPrefixOf_iff_prefix.mp (Rule.isPrefixOf_of_match? hmatch)
  obtain ⟨rfl, hrest⟩ := List.cons.inj htail
  have hrest : '/' :: tail = run ++ behind := hrest
  rw [← hrest] at hmatch
  obtain rfl : '/' :: tail.takeWhile (· != '\n') = run :=
    (List.cons.inj (Option.some.inj hmatch)).2
  have htake := congrArg (List.takeWhile (· != '\n')) (List.cons.inj hrest).2.symm
  have hagain := takeWhile_seam htake fun x hx => head?_of_takeWhile htake x (hsame ▸ hx)
  show some ('/' :: '/' :: (tail.takeWhile (· != '\n') ++ behind').takeWhile (· != '\n')) = _
  rw [hagain]

/-- The rule that a piece is cut by matches it with any text behind it that does not go on with
it. -/
theorem same_seam {rule : Rule} {matched : List Char}
    (hc : Unicode.isWhiteSpace c = false)
    (hrule : Rule.first? (c :: (run ++ behind)) = some (rule, matched))
    (hcut : (first c (run ++ behind)).text = c :: run)
    (hseam : behind'.head? = behind.head? ∨
      ∃ x, behind'.head? = some x ∧ (first c (run ++ behind)).EndsBefore x) :
    rule.match? (c :: (run ++ behind')) = some matched := by
  have hmatch := Rule.first?_eq_some hrule
  have hopens := Rule.opens_of_match? hmatch
  unfold first at hcut hseam
  rw [hrule] at hcut hseam
  cases rule with
  | whitespace => simp [Rule.opens, hc] at hopens
  | lineComment =>
    obtain rfl : matched = c :: run := hcut
    refine lineComment_seam hmatch (hseam.resolve_right ?_)
    rintro ⟨x, -, hends⟩
    cases hends with
    | comment hl =>
      simp only [trivia, PieceKind.trivia.injEq, TriviaKind.comment.injEq] at hl
      split at hl <;> cases hl
    | symbol hl => cases hl
    | token hl => cases hl
  | blockComment =>
    have hcut : matched = c :: run := hcut
    have hagain := (Rule.match?_blockComment hmatch).2 behind'
    rwa [hcut, List.cons_append, ← hcut] at hagain
  | word =>
    have hstart : startsWord c := hopens
    have hmatched : matched = c :: run := hcut
    simp only [Rule.match?, hstart, if_true] at hmatch ⊢
    have htake := (List.cons.inj ((Option.some.inj hmatch).trans hmatched)).2
    rw [hmatched, takeWhile_same htake hseam fun x hends => ?_]
    cases hends with
    | comment hl => cases hl
    | symbol hl =>
      simp only [token, PieceKind.token.injEq, Kind.ofWord] at hl
      split at hl <;> cases hl
    | token _ _ hword => exact hword
  | number =>
    have hmatched : matched = c :: run := hcut
    obtain ⟨hne, htake⟩ := leading?_eq_some hmatch
    rw [hmatched, ← List.cons_append] at htake
    have hagain : ((c :: run) ++ behind').takeWhile Text.isDecimal = c :: run := by
      refine takeWhile_same htake.symm hseam fun x hends => ?_
      cases hends with
      | comment hl => cases hl
      | symbol hl => cases hl
      | token _ _ _ hnumber => exact hnumber
    rw [← List.cons_append]
    simp only [Rule.match?, leading?]
    rw [hagain, hmatched]
  | string =>
    obtain rfl : '"' = c := by simpa [Rule.opens, Rule.mark] using hopens
    exact hmatch
  | char =>
    obtain rfl : '\'' = c := by simpa [Rule.opens, Rule.mark] using hopens
    exact hmatch
  | symbol s =>
    have hmatched : matched = c :: run := hcut
    have hspelling : s.spelling.toList = matched := by
      simp only [Rule.match?] at hmatch
      split at hmatch
      · exact Option.some.inj hmatch
      · cases hmatch
    simp only [Rule.match?, hspelling, hmatched, ← List.cons_append]
    simp

/-- A slash and a star that a piece starts with are those of a comment, if they are not two
pieces. -/
theorem blockComment_seam (hcut : (first c (run ++ behind)).text = c :: run)
    (hapart : c :: run = ['/'] → behind.head? ≠ some '*')
    (hmark : ∀ rule : Rule, rule.mark.isPrefixOf (c :: (run ++ behind')) →
      rule.mark.isPrefixOf (c :: (run ++ behind)))
    (h : Rule.blockComment.match? (c :: (run ++ behind)) = none) :
    Rule.blockComment.match? (c :: (run ++ behind')) = none := by
  refine Rule.match?_eq_none ?_
  rw [← Bool.not_eq_true]
  intro hprefix
  obtain ⟨tail, htail⟩ := List.isPrefixOf_iff_prefix.mp (hmark .blockComment hprefix)
  obtain ⟨rfl, hrest⟩ := List.cons.inj htail
  have hrest : '*' :: tail = run ++ behind := hrest
  rw [← hrest] at h hcut
  rw [first_slash_star, h] at hcut
  obtain rfl : [] = run := (List.cons.inj hcut).2
  exact hapart rfl (by rw [← List.nil_append behind, ← hrest]; rfl)

/-- **A piece ends where it ends.**  One without problems that is not white space stays the same
if the text behind it is replaced by one that starts with the same character, or with one that
does not go on with the piece. -/
theorem first_seam (hc : Unicode.isWhiteSpace c = false)
    (hcut : (first c (run ++ behind)).text = c :: run)
    (hsound : (first c (run ++ behind)).problems = [])
    (hapart : c :: run = ['/'] → behind.head? ≠ some '*')
    (hseam : behind'.head? = behind.head? ∨
      ∃ x, behind'.head? = some x ∧ (first c (run ++ behind)).EndsBefore x) :
    first c (run ++ behind') = first c (run ++ behind) := by
  have hmark := mark_seam hcut hseam
  have hnone := Rule.none_seam hmark (blockComment_seam hcut hapart hmark)
  cases hrule : Rule.first? (c :: (run ++ behind)) with
  | none =>
    unfold first at hsound
    rw [hrule] at hsound
    cases hsound
  | some found =>
    obtain ⟨rule, matched⟩ := found
    have hrule' := Rule.first?_seam hrule hnone (same_seam hc hrule hcut hseam)
    have hopens := Rule.opens_of_match? (Rule.first?_eq_some hrule)
    unfold first at hcut hsound ⊢
    rw [hrule] at hcut hsound
    rw [hrule, hrule']
    -- A literal without problems has its closing quote, and ends there.
    cases rule with
    | string =>
      obtain rfl : '"' = c := by simpa [Rule.opens, Rule.mark] using hopens
      have hscan := Literal.scan_raw_append (.inl rfl) (Literal.terminated_of_problems hsound)
        ((List.append_nil _).trans hcut) behind'
      simp only [stringLiteral, hscan]
    | char =>
      obtain rfl : '\'' = c := by simpa [Rule.opens, Rule.mark] using hopens
      have hterm := Literal.terminated_of_problems (List.append_eq_nil_iff.mp hsound).1
      have hscan := Literal.scan_raw_append (.inr rfl) hterm ((List.append_nil _).trans hcut) behind'
      simp only [charLiteral, hscan]
    | _ => rfl

/-- White space at the start of a text holds nothing else. -/
theorem white_of_first (h : (first c cs).kind = .trivia .whitespace) :
    ∀ d ∈ (first c cs).text, Unicode.isWhiteSpace d := by
  have hc : Unicode.isWhiteSpace c := by
    unfold first at h
    split at h
    · simp [skipped] at h
    · next rule matched hrule =>
      have hopens := Rule.opens_of_match? (Rule.first?_eq_some hrule)
      cases rule with
      | whitespace => exact hopens
      | lineComment | blockComment | word | number | string | char | symbol =>
        simp [trivia, token, stringLiteral, charLiteral] at h
  rw [first_white hc]
  intro d hd
  rcases List.mem_cons.mp hd with rfl | hd
  · exact hc
  · exact List.all_eq_true.mp List.all_takeWhile d hd

/-- A space, a comma, a semicolon and a line feed end every token. -/
theorem endsBefore_token {l : Lexeme} {k : Kind} (hl : l.kind = .token k) {x : Char}
    (hx : x ∈ [' ', ',', ';', '\n']) : l.EndsBefore x := by
  have htail : ∀ rule : Rule, x ∉ rule.mark.tail := by
    intro rule
    simp only [List.mem_cons, List.not_mem_nil, or_false] at hx
    cases rule with
    | symbol s => rcases hx with rfl | rfl | rfl | rfl <;> cases s <;> decide
    | _ => rcases hx with rfl | rfl | rfl | rfl <;> decide
  by_cases hk : ∃ s, k = .symbol s
  · obtain ⟨s, rfl⟩ := hk
    refine .symbol hl fun rule hmark => htail rule ?_
    rw [hmark, List.tail_append_of_ne_nil s.spelling_ne_nil]
    simp
  · refine .token hl (fun s hs => hk ⟨s, hs⟩) ?_ ?_ <;>
      simp only [List.mem_cons, List.not_mem_nil, or_false] at hx <;>
      rcases hx with rfl | rfl | rfl | rfl <;> decide +kernel

/-- A bar, a colon and a dot end a name and a number. -/
theorem endsBefore_word {l : Lexeme} {k : Kind} (hl : l.kind = .token k)
    (hk : k = .number ∨ k = .identifier) {x : Char} (hx : x ∈ ['|', ':', '.']) :
    l.EndsBefore x := by
  refine .token hl (fun s hs => by rcases hk with rfl | rfl <;> cases hs) ?_ ?_ <;>
    simp only [List.mem_cons, List.not_mem_nil, or_false] at hx <;>
    rcases hx with rfl | rfl | rfl <;> decide +kernel

end Lexeme

/-! ### The pieces of a text -/

section

variable {p : Position} {l : Lexeme} {ls : List Lexeme} {text : List Char}

/-- The first piece of a text and the characters behind it. -/
theorem exists_first (hlex : lexemes (lexemesText (l :: ls)) = l :: ls) :
    ∃ c run, l.text = c :: run ∧ Lexeme.first c (run ++ lexemesText ls) = l ∧
      lexemes (lexemesText ls) = ls := by
  have hne : l.text ≠ [] := by
    have hmem : l ∈ lexemes (lexemesText (l :: ls)) := by
      rw [hlex]
      exact List.mem_cons_self
    exact (lexeme_proper hmem).1
  have hnil : lexemes (lexemesText (l :: ls) ++ []) = l :: ls := by rwa [List.append_nil]
  obtain ⟨c, cs, hpre, hfirst, htail⟩ := lexemes_uncons hnil
  obtain ⟨d, run, hrun⟩ := List.exists_cons_of_ne_nil hne
  rw [hrun] at hpre
  obtain ⟨rfl, rfl⟩ := List.cons.inj hpre
  rw [List.append_nil] at hfirst htail
  exact ⟨d, run, hrun, hfirst, htail⟩

/-- A slash and a star that are pieces of their own are tokens next to each other. -/
theorem head?_of_apart (hlex : lexemes (lexemesText (l :: ls)) = l :: ls)
    (hapart : (placedTokens p (l :: ls)).IsChain Token.Apart) (hslash : l.text = ['/']) :
    (lexemesText ls).head? ≠ some '*' := by
  intro hstar
  obtain ⟨c, run, hrun, hfirst, htail⟩ := exists_first hlex
  obtain ⟨rfl, rfl⟩ := List.cons.inj (hrun.symm.trans hslash)
  obtain ⟨tail, hbehind⟩ : ∃ tail, lexemesText ls = '*' :: tail := by
    cases hls : lexemesText ls with
    | nil => rw [hls] at hstar; cases hstar
    | cons x tail =>
      rw [hls] at hstar
      exact ⟨tail, by rw [Option.some.inj hstar]⟩
  rw [hbehind, List.nil_append, Lexeme.first_slash_star] at hfirst
  cases hblock : Rule.blockComment.match? ('/' :: '*' :: tail) with
  | some run =>
    rw [hblock] at hfirst
    obtain ⟨rest, hrest⟩ := (Rule.match?_blockComment hblock).1
    rw [← hfirst] at hslash
    have hslash : run = ['/'] := hslash
    rw [hslash] at hrest
    cases hrest
  | none =>
    rw [hblock] at hfirst
    rw [hbehind, lexemes, Lexeme.first_star] at htail
    rw [← hfirst, ← htail] at hapart
    exact absurd ⟨rfl, rfl⟩ (List.isChain_cons_cons.mp hapart).1

/-- The first piece stays the same with another text behind it that does not go on with it. -/
theorem lexemes_seam (hlex : lexemes (lexemesText (l :: ls)) = l :: ls)
    (hwhite : l.kind ≠ .trivia .whitespace) (hsound : l.problems = [])
    (hapart : (placedTokens p (l :: ls)).IsChain Token.Apart)
    (hseam : text.head? = (lexemesText ls).head? ∨
      ∃ x, text.head? = some x ∧ l.EndsBefore x) :
    lexemes (l.text ++ text) = l :: lexemes text := by
  obtain ⟨c, run, hrun, hfirst, -⟩ := exists_first hlex
  have hc : Unicode.isWhiteSpace c = false := by
    rw [← Bool.not_eq_true]
    intro hc
    rw [← hfirst, Lexeme.first_white hc] at hwhite
    exact hwhite rfl
  have hsame : Lexeme.first c (run ++ text) = l := by
    rw [← hfirst] at hrun hsound hseam
    refine (Lexeme.first_seam hc hrun hsound (fun hslash => ?_) hseam).trans hfirst
    exact head?_of_apart hlex hapart (by rw [← hfirst, hrun, hslash])
  exact lexemes_of_first (by rw [hrun, List.cons_append]) hsame

/-- A mark that nothing is the start of a longer one with is a piece of its own. -/
theorem lexemes_mark {m : Symbol} (hm : m ∈ [Symbol.comma, .semicolon, .pipe, .colonColon, .dot])
    (hx : ∀ x ∈ text.head?, x ≠ '|' ∧ x ≠ '.') :
    lexemes (m.spelling.toList ++ text) =
      Lexeme.token (.symbol m) m.spelling.toList :: lexemes text := by
  obtain ⟨c, run, hspelling⟩ := List.exists_cons_of_ne_nil m.spelling_ne_nil
  -- Alone the mark is a piece without problems, and none of the longer marks starts with it.
  have halone : Lexeme.first c (run ++ []) = Lexeme.token (.symbol m) (c :: run) ∧
      Unicode.isWhiteSpace c = false ∧ c ≠ '/' ∧
      ∀ (rule : Rule) (x : Char), rule.mark = m.spelling.toList ++ [x] → x = '|' ∨ x = '.' := by
    have hmark : ∀ (rule : Rule) (x : Char), rule.mark = m.spelling.toList ++ [x] →
        x = '|' ∨ x = '.' := by
      intro rule x hmark
      simp only [List.mem_cons, List.not_mem_nil, or_false] at hm
      cases rule with
      | symbol s =>
        rcases hm with rfl | rfl | rfl | rfl | rfl <;> cases s <;>
          simp [Rule.mark, Symbol.spelling] at hmark <;> simp [← hmark]
      | _ => rcases hm with rfl | rfl | rfl | rfl | rfl <;> simp [Rule.mark, Symbol.spelling] at hmark
    simp only [List.mem_cons, List.not_mem_nil, or_false] at hm
    rcases hm with rfl | rfl | rfl | rfl | rfl <;> obtain ⟨rfl, rfl⟩ := List.cons.inj hspelling <;>
      exact ⟨by decide +kernel, by decide +kernel, by decide, hmark⟩
  obtain ⟨hfirst, hc, hslash, hmark⟩ := halone
  have hsame : Lexeme.first c (run ++ text) = Lexeme.first c (run ++ []) := by
    refine Lexeme.first_seam hc (by rw [hfirst]; rfl) (by rw [hfirst]; rfl)
      (fun heq => absurd (List.cons.inj heq).1 hslash) ?_
    cases text with
    | nil => exact .inl rfl
    | cons x tail =>
      obtain ⟨hbar, hdot⟩ := hx x rfl
      refine .inr ⟨x, rfl, .symbol (s := m) (by rw [hfirst]; rfl) fun rule heq => ?_⟩
      rcases hmark rule x heq with rfl | rfl
      · exact hbar rfl
      · exact hdot rfl
  rw [hspelling]
  exact lexemes_of_first rfl (hsame.trans hfirst)

theorem placedTokens_white_append {run : List Char} (h : ∀ c ∈ run, Unicode.isWhiteSpace c)
    (p : Position) (text : List Char) :
    placedTokens p (lexemes (run ++ text)) = placedTokens (p.after run) (lexemes text) := by
  rw [placedTokens_eq_solids, solids_white_append h, ← placedTokens_eq_solids]

theorem placedProblems_white_append {run : List Char} (h : ∀ c ∈ run, Unicode.isWhiteSpace c)
    (p : Position) (text : List Char) :
    placedProblems p (lexemes (run ++ text)) = placedProblems (p.after run) (lexemes text) := by
  rw [placedProblems_eq_solids _ fun _ => problems_white, solids_white_append h,
    ← placedProblems_eq_solids _ fun _ => problems_white]

end

end FrontEnd
