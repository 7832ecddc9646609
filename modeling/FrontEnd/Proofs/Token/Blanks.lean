/-
A space in the place of a semicolon.

A semicolon is a piece of its own wherever it is not part of a comment or of a literal.  A space
in its place ends the piece before it as the semicolon did, and is white space itself.  So the
other pieces stay what they were, where they were.

There is one exception.  A block comment holds letters and spaces only: a slash and a star, some
letters and a semicolon are no comment, but with a space for the semicolon they can be the start
of one.  A slash and a star that are tokens next to each other are therefore left out.

* `Lexeme.first_blank` — a piece that ends before the semicolon is the same with a space there;
* `solids_blank` — so are all pieces before it, white space apart, and those behind it;
* `exists_semicolon` — a token that is a semicolon cuts the text and its pieces in two;
* `SemicolonCut.placedTokens_blanked`, `SemicolonCut.placedComments_blanked`,
  `SemicolonCut.placedProblems_blanked` — the tokens without it, the comments and what is wrong.
-/
import FrontEnd.Proofs.Token.Problems
import Mathlib.Data.List.Chain

namespace FrontEnd

namespace Rule

/-- What a rule goes on with behind its mark, comments apart, is neither a semicolon nor a
space. -/
theorem goesOn_blank {rule : Rule} {stop : Char} (hstop : stop = ';' ∨ stop = ' ')
    (hline : rule ≠ .lineComment) (hblock : rule ≠ .blockComment) : rule.goesOn stop = false := by
  cases rule with
  | lineComment => exact absurd rfl hline
  | blockComment => exact absurd rfl hblock
  | word => rcases hstop with rfl | rfl <;> decide
  | number => rcases hstop with rfl | rfl <;> decide
  | _ => rfl

theorem blank_not_mem_mark {stop : Char} (hstop : stop = ';' ∨ stop = ' ') (rule : Rule) :
    stop ∉ rule.mark.tail := by
  cases rule with
  | symbol s => rcases hstop with rfl | rfl <;> cases s <;> decide
  | _ => rcases hstop with rfl | rfl <;> decide

/-- Where no comment starts, the rule that matches is the same with a semicolon and with a
space. -/
theorem first?_blank {c : Char} (hc : Unicode.isWhiteSpace c = false) {cs : List Char}
    (hline : ¬ ['/', '/'] <+: c :: cs) (hblock : ¬ ['/', '*'] <+: c :: cs) (post : List Char) :
    first? (c :: (cs ++ ' ' :: post)) = first? (c :: (cs ++ ';' :: post)) := by
  have hgoes : ∀ stop, stop = ';' ∨ stop = ' ' → ∀ rule : Rule,
      rule.mark.isPrefixOf (c :: cs) → rule.goesOn stop = false := by
    intro stop hstop rule hmark
    refine goesOn_blank hstop ?_ ?_
    · rintro rfl
      exact hline (List.isPrefixOf_iff_prefix.mp hmark)
    · rintro rfl
      exact hblock (List.isPrefixOf_iff_prefix.mp hmark)
  rw [first?_append_stop hc (blank_not_mem_mark (.inr rfl)) (hgoes ' ' (.inr rfl)),
    first?_append_stop hc (blank_not_mem_mark (.inl rfl)) (hgoes ';' (.inl rfl))]

/-- Whether a rule can match a text that starts with the character. -/
def opens : Rule → Char → Bool
  | whitespace, c => Unicode.isWhiteSpace c
  | word, c => startsWord c
  | number, c => Text.isDecimal c
  | rule, c => rule.mark.head? = some c

theorem match?_of_opens {rule : Rule} {c : Char} (h : rule.opens c = false) (cs : List Char) :
    rule.match? (c :: cs) = none := by
  have hmarked : ∀ d ds, rule.mark = d :: ds → d ≠ c → rule.match? (c :: cs) = none := by
    intro d ds hmark hd
    refine match?_eq_none ?_
    rw [hmark]
    simp [List.isPrefixOf, hd]
  cases rule with
  | whitespace => simp_all [opens, match?, leading?]
  | word => simp_all [opens, match?]
  | number => simp_all [opens, match?, leading?]
  | symbol s =>
    obtain ⟨d, ds, hmark⟩ := List.exists_cons_of_ne_nil s.spelling_ne_nil
    exact hmarked d ds hmark (by simpa [opens, mark, hmark] using h)
  | _ => exact hmarked _ _ rfl (by simpa [opens, mark] using h)

theorem opens_of_match? {rule : Rule} {c : Char} {cs run : List Char}
    (h : rule.match? (c :: cs) = some run) : rule.opens c := by
  cases hopens : rule.opens c with
  | true => rfl
  | false => exact nomatch (match?_of_opens hopens cs).symm.trans h

/-- Only the rules that a text can start with are tried on it. -/
theorem first?_cons (c : Char) (cs : List Char) :
    first? (c :: cs) = (table.filter (·.opens c)).findSome? fun rule =>
      (rule.match? (c :: cs)).map fun matched => (rule, matched) := by
  unfold first?
  induction table with
  | nil => rfl
  | cons rule rules ih =>
    cases hopens : rule.opens c with
    | true => simp [hopens, List.findSome?_cons, ih]
    | false => simp [hopens, match?_of_opens hopens, ih]

/-- What stands behind a block comment is not looked at. -/
theorem match?_blockComment_append {cs run : List Char}
    (h : blockComment.match? ('/' :: '*' :: cs) = some run) (ds : List Char) :
    blockComment.match? ('/' :: '*' :: (cs ++ ds)) = some run := by
  simp only [match?] at h ⊢
  obtain ⟨letters, hletters, hend⟩ := Option.bind_eq_some_iff.mp h
  split at hend
  · next hclose =>
    obtain ⟨-, rfl⟩ := leading?_eq_some hletters
    obtain ⟨tail, htail⟩ := List.isPrefixOf_iff_prefix.mp hclose
    have hsplit := takeWhile_append_drop_length inBlockComment cs
    rw [← htail, List.cons_append, List.singleton_append] at hsplit
    -- The star of the end stops the letters.
    have hsame : leading? inBlockComment (cs ++ ds) = leading? inBlockComment cs := by
      rw [← hsplit, List.append_assoc, List.cons_append, leading?_append_stop (by decide),
        leading?_append_stop (by decide)]
    have hlen := (List.takeWhile_prefix (l := cs) inBlockComment).length_le
    rw [hsame, hletters, Option.bind_some, List.drop_append_of_le_length hlen, ← htail, if_pos]
    · exact hend
    · simp [List.isPrefixOf]
  · exact absurd hend (by simp)

/-- What can start with a slash. -/
theorem opens_slash :
    table.filter (·.opens '/') = [lineComment, blockComment, symbol .slash] := by
  decide +kernel

theorem opens_star : table.filter (·.opens '*') = [symbol .star] := by decide +kernel

end Rule

namespace Lexeme

/-! ### Comments and operators -/

/-- A line comment goes up to the end of its line. -/
theorem first_lineComment (cs : List Char) :
    first '/' ('/' :: cs) =
      trivia (.comment (if (cs.takeWhile (· != '\n')).head? = some '/' then .doc else .line))
        ('/' :: '/' :: cs.takeWhile (· != '\n')) := by
  unfold first
  rw [Rule.first?_cons, Rule.opens_slash]
  rfl

/-- A line comment that ends before a place does so whatever stands there. -/
theorem first_lineComment_blank {cs rest post : List Char}
    (hcut : (first '/' ('/' :: (cs ++ ';' :: post))).text ++ rest = '/' :: '/' :: cs) :
    first '/' ('/' :: (cs ++ ' ' :: post)) = first '/' ('/' :: (cs ++ ';' :: post)) := by
  have hrun : (cs ++ ';' :: post).takeWhile (· != '\n') <+: cs := by
    rw [first_lineComment] at hcut
    exact ⟨rest, (List.cons.inj (List.cons.inj hcut).2).2⟩
  have hline : (cs.takeWhile (· != '\n')).length ≠ cs.length := by
    intro hall
    have hle := hrun.length_le
    rw [List.takeWhile_append, if_pos hall, List.length_append,
      List.takeWhile_cons_of_pos (by decide), List.length_cons] at hle
    omega
  simp only [first_lineComment, List.takeWhile_append, if_neg hline]

/-- A slash and a star start a block comment or are two tokens. -/
theorem first_slash_star (cs : List Char) :
    first '/' ('*' :: cs) = match Rule.blockComment.match? ('/' :: '*' :: cs) with
      | some run => trivia (.comment .block) run
      | none => token (.symbol .slash) ['/'] := by
  have hline : Rule.lineComment.match? ('/' :: '*' :: cs) = none := rfl
  have hslash : (Rule.symbol .slash).match? ('/' :: '*' :: cs) = some ['/'] := rfl
  unfold first
  rw [Rule.first?_cons, Rule.opens_slash]
  cases h : Rule.blockComment.match? ('/' :: '*' :: cs) with
  | some run => simp [hline, h]
  | none => simp [hline, h, hslash]

/-- A block comment that ends before a place does so whatever stands there. -/
theorem first_blockComment_blank {cs post : List Char}
    (hkind : (first '/' ('*' :: (cs ++ ';' :: post))).kind = .trivia (.comment .block)) :
    first '/' ('*' :: (cs ++ ' ' :: post)) = first '/' ('*' :: (cs ++ ';' :: post)) := by
  have hstop : Rule.blockComment.match? ('/' :: '*' :: (cs ++ ';' :: post)) =
      Rule.blockComment.match? ('/' :: '*' :: cs) :=
    @Rule.match?_append_stop .blockComment '/' ';' (by decide) (by decide) ('*' :: cs)
      (fun _ => by decide) post
  rw [first_slash_star, hstop] at hkind
  rw [first_slash_star, first_slash_star, hstop]
  cases h : Rule.blockComment.match? ('/' :: '*' :: cs) with
  | some run => rw [Rule.match?_blockComment_append h]
  | none =>
    rw [h] at hkind
    exact absurd hkind (by simp [token])

theorem first_star (cs : List Char) : first '*' cs = token (.symbol .star) ['*'] := by
  unfold first
  rw [Rule.first?_cons, Rule.opens_star]
  rfl

/-! ### The piece before a semicolon -/

/-- A piece that ends before a semicolon and has no problems is the same with a space there. -/
theorem first_blank {c : Char} (hc : Unicode.isWhiteSpace c = false) {cs rest post : List Char}
    (hcut : (first c (cs ++ ';' :: post)).text ++ rest = c :: cs)
    (hsound : (first c (cs ++ ';' :: post)).problems = [])
    (hblock : ['/', '*'] <+: c :: cs →
      (first c (cs ++ ';' :: post)).kind = .trivia (.comment .block)) :
    first c (cs ++ ' ' :: post) = first c (cs ++ ';' :: post) := by
  by_cases hline : ['/', '/'] <+: c :: cs
  · obtain ⟨tail, htail⟩ := hline
    obtain ⟨rfl, rfl⟩ := List.cons.inj htail
    exact first_lineComment_blank hcut
  by_cases hstar : ['/', '*'] <+: c :: cs
  · have hkind := hblock hstar
    obtain ⟨tail, htail⟩ := hstar
    obtain ⟨rfl, rfl⟩ := List.cons.inj htail
    exact first_blockComment_blank hkind
  have hrule := Rule.first?_blank hc hline hstar post
  unfold first at hcut hsound ⊢
  rw [hrule]
  cases hfirst : Rule.first? (c :: (cs ++ ';' :: post)) with
  | none => rfl
  | some found =>
    obtain ⟨rule, matched⟩ := found
    rw [hfirst] at hcut hsound
    have hopens := Rule.opens_of_match? (Rule.first?_eq_some hfirst)
    -- A literal without problems has its closing quote, and ends there.
    cases rule with
    | string =>
      obtain rfl : '"' = c := by simpa [Rule.opens, Rule.mark] using hopens
      have hterm := Literal.terminated_of_problems hsound
      have hscan := Literal.scan_raw_append (.inl rfl) hterm hcut (' ' :: post)
      show stringLiteral (cs ++ ' ' :: post) = stringLiteral (cs ++ ';' :: post)
      simp only [stringLiteral, hscan]
    | char =>
      obtain rfl : '\'' = c := by simpa [Rule.opens, Rule.mark] using hopens
      have hterm := Literal.terminated_of_problems (List.append_eq_nil_iff.mp hsound).1
      have hscan := Literal.scan_raw_append (.inr rfl) hterm hcut (' ' :: post)
      show charLiteral (cs ++ ' ' :: post) = charLiteral (cs ++ ';' :: post)
      simp only [charLiteral, hscan]
    | _ => rfl

end Lexeme

/-! ### The pieces around a semicolon -/

theorem solids_white_append {run : List Char} (h : ∀ c ∈ run, Unicode.isWhiteSpace c)
    (p : Position) (cs : List Char) :
    solids p (lexemes (run ++ cs)) = solids (p.after run) (lexemes cs) := by
  induction run generalizing p with
  | nil => rfl
  | cons c run ih =>
    rw [List.cons_append, solids_white (h c (by simp)), ih fun d hd => h d (by simp [hd])]
    rfl

/-- The two tokens, one right behind the other, are not a slash and a star. -/
def Token.Apart (t u : Token) : Prop := ¬ (t.kind = .symbol .slash ∧ u.kind = .symbol .star)

section

variable {p : Position} {l : Lexeme} {ls : List Lexeme} {post : List Char}

/-- A slash and a star that are not tokens next to each other start a comment. -/
theorem Lexeme.blockComment_of_apart {c : Char} {cs : List Char}
    (hpre : (first c (cs ++ ';' :: post)).text ++ lexemesText ls = c :: cs)
    (hlex : lexemes (lexemesText ls ++ ';' :: post) = ls ++ l :: lexemes post)
    (hapart : (placedTokens p (first c (cs ++ ';' :: post) :: ls)).IsChain Token.Apart)
    (hstar : ['/', '*'] <+: c :: cs) :
    (first c (cs ++ ';' :: post)).kind = .trivia (.comment .block) := by
  obtain ⟨tail, htail⟩ := hstar
  obtain ⟨rfl, rfl⟩ := List.cons.inj htail
  rw [show ['*'].append tail ++ ';' :: post = '*' :: (tail ++ ';' :: post) from rfl,
    first_slash_star] at hpre hapart ⊢
  cases h : Rule.blockComment.match? ('/' :: '*' :: (tail ++ ';' :: post)) with
  | some run => rfl
  | none =>
    -- Behind the slash the star is a token too.
    rw [h] at hpre hapart
    have hrest : lexemesText ls = '*' :: tail := (List.cons.inj hpre).2
    cases ls with
    | nil => exact absurd hrest (by simp [lexemesText])
    | cons l' ls =>
      rw [hrest, List.cons_append, lexemes, first_star] at hlex
      obtain ⟨rfl, -⟩ := List.cons.inj hlex
      exact absurd ⟨rfl, rfl⟩ (List.isChain_cons_cons.mp hapart).1

/-- The first of some pieces that a text starts with is the first piece of the text. -/
theorem lexemes_uncons {ls' : List Lexeme} {rest : List Char}
    (h : lexemes (lexemesText (l :: ls) ++ rest) = l :: ls') :
    ∃ c cs, l.text ++ lexemesText ls = c :: cs ∧ Lexeme.first c (cs ++ rest) = l ∧
      lexemes (lexemesText ls ++ rest) = ls' := by
  have hmem : l ∈ lexemes (lexemesText (l :: ls) ++ rest) := by
    rw [h]
    exact List.mem_cons_self
  obtain ⟨c, cs, hpre⟩ : ∃ c cs, l.text ++ lexemesText ls = c :: cs :=
    List.exists_cons_of_ne_nil (by simp [(lexeme_proper hmem).1])
  obtain ⟨rest', htext, hpieces⟩ := lexemes_cons c (cs ++ rest)
  rw [lexemesText_cons, hpre, List.cons_append, hpieces] at h
  obtain ⟨hfirst, htail⟩ := List.cons.inj h
  refine ⟨c, cs, hpre, hfirst, ?_⟩
  rw [hfirst, ← List.cons_append, ← hpre, List.append_assoc] at htext
  rw [← List.append_cancel_left htext, htail]

/-- A piece that a text starts with, if it is the first one. -/
theorem lexemes_of_first {c : Char} {cs rest : List Char} (hpre : l.text ++ rest = c :: cs)
    (hfirst : Lexeme.first c cs = l) : lexemes (l.text ++ rest) = l :: lexemes rest := by
  obtain ⟨rest', htext, hpieces⟩ := lexemes_cons c cs
  rw [hfirst, ← hpre] at htext
  rw [hpre, hpieces, hfirst, List.append_cancel_left htext]

theorem isChain_placedTokens_tail (h : (placedTokens p (l :: ls)).IsChain Token.Apart) :
    (placedTokens (p.after l.text) ls).IsChain Token.Apart := by
  unfold placedTokens at h
  split at h
  · exact h.tail
  · exact h

/-- The pieces before a semicolon, white space apart, and those behind it are the same with a
space in its place. -/
theorem solids_blank (hlex : lexemes (lexemesText ls ++ ';' :: post) = ls ++ l :: lexemes post)
    (hsound : ∀ l ∈ ls, l.problems = []) (hapart : (placedTokens p ls).IsChain Token.Apart) :
    solids p (lexemes (lexemesText ls ++ ' ' :: post)) =
      solids p ls ++ solids ((p.after (lexemesText ls)).next ' ') (lexemes post) := by
  induction ls generalizing p with
  | nil => exact solids_white (by decide) p post
  | cons l' ls ih =>
    obtain ⟨c, cs, hpre, rfl, htail⟩ := lexemes_uncons hlex
    have hlater := ih (p := p.after (Lexeme.first c (cs ++ ';' :: post)).text) htail
      (fun l hl => hsound l (by simp [hl])) (isChain_placedTokens_tail hapart)
    rw [lexemesText_cons, List.append_assoc, Position.after_append]
    by_cases hc : Unicode.isWhiteSpace c
    · -- White space may go on with the space.
      have hwhite := Lexeme.first_white hc (cs ++ ';' :: post)
      have hkind : (Lexeme.first c (cs ++ ';' :: post)).kind = .trivia .whitespace := by
        rw [hwhite]
        rfl
      have hrun : ∀ d ∈ (Lexeme.first c (cs ++ ';' :: post)).text, Unicode.isWhiteSpace d := by
        rw [hwhite]
        intro d hd
        rcases List.mem_cons.mp hd with rfl | hd
        · exact hc
        · exact List.all_eq_true.mp List.all_takeWhile d hd
      rw [solids_white_append hrun, solids_cons_white hkind, hlater]
    · rw [Bool.not_eq_true] at hc
      have hsame := Lexeme.first_blank hc hpre (hsound _ List.mem_cons_self)
        (Lexeme.blockComment_of_apart hpre htail hapart)
      have hpre' : (Lexeme.first c (cs ++ ';' :: post)).text ++ (lexemesText ls ++ ' ' :: post) =
          c :: (cs ++ ' ' :: post) := by
        rw [← List.append_assoc, hpre, List.cons_append]
      rw [lexemes_of_first hpre' hsame, solids_cons, hlater, solids_cons p _ ls, List.append_assoc]

end

/-! ### A semicolon among the tokens -/

theorem solids_append (p : Position) (ls ls' : List Lexeme) :
    solids p (ls ++ ls') = solids p ls ++ solids (p.after (lexemesText ls)) ls' := by
  induction ls generalizing p with
  | nil => rfl
  | cons l ls ih =>
    rw [List.cons_append, solids_cons, ih, solids_cons p l ls, lexemesText_cons,
      Position.after_append, List.append_assoc]

/-- A text that starts at `p` is cut at a token that is a semicolon: the pieces `ls` stand before
it and the text `post` behind it. -/
structure SemicolonCut (p : Position) (text : List Char) (before : List Token) (t : Token)
    (behind : List Token) (ls : List Lexeme) (post : List Char) : Prop where
  text_eq : text = lexemesText ls ++ ';' :: post
  lexemes_eq : lexemes text = ls ++ Lexeme.token (.symbol .semicolon) [';'] :: lexemes post
  before_eq : placedTokens p ls = before
  span_eq : t.span = ⟨p.after (lexemesText ls), (p.after (lexemesText ls)).next ';'⟩
  behind_eq : placedTokens ((p.after (lexemesText ls)).next ';') (lexemes post) = behind

section

variable {p : Position} {text post : List Char} {before behind : List Token} {t : Token}
  {ls : List Lexeme}

/-- One more piece before the semicolon. -/
theorem SemicolonCut.cons {c : Char} {cs rest : List Char}
    (h : SemicolonCut (p.after (Lexeme.first c cs).text) rest before t behind ls post)
    (htext : (Lexeme.first c cs).text ++ rest = c :: cs)
    (hlex : lexemes (c :: cs) = Lexeme.first c cs :: lexemes rest) :
    SemicolonCut p (c :: cs) (placedTokens p [Lexeme.first c cs] ++ before) t behind
      (Lexeme.first c cs :: ls) post where
  text_eq := by rw [lexemesText_cons, List.append_assoc, ← h.text_eq, htext]
  lexemes_eq := by rw [hlex, h.lexemes_eq, List.cons_append]
  before_eq := by
    rw [placedTokens_eq_solids, solids_cons, List.filterMap_append, ← placedTokens_eq_solids,
      ← placedTokens_eq_solids, h.before_eq]
  span_eq := by rw [lexemesText_cons, Position.after_append, h.span_eq]
  behind_eq := by rw [lexemesText_cons, Position.after_append, h.behind_eq]

/-- A token that is a semicolon cuts the text and its pieces in two. -/
theorem exists_semicolon (ht : t.kind = .symbol .semicolon)
    (h : placedTokens p (lexemes text) = before ++ t :: behind) :
    ∃ ls post, SemicolonCut p text before t behind ls post := by
  induction text using lexemes_induction generalizing p before with
  | nil => exact absurd h (by simp [lexemes, placedTokens])
  | cons c cs rest htext hlex ih =>
    rw [hlex] at h
    cases hkind : (Lexeme.first c cs).kind with
    | trivia kind =>
      simp only [placedTokens, hkind] at h
      obtain ⟨ls, post, hcut⟩ := ih h
      have hcons := hcut.cons htext hlex
      simp only [placedTokens, hkind, List.nil_append] at hcons
      exact ⟨_, post, hcons⟩
    | token kind =>
      simp only [placedTokens, hkind] at h
      cases before with
      | nil =>
        obtain ⟨rfl, rfl⟩ := List.cons.inj h
        have hsemi : Lexeme.first c cs = Lexeme.token (.symbol .semicolon) [';'] :=
          Lexeme.first_symbol (hkind.trans (congrArg _ ht))
        rw [hsemi] at htext hlex ⊢
        exact ⟨[], rest, htext.symm, hlex, rfl, rfl, rfl⟩
      | cons u before =>
        obtain ⟨rfl, hrest⟩ := List.cons.inj h
        obtain ⟨ls, post, hcut⟩ := ih hrest
        have hcons := hcut.cons htext hlex
        simp only [placedTokens, hkind, List.cons_append, List.nil_append] at hcons
        exact ⟨_, post, hcons⟩

/-! ### A text with a space in the place of a semicolon -/

namespace SemicolonCut

/-- A space and a semicolon take up the same room. -/
theorem next_blank (p : Position) : p.next ' ' = p.next ';' := by
  rw [Position.next, Position.next, if_neg (by decide), if_neg (by decide)]
  rfl

variable (h : SemicolonCut p text before t behind ls post)

include h

/-- The solid pieces of the text. -/
theorem solids_eq :
    solids p (lexemes text) = solids p ls ++
      (Lexeme.token (.symbol .semicolon) [';'], p.after (lexemesText ls)) ::
        solids ((p.after (lexemesText ls)).next ';') (lexemes post) := by
  rw [h.lexemes_eq, solids_append, solids_cons]
  rfl

section

variable (hsound : placedProblems p (lexemes text) = []) (hapart : before.IsChain Token.Apart)

include hsound hapart

/-- The solid pieces of the text with a space in the place of the semicolon. -/
theorem solids_blanked :
    solids p (lexemes (lexemesText ls ++ ' ' :: post)) =
      solids p ls ++ solids ((p.after (lexemesText ls)).next ';') (lexemes post) := by
  have hlex := h.lexemes_eq
  rw [h.text_eq] at hlex
  rw [← next_blank]
  refine solids_blank hlex (fun l hl => problems_of_mem hsound ?_) (h.before_eq ▸ hapart)
  rw [h.lexemes_eq]
  exact List.mem_append_left _ hl

theorem placedTokens_blanked :
    placedTokens p (lexemes (lexemesText ls ++ ' ' :: post)) = before ++ behind := by
  rw [placedTokens_eq_solids, h.solids_blanked hsound hapart, List.filterMap_append,
    ← placedTokens_eq_solids, ← placedTokens_eq_solids, h.before_eq, h.behind_eq]

theorem placedComments_blanked :
    placedComments p (lexemes (lexemesText ls ++ ' ' :: post)) =
      placedComments p (lexemes text) := by
  rw [placedComments_eq_solids, placedComments_eq_solids, h.solids_blanked hsound hapart,
    h.solids_eq, List.filterMap_append, List.filterMap_append]
  rfl

theorem placedProblems_blanked :
    placedProblems p (lexemes (lexemesText ls ++ ' ' :: post)) = [] := by
  rw [← hsound, placedProblems_eq_solids _ fun _ => problems_white,
    placedProblems_eq_solids _ fun _ => problems_white, h.solids_blanked hsound hapart,
    h.solids_eq, List.flatMap_append, List.flatMap_append]
  rfl

end

/-- Both texts end at the same place. -/
theorem after_blanked : p.after (lexemesText ls ++ ' ' :: post) = p.after text := by
  rw [h.text_eq, Position.after_append, Position.after_append, Position.after_cons,
    Position.after_cons, next_blank]

end SemicolonCut

end

end FrontEnd
