/-
Cutting a text into pieces line by line.

No rule looks behind a line feed unless it matches white space, and a literal ends before
one.  So the pieces of a text up to a line feed do not depend on what comes after it, and
those after it do not depend on what came before.  Only white space is joined across lines.

* `Lexeme.first_append_line` — a piece that is not white space ends at a line feed;
* `solids_append_line` — the pieces of two lines, white space apart, are those of the first
  and those of the second;
* `placedTokens_append_line`, `placedComments_append_line` — so are their tokens and their
  comments.
-/
import FrontEnd.Proofs.Token.Placing
import FrontEnd.Proofs.Tree.Relocate
import Mathlib.Data.Nat.Init

namespace FrontEnd

/-! ### The first piece of a line -/

/-- Whether a text starts with a run is settled before a character that is not in the run. -/
theorem isPrefixOf_append_stop {run : List Char} {stop : Char} (h : stop ∉ run)
    (cs ds : List Char) : run.isPrefixOf (cs ++ stop :: ds) = run.isPrefixOf cs := by
  induction run generalizing cs with
  | nil => simp
  | cons r run ih =>
    rw [List.mem_cons, not_or] at h
    cases cs with
    | nil => simp [List.isPrefixOf, Ne.symm h.1]
    | cons c cs => simp [List.isPrefixOf, ih h.2]

theorem isPrefixOf_cons_append_stop {run : List Char} {stop : Char} (h : stop ∉ run.tail)
    (c : Char) (cs ds : List Char) :
    run.isPrefixOf (c :: (cs ++ stop :: ds)) = run.isPrefixOf (c :: cs) := by
  cases run with
  | nil => simp
  | cons r run =>
    rw [List.tail_cons] at h
    simp only [List.isPrefixOf, isPrefixOf_append_stop h]

theorem leading?_append_stop {p : Char → Bool} {stop : Char} (hstop : p stop = false)
    (cs ds : List Char) : leading? p (cs ++ stop :: ds) = leading? p cs := by
  unfold leading?
  rw [takeWhile_append_stop hstop]

namespace Rule

/-- The mark that everything starts with that a rule matches. -/
def mark : Rule → List Char
  | lineComment => ['/', '/']
  | blockComment => ['/', '*']
  | string => ['"']
  | char => ['\'']
  | symbol s => s.spelling.toList
  | whitespace | word | number => []

/-- Whether a rule goes on with a character behind its mark.  White space is left out: the first
character tells whether that rule matches at all. -/
def goesOn : Rule → Char → Bool
  | lineComment, c => c != '\n'
  | blockComment, c => inBlockComment c || ['*', '/'].contains c
  | word, c => continuesWord c
  | number, c => Text.isDecimal c
  | whitespace, _ | string, _ | char, _ | symbol _, _ => false

theorem match?_eq_none {rule : Rule} {cs : List Char} (h : rule.mark.isPrefixOf cs = false) :
    rule.match? cs = none := by
  unfold match?
  split <;> simp_all [mark]

/-- A rule that does not match white space sees nothing behind a character that it does not go
on with. -/
theorem match?_append_stop {rule : Rule} {c stop : Char} (hc : Unicode.isWhiteSpace c = false)
    (hmark : stop ∉ rule.mark.tail) {cs : List Char}
    (hstop : rule.mark.isPrefixOf (c :: cs) → rule.goesOn stop = false) (ds : List Char) :
    rule.match? (c :: (cs ++ stop :: ds)) = rule.match? (c :: cs) := by
  have hsame := isPrefixOf_cons_append_stop hmark c cs ds
  by_cases h : rule.mark.isPrefixOf (c :: cs)
  · have hgoes := hstop h
    obtain ⟨tail, htail⟩ := List.isPrefixOf_iff_prefix.mp h
    rw [← List.cons_append]
    -- Behind its mark a rule reads on to such a character at most.
    cases rule with
    | whitespace => simp [match?, leading?, hc]
    | lineComment =>
      rw [← htail]
      simp only [match?, mark, List.cons_append, List.nil_append]
      rw [takeWhile_append_stop (p := (· != '\n')) hgoes]
    | blockComment =>
      obtain ⟨hinside, hend⟩ := Bool.or_eq_false_iff.mp hgoes
      rw [← htail]
      simp only [match?, mark, List.cons_append, List.nil_append]
      rw [leading?_append_stop hinside]
      cases hrun : leading? inBlockComment tail with
      | none => rfl
      | some run =>
        -- The end of the comment is looked for in what is left of the text before it.
        obtain ⟨-, rfl⟩ := leading?_eq_some hrun
        have hlen := (List.takeWhile_prefix (l := tail) inBlockComment).length_le
        simp only [Option.bind_some]
        rw [List.drop_append_of_le_length hlen, isPrefixOf_append_stop (by simpa using hend)]
    | word =>
      simp only [match?, List.cons_append]
      rw [takeWhile_append_stop (p := continuesWord) hgoes]
    | number => exact leading?_append_stop hgoes (c :: cs) ds
    | string =>
      rw [← htail]
      rfl
    | char =>
      rw [← htail]
      rfl
    | symbol s =>
      simp only [match?]
      rw [show s.spelling.toList.isPrefixOf (c :: cs ++ stop :: ds) = _ from hsame]
      rfl
  · rw [Bool.not_eq_true] at h
    rw [match?_eq_none h, match?_eq_none (hsame.trans h)]

theorem first?_append_stop {c stop : Char} (hc : Unicode.isWhiteSpace c = false)
    (hmark : ∀ rule : Rule, stop ∉ rule.mark.tail) {cs : List Char}
    (hstop : ∀ rule : Rule, rule.mark.isPrefixOf (c :: cs) → rule.goesOn stop = false)
    (ds : List Char) : first? (c :: (cs ++ stop :: ds)) = first? (c :: cs) := by
  unfold first?
  simp only [match?_append_stop hc (hmark _) (hstop _)]

theorem line_not_mem_mark (rule : Rule) : '\n' ∉ rule.mark.tail := by
  cases rule with
  | symbol s => cases s <;> decide
  | _ => decide

theorem goesOn_line (rule : Rule) : rule.goesOn '\n' = false := by
  cases rule with
  | symbol s => rfl
  | _ => decide

end Rule

/-- A piece that is not white space ends at a line feed. -/
theorem Lexeme.first_append_line {c : Char} (hc : Unicode.isWhiteSpace c = false)
    (cs ds : List Char) : first c (cs ++ '\n' :: ds) = first c cs := by
  unfold first
  rw [Rule.first?_append_stop hc Rule.line_not_mem_mark fun rule _ => rule.goesOn_line]
  split
  · rfl
  · split
    · rfl
    · rfl
    · rfl
    · rfl
    · rfl
    · simp only [stringLiteral, Literal.scan_append_line '"' cs ds (by decide)]
    · simp only [charLiteral, Literal.scan_append_line '\'' cs ds (by decide)]
    · rfl

/-! ### White space -/

/-- White space at the start of a text is its first piece. -/
theorem Lexeme.first_white {c : Char} (hc : Unicode.isWhiteSpace c) (cs : List Char) :
    first c cs = trivia .whitespace (c :: cs.takeWhile Unicode.isWhiteSpace) := by
  have hrule : Rule.first? (c :: cs) =
      some (.whitespace, c :: cs.takeWhile Unicode.isWhiteSpace) := by
    simp [Rule.first?, Rule.table, Rule.match?, leading?, hc]
  unfold first
  rw [hrule]

/-- The pieces that are not white space, each with its place; the first of all pieces stands
at `p`. -/
def solids (p : Position) : List Lexeme → List (Lexeme × Position)
  | [] => []
  | l :: ls =>
    if l.kind = .trivia .whitespace then solids (p.after l.text) ls
    else (l, p) :: solids (p.after l.text) ls

theorem solids_cons_white {l : Lexeme} (h : l.kind = .trivia .whitespace) (p : Position)
    (ls : List Lexeme) : solids p (l :: ls) = solids (p.after l.text) ls := if_pos h

theorem solids_cons (p : Position) (l : Lexeme) (ls : List Lexeme) :
    solids p (l :: ls) = solids p [l] ++ solids (p.after l.text) ls := by
  by_cases h : l.kind = .trivia .whitespace
  · simp [solids, h]
  · simp [solids, h]

/-- A character of white space at the start of a text only moves the pieces behind it. -/
theorem solids_white {c : Char} (hc : Unicode.isWhiteSpace c) (p : Position) (cs : List Char) :
    solids p (lexemes (c :: cs)) = solids (p.next c) (lexemes cs) := by
  -- The white space behind the character belongs to its piece, and is a piece without it.
  have hpiece : ∀ (c : Char) (cs : List Char) (p : Position), Unicode.isWhiteSpace c →
      solids p (lexemes (c :: cs)) =
        solids ((p.next c).after (cs.takeWhile Unicode.isWhiteSpace))
          (lexemes (cs.drop (cs.takeWhile Unicode.isWhiteSpace).length)) := by
    intro c cs p hc
    rw [lexemes, Lexeme.first_white hc]
    exact solids_cons_white rfl p _
  rw [hpiece c cs p hc]
  cases cs with
  | nil => simp
  | cons d ds =>
    by_cases hd : Unicode.isWhiteSpace d
    · rw [hpiece d ds _ hd]
      simp [hd]
    · simp [hd]

/-- A piece lies within the text that it was cut from. -/
theorem offset_of_mem_solids {p : Position} {ls : List Lexeme} {piece : Lexeme × Position}
    (h : piece ∈ solids p ls) :
    piece.1 ∈ ls ∧ p.offset ≤ piece.2.offset ∧
      piece.2.offset + byteLength piece.1.text ≤ (p.after (lexemesText ls)).offset := by
  induction ls generalizing p with
  | nil => simp [solids] at h
  | cons l ls ih =>
    rw [lexemesText_cons, Position.offset_after, byteLength_append]
    have hlater : piece ∈ solids (p.after l.text) ls →
        piece.1 ∈ l :: ls ∧ p.offset ≤ piece.2.offset ∧ piece.2.offset + byteLength piece.1.text ≤
          p.offset + (byteLength l.text + byteLength (lexemesText ls)) := by
      intro hmem
      obtain ⟨hin, hfirst, hlast⟩ := ih hmem
      simp only [Position.offset_after] at hfirst hlast
      exact ⟨List.mem_cons_of_mem l hin, by omega, by omega⟩
    unfold solids at h
    split at h
    · exact hlater h
    · rcases List.mem_cons.mp h with rfl | hmem
      · exact ⟨by simp, Nat.le_refl _, by simp⟩
      · exact hlater hmem

/-! ### Two lines -/

/-- The pieces of two lines, white space apart, are those of the first and those of the
second. -/
theorem solids_append_line (p : Position) (a b : List Char) :
    solids p (lexemes (a ++ '\n' :: b)) =
      solids p (lexemes a) ++ solids ((p.after a).next '\n') (lexemes b) := by
  induction hn : a.length using Nat.strong_induction_on generalizing a p with
  | _ n ih =>
    cases a with
    | nil =>
      rw [List.nil_append, solids_white (by decide)]
      simp [lexemes, solids]
    | cons c cs =>
      by_cases hc : Unicode.isWhiteSpace c
      · rw [List.cons_append, solids_white hc, solids_white hc, Position.after_cons]
        exact ih cs.length (by simp [← hn]) (p.next c) cs rfl
      · rw [Bool.not_eq_true] at hc
        -- The first piece is the same with and without the second line, and the rest is shorter.
        obtain ⟨rest, htext, hlex⟩ := lexemes_cons c cs
        obtain ⟨rest', htext', hlex'⟩ := lexemes_cons c (cs ++ '\n' :: b)
        have hfirst := Lexeme.first_append_line hc cs b
        have hrest : rest' = rest ++ '\n' :: b := by
          rw [hfirst, ← List.cons_append, ← htext, List.append_assoc] at htext'
          exact List.append_cancel_left htext'
        have hlt : rest.length < n := by
          have hlen := congrArg List.length htext
          have hpos := List.length_pos_iff.mpr (Lexeme.first_text c cs).1
          rw [List.length_append] at hlen
          omega
        rw [List.cons_append, hlex', hlex, hfirst, hrest, solids_cons, solids_cons p _ (lexemes rest),
          ih rest.length hlt _ rest rfl, List.append_assoc, ← htext, Position.after_append]

/-- The token that a piece at its place is. -/
def Lexeme.tokenAt? (piece : Lexeme × Position) : Option Token :=
  match piece.1.kind with
  | .token kind => some ⟨kind, String.ofList piece.1.text, piece.1.spanAt piece.2⟩
  | .trivia _ => none

/-- The comment that a piece at its place is. -/
def Lexeme.commentAt? (piece : Lexeme × Position) : Option Comment :=
  match piece.1.kind with
  | .token _ => none
  | .trivia kind => Comment.ofTrivia? ⟨kind, String.ofList piece.1.text, piece.1.spanAt piece.2⟩

theorem placedTokens_eq_solids (p : Position) (ls : List Lexeme) :
    placedTokens p ls = (solids p ls).filterMap Lexeme.tokenAt? := by
  induction ls generalizing p with
  | nil => rfl
  | cons l ls ih =>
    unfold placedTokens solids
    rw [ih]
    split
    · next kind hkind => simp [hkind, Lexeme.tokenAt?]
    · next kind hkind =>
      split
      · rfl
      · simp [hkind, Lexeme.tokenAt?]

/-- The comments among pieces, the first of which stands at `p`. -/
def placedComments (p : Position) (ls : List Lexeme) : List Comment :=
  (placedTrivia p ls).filterMap Comment.ofTrivia?

theorem placedComments_eq_solids (p : Position) (ls : List Lexeme) :
    placedComments p ls = (solids p ls).filterMap Lexeme.commentAt? := by
  induction ls generalizing p with
  | nil => rfl
  | cons l ls ih =>
    unfold placedComments at ih ⊢
    unfold placedTrivia solids
    split
    · next kind hkind => simp [hkind, Lexeme.commentAt?, ih]
    · next kind hkind =>
      split
      · next hwhite =>
        -- White space is no comment.
        obtain rfl : kind = .whitespace := by simpa [hkind] using hwhite
        rw [← ih]
        rfl
      · simp [hkind, Lexeme.commentAt?, List.filterMap_cons, ih]

theorem placedTokens_append_line (p : Position) (a b : List Char) :
    placedTokens p (lexemes (a ++ '\n' :: b)) =
      placedTokens p (lexemes a) ++ placedTokens ((p.after a).next '\n') (lexemes b) := by
  simp only [placedTokens_eq_solids, solids_append_line, List.filterMap_append]

theorem placedComments_append_line (p : Position) (a b : List Char) :
    placedComments p (lexemes (a ++ '\n' :: b)) =
      placedComments p (lexemes a) ++ placedComments ((p.after a).next '\n') (lexemes b) := by
  simp only [placedComments_eq_solids, solids_append_line, List.filterMap_append]

/-! ### A text behind other lines -/

theorem Lexeme.spanAt_shift (l : Lexeme) (δ : Shift) (p : Position) :
    l.spanAt (p.shift δ) = (l.spanAt p).relocate (Position.shift δ) := by
  rw [Lexeme.spanAt, ← Position.shift_after]
  rfl

theorem placedTokens_shift (δ : Shift) (p : Position) (ls : List Lexeme) :
    placedTokens (p.shift δ) ls =
      (placedTokens p ls).map (·.relocate (Position.shift δ)) := by
  induction ls generalizing p with
  | nil => rfl
  | cons l ls ih =>
    simp only [placedTokens, Lexeme.spanAt_shift, ← Position.shift_after, ih]
    cases l.kind <;> rfl

theorem placedTrivia_shift (δ : Shift) (p : Position) (ls : List Lexeme) :
    placedTrivia (p.shift δ) ls =
      (placedTrivia p ls).map (·.relocate (Position.shift δ)) := by
  induction ls generalizing p with
  | nil => rfl
  | cons l ls ih =>
    simp only [placedTrivia, Lexeme.spanAt_shift, ← Position.shift_after, ih]
    cases l.kind <;> rfl

theorem placedComments_shift (δ : Shift) (p : Position) (ls : List Lexeme) :
    placedComments (p.shift δ) ls =
      (placedComments p ls).map (·.relocate (Position.shift δ)) := by
  unfold placedComments
  rw [placedTrivia_shift, List.filterMap_map, List.map_filterMap]
  exact congrFun (congrArg _ (funext fun t => Comment.ofTrivia?_relocate _ t)) _

/-! ### Comments by place -/

theorem le_offset_of_mem_placedTrivia {p : Position} {ls : List Lexeme} {t : Trivia}
    (h : t ∈ placedTrivia p ls) : p.offset ≤ t.span.start.offset := by
  induction ls generalizing p with
  | nil => simp [placedTrivia] at h
  | cons l ls ih =>
    have hlater : t ∈ placedTrivia (p.after l.text) ls → p.offset ≤ t.span.start.offset := by
      intro hmem
      have hle := ih hmem
      rw [Position.offset_after] at hle
      omega
    unfold placedTrivia at h
    split at h
    · exact hlater h
    · rcases List.mem_cons.mp h with rfl | hmem
      · exact Nat.le_refl _
      · exact hlater hmem

theorem pairwise_placedTrivia (p : Position) (ls : List Lexeme) :
    (placedTrivia p ls).Pairwise fun a b => a.span.start.offset ≤ b.span.start.offset := by
  induction ls generalizing p with
  | nil => exact .nil
  | cons l ls ih =>
    unfold placedTrivia
    split
    · exact ih _
    · refine .cons (fun t ht => ?_) (ih _)
      have hle := le_offset_of_mem_placedTrivia ht
      rw [Position.offset_after] at hle
      exact Nat.le_trans (Nat.le_add_right _ _) hle

/-- What starts at the offset `first` or later, and before `last`. -/
def Span.startsIn (first last : Nat) (s : Span) : Bool :=
  first ≤ s.start.offset && s.start.offset < last

/-- In trivia that are in order, those of a stretch are looked up by where they start. -/
theorem between_eq_filter {trivia : List Trivia}
    (h : trivia.Pairwise fun a b => a.span.start.offset ≤ b.span.start.offset)
    (first last : Nat) :
    Trivia.between first last trivia = trivia.filter (·.span.startsIn first last) := by
  unfold Trivia.between
  induction h with
  | nil => rfl
  | @cons t ts hle _ ih =>
    by_cases hfirst : t.span.start.offset < first
    · have hout : t.span.startsIn first last = false := by
        simp only [Span.startsIn, Bool.and_eq_false_iff, decide_eq_false_iff_not]
        omega
      simpa [hfirst, hout] using ih
    · have hdrop : ts.dropWhile (·.span.start.offset < first) = ts := by
        cases ts with
        | nil => rfl
        | cons u us =>
          have := hle u (by simp)
          have hnot : ¬ u.span.start.offset < first := by omega
          simp [hnot]
      by_cases hlast : t.span.start.offset < last
      · have hin : t.span.startsIn first last = true := by
          simp only [Span.startsIn, Bool.and_eq_true, decide_eq_true_eq]
          omega
        rw [hdrop] at ih
        simp [hfirst, hlast, hin, ih]
      · -- Nothing behind starts before `last` either.
        have hnone : ∀ u ∈ t :: ts, u.span.startsIn first last = false := by
          intro u hu
          have : t.span.start.offset ≤ u.span.start.offset := by
            rcases List.mem_cons.mp hu with rfl | hu
            · exact Nat.le_refl _
            · exact hle u hu
          simp only [Span.startsIn, Bool.and_eq_false_iff, decide_eq_false_iff_not]
          omega
        rw [List.filter_eq_nil_iff.mpr fun u hu => by simp [hnone u hu]]
        simp [hfirst, hlast]

/-- What starts between two places starts before or behind a place in between. -/
theorem filter_startsIn_append {trivia : List Trivia}
    (h : trivia.Pairwise fun a b => a.span.start.offset ≤ b.span.start.offset) {lo mid hi : Nat}
    (hlo : lo ≤ mid) (hhi : mid ≤ hi) :
    trivia.filter (·.span.startsIn lo hi) =
      trivia.filter (·.span.startsIn lo mid) ++ trivia.filter (·.span.startsIn mid hi) := by
  induction h with
  | nil => rfl
  | @cons a as hle _ ih =>
    by_cases hmid : a.span.start.offset < mid
    · have hout : a.span.startsIn mid hi = false := by
        simp only [Span.startsIn, Bool.and_eq_false_iff, decide_eq_false_iff_not]
        omega
      have hsame : a.span.startsIn lo hi = a.span.startsIn lo mid := by
        simp [Span.startsIn, hmid, Nat.lt_of_lt_of_le hmid hhi]
      rw [List.filter_cons, List.filter_cons, List.filter_cons, hout, hsame, ih]
      split <;> rfl
    · -- From here on everything starts behind the place.
      have hnone : (a :: as).filter (·.span.startsIn lo mid) = [] := by
        refine List.filter_eq_nil_iff.mpr fun b hb => ?_
        have hle : a.span.start.offset ≤ b.span.start.offset := by
          rcases List.mem_cons.mp hb with rfl | hb
          · exact Nat.le_refl _
          · exact hle b hb
        simp only [Span.startsIn, Bool.and_eq_true, decide_eq_true_eq]
        omega
      rw [hnone, List.nil_append]
      refine List.filter_congr fun b hb => ?_
      have hle : a.span.start.offset ≤ b.span.start.offset := by
        rcases List.mem_cons.mp hb with rfl | hb
        · exact Nat.le_refl _
        · exact hle b hb
      simp only [Span.startsIn]
      congr 1
      exact decide_eq_decide.mpr ⟨fun _ => by omega, fun _ => by omega⟩

theorem comments_between {trivia : List Trivia}
    (h : trivia.Pairwise fun a b => a.span.start.offset ≤ b.span.start.offset)
    (first last : Nat) :
    (Trivia.between first last trivia).filterMap Comment.ofTrivia? =
      (trivia.filterMap Comment.ofTrivia?).filter (·.span.startsIn first last) := by
  rw [between_eq_filter h, List.filterMap_filter, List.filter_filterMap]
  refine congrFun (congrArg _ (funext fun t => ?_)) _
  unfold Comment.ofTrivia?
  cases t.kind.comment? <;> simp [Option.filter]

/-! ### What comes behind lines -/

section

theorem bytes_over_line (a : List Char) : (Shift.over (a ++ ['\n'])).bytes = byteLength a + 1 := by
  rw [Shift.over, byteLength_append]
  rfl

variable (a b : List Char)

theorem start_behind :
    (Position.start.after a).next '\n' = Position.start.shift (.over (a ++ ['\n'])) := by
  rw [← Position.start_after_lines, Position.after_append]
  rfl

/-- The tokens of a text behind a line are its own tokens, shifted. -/
theorem placedTokens_behind :
    placedTokens Position.start (lexemes (a ++ '\n' :: b)) =
      placedTokens Position.start (lexemes a) ++
        (placedTokens Position.start (lexemes b)).map
          (·.relocate (Position.shift (.over (a ++ ['\n'])))) := by
  rw [placedTokens_append_line, start_behind, placedTokens_shift]

/-- The comments that start in a stretch of a line and a text behind it. -/
theorem comments_lines (first last : Nat) :
    (Trivia.between first last
        (placedTrivia Position.start (lexemes (a ++ '\n' :: b)))).filterMap Comment.ofTrivia? =
      (placedComments Position.start (lexemes a)).filter (·.span.startsIn first last) ++
        ((placedComments Position.start (lexemes b)).filter fun c =>
          (c.relocate (Position.shift (.over (a ++ ['\n'])))).span.startsIn first last).map
            (·.relocate (Position.shift (.over (a ++ ['\n'])))) := by
  have hshown := comments_between (pairwise_placedTrivia Position.start (lexemes (a ++ '\n' :: b)))
    first last
  have happend := placedComments_append_line Position.start a b
  rw [start_behind, placedComments_shift, placedComments] at happend
  rw [hshown, happend, List.filter_append, List.filter_map]
  rfl

variable {a b} in
/-- The comments of a line start before it ends. -/
theorem offset_of_mem_placedComments {c : Comment}
    (h : c ∈ placedComments Position.start (lexemes a)) : c.span.start.offset < byteLength a := by
  rw [placedComments_eq_solids] at h
  obtain ⟨⟨l, p⟩, hpiece, hc⟩ := List.mem_filterMap.mp h
  obtain ⟨hl, -, hlast⟩ := offset_of_mem_solids hpiece
  have hpos := byteLength_pos (lexeme_proper hl).1
  rw [lexemesText_lexemes, Position.offset_after] at hlast
  have hstart : c.span.start = p := by
    unfold Lexeme.commentAt? at hc
    split at hc
    · exact absurd hc (by simp)
    · obtain ⟨kind, -, rfl⟩ := Option.map_eq_some_iff.mp hc
      rfl
  have hzero : Position.start.offset = 0 := rfl
  rw [hstart]
  simp only at hlast hpos
  omega

/-- The comments of a text behind a line are its own comments, shifted.  The stretch may
start where the line ends. -/
theorem comments_behind {first first' : Nat} (hfirst : byteLength a ≤ first')
    (hsame : ∀ n, first' ≤ n + (Shift.over (a ++ ['\n'])).bytes ↔ first ≤ n) (last : Nat) :
    (Trivia.between first' (last + (Shift.over (a ++ ['\n'])).bytes)
        (placedTrivia Position.start (lexemes (a ++ '\n' :: b)))).filterMap Comment.ofTrivia? =
      ((Trivia.between first last (placedTrivia Position.start (lexemes b))).filterMap
        Comment.ofTrivia?).map (·.relocate (Position.shift (.over (a ++ ['\n'])))) := by
  rw [comments_lines, comments_between (pairwise_placedTrivia _ _)]
  have hbefore : (placedComments Position.start (lexemes a)).filter
      (·.span.startsIn first' (last + (Shift.over (a ++ ['\n'])).bytes)) = [] := by
    refine List.filter_eq_nil_iff.mpr fun c hc => ?_
    have hlt := offset_of_mem_placedComments hc
    simp only [Span.startsIn, Bool.and_eq_true, decide_eq_true_eq, not_and]
    omega
  rw [hbefore, List.nil_append]
  refine congrArg _ (List.filter_congr fun c _ => ?_)
  simp [Span.startsIn, Comment.relocate, hsame]

/-- A stretch that starts in a line and ends behind it holds the last comments of the line and
the first of the text behind it. -/
theorem comments_across {first : Nat} (hfirst : first ≤ byteLength a) (last : Nat) :
    (Trivia.between first (last + (Shift.over (a ++ ['\n'])).bytes)
        (placedTrivia Position.start (lexemes (a ++ '\n' :: b)))).filterMap Comment.ofTrivia? =
      (Trivia.between first (byteLength a) (placedTrivia Position.start (lexemes a))).filterMap
          Comment.ofTrivia? ++
        ((Trivia.between 0 last (placedTrivia Position.start (lexemes b))).filterMap
          Comment.ofTrivia?).map (·.relocate (Position.shift (.over (a ++ ['\n'])))) := by
  rw [comments_lines, comments_between (pairwise_placedTrivia _ _),
    comments_between (pairwise_placedTrivia _ _)]
  have hbytes := bytes_over_line a
  congr 1
  · refine List.filter_congr fun c hc => ?_
    have hlt := offset_of_mem_placedComments hc
    have hlast : c.span.start.offset < last + (Shift.over (a ++ ['\n'])).bytes := by omega
    simp [Span.startsIn, hlt, hlast]
  · refine congrArg _ (List.filter_congr fun c _ => ?_)
    have hafter : first ≤ c.span.start.offset + (Shift.over (a ++ ['\n'])).bytes := by omega
    simp [Span.startsIn, Comment.relocate, hafter]

/-- A token of a text lies within it. -/
theorem offset_of_mem_placedTokens {p : Position} {text : List Char} {t : Token}
    (h : t ∈ placedTokens p (lexemes text)) :
    p.offset ≤ t.span.start.offset ∧ t.span.start.offset ≤ (p.after text).offset := by
  rw [placedTokens_eq_solids] at h
  obtain ⟨⟨l, q⟩, hpiece, ht⟩ := List.mem_filterMap.mp h
  obtain ⟨-, hfirst, hlast⟩ := offset_of_mem_solids hpiece
  rw [lexemesText_lexemes] at hlast
  have hstart : t.span.start = q := by
    unfold Lexeme.tokenAt? at ht
    split at ht
    · obtain rfl := Option.some.inj ht
      rfl
    · exact absurd ht (by simp)
  rw [hstart]
  simp only at hfirst hlast
  exact ⟨hfirst, by omega⟩

end

end FrontEnd
