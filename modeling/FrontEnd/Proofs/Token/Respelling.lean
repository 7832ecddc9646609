/-
A text with marks put in and left out.

An edit says for each piece of a text whether it stays, and what is put in behind it.  A mark that
may be left out can be replaced by a space or by another mark of its sort, and one that is left
out can be put in, with spaces around it, wherever it may stand: behind the last token of what it
ends and behind the comments there.  An edit that does not fit a piece leaves it as it is.

* `Edit`, `respell` — the edits, and the text that they give;
* `ReadsAs` — the tokens of a text, wherever it stands;
* `SoundPieces` — the pieces of a text with nothing wrong in it;
* `SoundPieces.keep`, `ReadsAs.mark` — a piece that stays and a mark that is put in.

What is put in does not run into what stands around it: before a mark there is what ends before
it, and behind it neither a bar nor a dot.
-/
import FrontEnd.Proofs.Grammar.Spacing
import FrontEnd.Proofs.Parser.Template
import FrontEnd.Proofs.Token.Seams

namespace FrontEnd

/-! ### Edits -/

/-- What is done with a piece of a text. -/
inductive Edit where
  | keep
  /-- A space stands in the place of a mark. -/
  | drop
  /-- Another mark of the same sort stands in its place. -/
  | swap (m : Symbol)
  /-- A mark is put in behind the piece, with spaces before and behind it. -/
  | add (before : Nat) (m : Symbol) (behind : Nat)
deriving DecidableEq, Repr

/-- The piece is a mark of the sort. -/
def Separator.takes (s : Separator) (l : Lexeme) : Bool := s.kinds.any fun k => l.kind = .token k

/-- A comment up to the end of the line. -/
def Lexeme.endsLine (l : Lexeme) : Bool :=
  match l.kind with
  | .trivia (.comment kind) => kind ≠ .block
  | _ => false

/-- The place for a mark behind the piece, which ends at `stop`; `o` is the one before it. -/
def Lexeme.slotBehind (slots : List Slot) (o : Option Slot) (stop : Position) (l : Lexeme) :
    Option Slot :=
  match l.kind with
  | .token _ => slots.find? (·.place = stop.offset)
  | .trivia _ => o

/-- The kind of the first token among pieces. -/
def nextKind? (ls : List Lexeme) : Option Kind :=
  ls.findSome? fun l => match l.kind with
    | .token kind => some kind
    | .trivia _ => none

theorem Separator.takes_iff {s : Separator} {l : Lexeme} :
    s.takes l ↔ ∃ m ∈ s.marks, l.kind = .token (.symbol m) := by
  simp [takes, kinds]

namespace Edit

/-- How the piece, which is a mark of the sort, is written. -/
def remark (s : Separator) (l : Lexeme) : Edit → List Char
  | drop => [' ']
  | swap m => if m ∈ s.marks then m.spelling.toList else l.text
  | keep | add .. => l.text

/-- What is put in behind the piece, `ls` being those that follow it. -/
def added? (o : Option Slot) (l : Lexeme) (ls : List Lexeme) : Edit → Option (List Char)
  | add before m behind => o.bind fun s =>
    if m ∈ s.separator.marks ∧ ¬ l.endsLine ∧ (nextKind? ls).all (· ∉ s.separator.kinds) then
      some (List.replicate before ' ' ++ (m.spelling.toList ++ List.replicate behind ' '))
    else none
  | keep | drop | swap _ => none

end Edit

/-- The text of pieces, the first of which stands at `p`, after the edits that are asked for by
offset.  There may be a mark at the place `o` before them. -/
def respell (slots : List Slot) (edit : Nat → Edit) : Option Slot → Position → List Lexeme →
    List Char
  | _, _, [] => []
  | o, p, l :: ls =>
    let stop := p.after l.text
    match o.filter (·.separator.takes l) with
    | some s => (edit p.offset).remark s.separator l ++ respell slots edit none stop ls
    | none =>
      let behind := l.slotBehind slots o stop
      match (edit p.offset).added? behind l ls with
      | some mark => l.text ++ (mark ++ respell slots edit none stop ls)
      | none => l.text ++ respell slots edit behind stop ls

/-! ### The tokens of a text, wherever it stands -/

/-- Nothing is wrong with the text, and these are its tokens. -/
def ReadsAs (text : List Char) (vs : List (Kind × String)) : Prop :=
  ∀ p, (placedTokens p (lexemes text)).map Token.value = vs ∧ placedProblems p (lexemes text) = []

/-- The token that the piece is, without its place. -/
def Lexeme.value? (l : Lexeme) : Option (Kind × String) :=
  match l.kind with
  | .token kind => some (kind, String.ofList l.text)
  | .trivia _ => none

theorem placedTokens_cons (p : Position) (l : Lexeme) (ls : List Lexeme) :
    placedTokens p (l :: ls) =
      (Lexeme.tokenAt? (l, p)).toList ++ placedTokens (p.after l.text) ls := by
  cases hkind : l.kind <;> simp [placedTokens, Lexeme.tokenAt?, hkind]

theorem Lexeme.map_value_tokenAt? (l : Lexeme) (p : Position) :
    (tokenAt? (l, p)).toList.map Token.value = l.value?.toList := by
  unfold tokenAt? value?
  cases l.kind <;> rfl

theorem head?_placedTokens (p : Position) (ls : List Lexeme) :
    (placedTokens p ls).head?.map (·.kind) = nextKind? ls := by
  induction ls generalizing p with
  | nil => rfl
  | cons l ls ih =>
    unfold placedTokens nextKind?
    rw [List.findSome?_cons]
    cases hkind : l.kind with
    | token kind => rfl
    | trivia kind => exact ih _

namespace ReadsAs

variable {text : List Char} {vs : List (Kind × String)}

theorem nil : ReadsAs [] [] := fun _ => by
  rw [lexemes]
  exact ⟨rfl, rfl⟩

theorem spaces (n : Nat) (h : ReadsAs text vs) : ReadsAs (List.replicate n ' ' ++ text) vs := by
  have hwhite : ∀ c ∈ List.replicate n ' ', Unicode.isWhiteSpace c := by
    intro c hc
    rw [List.eq_of_mem_replicate hc]
    decide
  intro p
  rw [placedTokens_white_append hwhite, placedProblems_white_append hwhite]
  exact h _

/-- A piece in front of a text that it does not run into. -/
theorem piece {l : Lexeme} (hlex : lexemes (l.text ++ text) = l :: lexemes text)
    (hsound : l.problems = []) (h : ReadsAs text vs) :
    ReadsAs (l.text ++ text) (l.value?.toList ++ vs) := by
  intro p
  obtain ⟨htokens, hproblems⟩ := h (p.after l.text)
  rw [hlex, placedTokens_cons, List.map_append, Lexeme.map_value_tokenAt?, htokens, placedProblems,
    hsound, hproblems]
  exact ⟨rfl, rfl⟩

/-- A mark in front of a text that does not go on with it. -/
theorem mark {s : Separator} {m : Symbol} (hm : m ∈ s.marks)
    (hx : ∀ x ∈ text.head?, x ≠ '|' ∧ x ≠ '.') (h : ReadsAs text vs) :
    ReadsAs (m.spelling.toList ++ text) ((.symbol m, m.spelling) :: vs) := by
  have hmark : m ∈ [Symbol.comma, .semicolon, .pipe, .colonColon, .dot] := by
    revert hm
    cases s <;> simp +contextual [Separator.marks]
  have hpiece := piece (l := .token (.symbol m) m.spelling.toList) (lexemes_mark hmark hx) rfl h
  simpa [Lexeme.value?, Lexeme.token] using hpiece

end ReadsAs

/-! ### Pieces with nothing wrong -/

/-- The pieces of a text with nothing wrong in it, none of which is a slash before a star. -/
structure SoundPieces (p : Position) (ls : List Lexeme) : Prop where
  cut : lexemes (lexemesText ls) = ls
  problems : ∀ l ∈ ls, l.problems = []
  apart : (placedTokens p ls).IsChain Token.Apart

/-- What can start with a bar or a dot. -/
theorem Rule.opens_bar_dot {c : Char} (hc : c = '|' ∨ c = '.') :
    ∀ rule ∈ table.filter (·.opens c),
      ∃ s ∈ [Symbol.or, .pipe, .dotDot, .dot], rule = .symbol s := by
  rcases hc with rfl | rfl
  · rw [show table.filter (·.opens '|') = [symbol .or, symbol .pipe] by decide +kernel]
    simp
  · rw [show table.filter (·.opens '.') = [symbol .dotDot, symbol .dot] by decide +kernel]
    simp

theorem Lexeme.first_bar_dot {c : Char} {cs : List Char} (hc : c = '|' ∨ c = '.')
    (hsound : (first c cs).problems = []) :
    ∃ s ∈ [Symbol.or, .pipe, .dotDot, .dot], (first c cs).kind = .token (.symbol s) := by
  unfold first at hsound ⊢
  cases hrule : Rule.first? (c :: cs) with
  | none =>
    rw [hrule] at hsound
    cases hsound
  | some found =>
    obtain ⟨rule, matched⟩ := found
    rw [Rule.first?_cons] at hrule
    obtain ⟨r, hr, hmatch⟩ := List.exists_of_findSome?_eq_some hrule
    obtain ⟨s, hs, rfl⟩ := Rule.opens_bar_dot hc r hr
    obtain ⟨run, -, heq⟩ := Option.map_eq_some_iff.mp hmatch
    obtain ⟨rfl, rfl⟩ := Prod.mk.inj heq
    exact ⟨s, hs, rfl⟩

/-- There is something wrong with a character that no token starts with. -/
theorem Lexeme.problems_of_skipped {c : Char} {cs : List Char}
    (h : (first c cs).kind = .trivia .skipped) : (first c cs).problems ≠ [] := by
  unfold first at h ⊢
  split at h
  · simp [skipped]
  · next rule matched hrule =>
    cases rule <;> simp [trivia, token, stringLiteral, charLiteral] at h

/-- A token that a mark of the sort may stand behind ends before the mark. -/
theorem Lexeme.endsBefore_mark {l : Lexeme} {k : Kind} (hl : l.kind = .token k) {s : Separator}
    (hk : s.Admits k) {m : Symbol} (hm : m ∈ s.marks) {x : Char}
    (hx : m.spelling.toList.head? = some x) : l.EndsBefore x := by
  cases s with
  | comma =>
    obtain rfl := List.mem_singleton.mp hm
    obtain rfl : ',' = x := Option.some.inj hx
    exact endsBefore_token hl (by simp)
  | semicolon =>
    obtain rfl := List.mem_singleton.mp hm
    obtain rfl : ';' = x := Option.some.inj hx
    exact endsBefore_token hl (by simp)
  | bar =>
    obtain rfl := List.mem_singleton.mp hm
    obtain rfl : '|' = x := Option.some.inj hx
    exact endsBefore_word hl (.inl hk) (by simp)
  | path =>
    have hm : m = .colonColon ∨ m = .dot := by simpa [Separator.marks] using hm
    rcases hm with rfl | rfl
    · obtain rfl : ':' = x := Option.some.inj hx
      exact endsBefore_word hl (.inr hk) (by simp)
    · obtain rfl : '.' = x := Option.some.inj hx
      exact endsBefore_word hl (.inr hk) (by simp)

namespace SoundPieces

variable {p : Position} {l : Lexeme} {ls : List Lexeme} {text : List Char}
  {vs : List (Kind × String)}

theorem tail (h : SoundPieces p (l :: ls)) : SoundPieces (p.after l.text) ls where
  cut := (exists_first h.cut).choose_spec.choose_spec.2.2
  problems l' hl' := h.problems l' (List.mem_cons_of_mem l hl')
  apart := isChain_placedTokens_tail h.apart

theorem text_ne_nil (h : SoundPieces p ls) (hl : l ∈ ls) : l.text ≠ [] := by
  rw [← h.cut] at hl
  exact (lexeme_proper hl).1

/-- What stands behind a place for a mark starts neither with a bar nor with a dot. -/
theorem head?_of_followers (h : SoundPieces p ls) {s : Separator}
    (hnext : ∀ k ∈ nextKind? ls, k ∈ s.followers) :
    ∀ x ∈ (lexemesText ls).head?, x ≠ '|' ∧ x ≠ '.' := by
  cases ls with
  | nil => simp [lexemesText]
  | cons l ls =>
    obtain ⟨c, run, hrun, hfirst, -⟩ := exists_first h.cut
    rw [lexemesText_cons, hrun]
    rintro x ⟨⟩
    rw [← not_or]
    intro hc
    obtain ⟨m, hm, hkind⟩ := Lexeme.first_bar_dot hc (hfirst ▸ h.problems l List.mem_cons_self)
    rw [hfirst] at hkind
    have hfollows := hnext (.symbol m) (by simp [nextKind?, hkind])
    revert hfollows
    simp only [List.mem_cons, List.not_mem_nil, or_false] at hm
    cases s <;> rcases hm with rfl | rfl | rfl | rfl <;> decide

/-- A comment up to the end of the line is followed by the end of the line. -/
theorem head?_of_endsLine (h : SoundPieces p (l :: ls)) (hl : l.endsLine) :
    ∀ x ∈ (lexemesText ls).head?, x = '\n' := by
  obtain ⟨c, run, hrun, hfirst, -⟩ := exists_first h.cut
  have hkind : ∃ kind, l.kind = .trivia (.comment kind) ∧ kind ≠ .block := by
    unfold Lexeme.endsLine at hl
    split at hl
    · next kind hkind => exact ⟨kind, hkind, by simpa using hl⟩
    · cases hl
  obtain ⟨kind, hkind, hblock⟩ := hkind
  rw [← hfirst] at hkind
  unfold Lexeme.first at hfirst hkind
  cases hrule : Rule.first? (c :: (run ++ lexemesText ls)) with
  | none => simp [hrule, Lexeme.skipped] at hkind
  | some found =>
    obtain ⟨rule, matched⟩ := found
    rw [hrule] at hfirst hkind
    have hmatch := Rule.first?_eq_some hrule
    cases rule with
    | lineComment =>
      obtain ⟨tail, htail⟩ := List.isPrefixOf_iff_prefix.mp (Rule.isPrefixOf_of_match? hmatch)
      obtain ⟨rfl, hrest⟩ := List.cons.inj htail
      have hrest : '/' :: tail = run ++ lexemesText ls := hrest
      have hmatched : matched = '/' :: run := (congrArg Lexeme.text hfirst).trans hrun
      rw [← hrest, hmatched] at hmatch
      have hletters : '/' :: tail.takeWhile (· != '\n') = run :=
        (List.cons.inj (Option.some.inj hmatch)).2
      rw [← hletters, List.cons_append] at hrest
      have htake := congrArg (List.takeWhile (· != '\n')) (List.cons.inj hrest).2.symm
      intro x hx
      simpa using head?_of_takeWhile htake x hx
    | blockComment =>
      obtain rfl : CommentKind.block = kind := by simpa [Lexeme.trivia] using hkind
      exact absurd rfl hblock
    | whitespace | word | number | string | char | symbol =>
      simp [Lexeme.trivia, Lexeme.token, Lexeme.stringLiteral, Lexeme.charLiteral] at hkind

/-- A piece that stays, in front of a text that it does not run into. -/
theorem keep (h : SoundPieces p (l :: ls))
    (hseam : text.head? = (lexemesText ls).head? ∨
      ∃ x, text.head? = some x ∧ (l.kind = .trivia .whitespace ∨ l.EndsBefore x))
    (hread : ReadsAs text vs) : ReadsAs (l.text ++ text) (l.value?.toList ++ vs) := by
  by_cases hwhite : l.kind = .trivia .whitespace
  · obtain ⟨c, run, -, hfirst, -⟩ := exists_first h.cut
    have hrun := hfirst ▸ Lexeme.white_of_first (hfirst ▸ hwhite)
    intro p'
    rw [placedTokens_white_append hrun, placedProblems_white_append hrun]
    simpa [Lexeme.value?, hwhite] using hread _
  · refine .piece (lexemes_seam h.cut hwhite (h.problems l List.mem_cons_self) h.apart ?_)
      (h.problems l List.mem_cons_self) hread
    exact hseam.imp_right fun ⟨x, hx, hends⟩ => ⟨x, hx, hends.resolve_left hwhite⟩

/-! ### The start of what is written -/

/-- Where a mark may stand behind a piece, the piece ends before a space and before the mark. -/
theorem endsBefore {s : Separator} (h : SoundPieces p (l :: ls)) (hline : ¬ l.endsLine)
    (hadmits : ∀ k, l.kind = .token k → s.Admits k) {x : Char}
    (hx : x = ' ' ∨ ∃ m ∈ s.marks, m.spelling.toList.head? = some x) :
    l.kind = .trivia .whitespace ∨ l.EndsBefore x := by
  cases hkind : l.kind with
  | trivia kind =>
    cases kind with
    | whitespace => exact .inl rfl
    | comment form =>
      right
      obtain rfl : form = .block := by simpa [Lexeme.endsLine, hkind] using hline
      exact .comment hkind
    | skipped =>
      obtain ⟨c, run, -, hfirst, -⟩ := exists_first h.cut
      rw [← hfirst] at hkind
      exact absurd (hfirst ▸ h.problems l List.mem_cons_self) (Lexeme.problems_of_skipped hkind)
  | token k =>
    right
    rcases hx with rfl | ⟨m, hm, hx⟩
    · exact Lexeme.endsBefore_token hkind (by simp)
    · exact Lexeme.endsBefore_mark hkind (hadmits k hkind) hm hx

/-- A piece that stays, and a mark that is put in behind it. -/
theorem add {s : Separator} {m : Symbol} (h : SoundPieces p (l :: ls)) (hline : ¬ l.endsLine)
    (hadmits : ∀ k, l.kind = .token k → s.Admits k) (hm : m ∈ s.marks)
    (hstart : ∀ x ∈ text.head?, x ≠ '|' ∧ x ≠ '.') (hread : ReadsAs text vs) (before behind : Nat) :
    ReadsAs (l.text ++
        ((List.replicate before ' ' ++ (m.spelling.toList ++ List.replicate behind ' ')) ++ text))
      (l.value?.toList ++ (.symbol m, m.spelling) :: vs) := by
  obtain ⟨c, hc⟩ : ∃ c, m.spelling.toList.head? = some c := by
    obtain ⟨c, tail, hspelling⟩ := List.exists_cons_of_ne_nil m.spelling_ne_nil
    exact ⟨c, by rw [hspelling]; rfl⟩
  have hbehind : ∀ x ∈ (List.replicate behind ' ' ++ text).head?, x ≠ '|' ∧ x ≠ '.' := by
    cases behind with
    | zero => exact hstart
    | succ n =>
      rintro x ⟨⟩
      decide
  have hmark := ((hread.spaces behind).mark hm hbehind).spaces before
  rw [List.append_assoc, List.append_assoc]
  refine h.keep (.inr ?_) hmark
  cases before with
  | zero => exact ⟨c, by simp [hc], h.endsBefore hline hadmits (.inr ⟨m, hm, hc⟩)⟩
  | succ n => exact ⟨' ', rfl, h.endsBefore hline hadmits (.inl rfl)⟩

variable (slots : List Slot) (edit : Nat → Edit) (o : Option Slot)

/-- What is written starts like the text did, unless its first piece is a mark that has been
replaced. -/
theorem head?_respell (h : SoundPieces p ls) :
    (respell slots edit o p ls).head? = (lexemesText ls).head? ∨
      ∃ s ∈ o, ∃ x, (respell slots edit o p ls).head? = some x ∧
        (x = ' ' ∨ ∃ m ∈ s.separator.marks, m.spelling.toList.head? = some x) ∧
        ∃ l ls', ls = l :: ls' ∧ s.separator.takes l := by
  cases ls with
  | nil => exact .inl rfl
  | cons l ls =>
    obtain ⟨c, run, hrun, -⟩ := exists_first h.cut
    have hsame : ∀ text : List Char, (l.text ++ text).head? = (lexemesText (l :: ls)).head? := by
      intro text
      rw [lexemesText_cons, hrun]
      rfl
    rw [respell]
    cases hfilter : o.filter (·.separator.takes l) with
    | none =>
      left
      simp only
      split <;> exact hsame _
    | some s =>
      obtain ⟨rfl, htakes⟩ := Option.filter_eq_some_iff.mp hfilter
      cases hedit : edit p.offset with
      | keep | add => exact .inl (hsame _)
      | drop => exact .inr ⟨s, rfl, ' ', rfl, .inl rfl, l, ls, rfl, htakes⟩
      | swap m =>
        by_cases hm : m ∈ s.separator.marks
        · right
          obtain ⟨d, tail, hspelling⟩ := List.exists_cons_of_ne_nil m.spelling_ne_nil
          refine ⟨s, rfl, d, ?_, .inr ⟨m, hm, by rw [hspelling]; rfl⟩, l, ls, rfl, htakes⟩
          simp [Edit.remark, hm, hspelling]
        · left
          simpa [Edit.remark, hm] using hsame _

/-- What is written does not run into the piece before it. -/
theorem head?_respell_behind (h : SoundPieces p (l :: ls))
    (hadmits : ∀ s ∈ o, ∀ k, l.kind = .token k → s.separator.Admits k) :
    (respell slots edit o (p.after l.text) ls).head? = (lexemesText ls).head? ∨
      ∃ x, (respell slots edit o (p.after l.text) ls).head? = some x ∧
        (l.kind = .trivia .whitespace ∨ l.EndsBefore x) := by
  rcases h.tail.head?_respell slots edit o with hsame | ⟨s, hs, x, hx, hmark, l', ls', rfl, htakes⟩
  · exact .inl hsame
  refine .inr ⟨x, hx, h.endsBefore (fun hline => ?_) (hadmits s hs) hmark⟩
  -- A mark does not stand right behind a comment up to the end of the line.
  obtain ⟨c, run, hrun, hfirst, -⟩ := exists_first h.tail.cut
  have hline := h.head?_of_endsLine hline c (by rw [lexemesText_cons, hrun]; rfl)
  obtain ⟨m, -, hkind⟩ := Separator.takes_iff.mp htakes
  rw [← hfirst, hline, Lexeme.first_white (by decide)] at hkind
  cases hkind

end SoundPieces

end FrontEnd
