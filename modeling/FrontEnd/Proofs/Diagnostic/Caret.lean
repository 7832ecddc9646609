/-
The caret stands under the character that the diagnostic is about.

The shown line is cut on both sides: blanks are left out at its start, and white space at its
end.  The caret is drawn by counting characters of the line, less those left out.  It stands under
the right one because what is wrong never starts at white space: not what is wrong with a piece,
which starts with a quote, a backslash or a character without meaning, and not what is wrong with
the syntax, which starts with a token.

* `exists_visible` — a diagnostic before the end of the text starts with a visible character;
* `Diagnostic.PointsAt` — what the last two lines of a shown diagnostic say;
* `caret_points` — a diagnostic is shown just if there is room for its caret, and then the caret
  points at that character, on the line that the diagnostic names;
* `caret_missing` — a diagnostic without room for its caret.
-/
import FrontEnd.Proofs.Source.Safety
import FrontEnd.Proofs.Text.Digits
import FrontEnd.Proofs.Token.Defects

namespace FrontEnd

/-! ### Where something is wrong -/

/-- The problem starts with a character of the piece that is not white space. -/
def Problem.Visible (text : List Char) (problem : Problem) : Prop :=
  ∃ before c rest, text = before ++ c :: rest ∧ problem.first = byteLength before ∧
    Unicode.isWhiteSpace c = false

theorem Problem.visible_first {problem : Problem} {c : Char} {text : List Char}
    (hfirst : problem.first = 0) (hc : Unicode.isWhiteSpace c = false) :
    problem.Visible (c :: text) :=
  ⟨[], c, text, rfl, hfirst, hc⟩

namespace Literal

/-- An element that stands for nothing starts with a backslash. -/
theorem backslash_of_invalid {quote : Char} {text raw : List Char}
    (h : .invalid raw ∈ (scan quote text).elements) : ∃ b, raw = '\\' :: b := by
  rcases mem_contents h with ⟨c, heq, -⟩ | ⟨cs, heq⟩
  · cases heq
  · obtain ⟨b, hraw, -⟩ := raw_backslashed quote cs
    exact ⟨b, (congrArg Element.raw heq).trans hraw⟩

theorem visible_of_mem_invalidElements (before rest : List Char) {es : List Element}
    (hslash : ∀ raw, .invalid raw ∈ es → ∃ b, raw = '\\' :: b) {problem : Problem}
    (h : problem ∈ invalidElements (byteLength before) es) :
    problem.Visible (before ++ (es.flatMap Element.raw ++ rest)) := by
  obtain ⟨pre, raw, post, rfl, rfl⟩ := exists_of_mem_invalidElements h
  obtain ⟨b, rfl⟩ := hslash raw (by simp)
  refine ⟨before ++ pre.flatMap Element.raw, '\\', b ++ (post.flatMap Element.raw ++ rest), ?_,
    (byteLength_append _ _).symm, by decide⟩
  simp [Element.raw]

theorem IsQuote.visible {quote : Char} (hq : IsQuote quote) :
    Unicode.isWhiteSpace quote = false := by
  rcases hq with rfl | rfl <;> decide

theorem visible_of_mem_problems {quote : Char} (hq : IsQuote quote) {text : List Char}
    {problem : Problem} (h : problem ∈ (scan quote text).problems) :
    problem.Visible (scan quote text).raw := by
  rcases List.mem_append.mp h with hmem | hmem
  · have hone : quote.utf8Size = byteLength [quote] := rfl
    rw [show (scan quote text).quote = quote from rfl, hone] at hmem
    exact visible_of_mem_invalidElements [quote] _ (fun _ => backslash_of_invalid) hmem
  · split at hmem
    · simp at hmem
    · obtain rfl := List.mem_singleton.mp hmem
      exact Problem.visible_first rfl hq.visible

end Literal

/-- What is wrong with a piece starts with a visible character of it. -/
theorem Lexeme.visible_of_mem_problems {c : Char} {cs : List Char} {problem : Problem}
    (h : problem ∈ (first c cs).problems) : problem.Visible (first c cs).text := by
  by_cases hwhite : Unicode.isWhiteSpace c
  · rw [first_white hwhite] at h
    simp [trivia] at h
  · unfold first at h ⊢
    split at h
    · obtain rfl := List.mem_singleton.mp h
      exact Problem.visible_first rfl (by simpa using hwhite)
    · split at h
      · simp [trivia] at h
      · simp [trivia] at h
      · simp [trivia] at h
      · simp [token] at h
      · simp [token] at h
      · exact Literal.visible_of_mem_problems (.inl rfl) h
      · rcases List.mem_append.mp h with hmem | hmem
        · exact Literal.visible_of_mem_problems (.inr rfl) hmem
        · refine Problem.visible_first ?_ (show Unicode.isWhiteSpace '\'' = false by decide)
          unfold sizeProblems at hmem
          split at hmem
          · split at hmem
            · rw [List.mem_singleton.mp hmem]
            · simp at hmem
            · rw [List.mem_singleton.mp hmem]
          · simp at hmem
      · simp [token] at h

section

variable {source : String}

/-- A token starts with a visible character. -/
theorem visible_of_mem_tokens {t : Token}
    (h : t ∈ placedTokens Position.start (lexemes source.toList)) :
    ∃ before c rest, source.toList = before ++ c :: rest ∧
      t.span.start.offset = byteLength before ∧ Unicode.isWhiteSpace c = false := by
  obtain ⟨before, c, cs, hsource, hkind, -, hspan⟩ := exists_token h
  refine ⟨before, c, cs, hsource, ?_, ?_⟩
  · rw [hspan]
    show (Position.start.after before).offset = _
    rw [Position.offset_after]
    exact Nat.zero_add _
  · by_contra hwhite
    rw [Lexeme.first_white (by simpa using hwhite)] at hkind
    cases hkind

/-- A diagnostic before the end of the text starts with a visible character. -/
theorem exists_visible {d : Diagnostic} (h : d ∈ (parseSource source).diagnostics)
    (hinside : d.span.start.offset < byteLength source.toList) :
    ∃ before c rest, source.toList = before ++ c :: rest ∧
      d.span.start.offset = byteLength before ∧ Unicode.isWhiteSpace c = false := by
  rcases diagnostic_cases h with hd | ⟨us, -, ⟨t, ht, hstart⟩, hus⟩
  · rw [tokenize, ofLexemes_eq] at hd
    obtain ⟨before, c, cs, hsource, problem, hproblem, rfl⟩ := exists_problem hd
    obtain ⟨rest, hrest⟩ := exists_behind_first hsource
    obtain ⟨pre, x, post, htext, hfirst, hx⟩ := Lexeme.visible_of_mem_problems hproblem
    refine ⟨before ++ pre, x, post ++ rest, ?_, ?_, hx⟩
    · simp [hrest, htext]
    · rw [Problem.offset_locate _ (Lexeme.within_of_mem_problems hproblem), Position.offset_after,
        hfirst, byteLength_append]
      exact congrArg (· + _) (Nat.zero_add _)
  · have hmem := hus t ht
    rw [hstart] at hinside ⊢
    rw [tokens_tokenize] at hmem
    rcases List.mem_append.mp hmem with hmem | hmem
    · exact visible_of_mem_tokens hmem
    · -- The end of the input does not lie before the end of the text.
      rw [List.mem_singleton.mp hmem] at hinside
      have hend : (Token.eofAt (Position.start.after source.toList)).span.start.offset =
          byteLength source.toList := by
        show (Position.start.after source.toList).offset = _
        rw [Position.offset_after]
        exact Nat.zero_add _
      omega

end

/-- A place of a text is known by its offset. -/
theorem eq_of_byteLength_eq {before before' rest rest' : List Char}
    (h : before ++ rest = before' ++ rest') (hlength : byteLength before = byteLength before') :
    before = before' := by
  have hcut := splitAtByte?_append before rest
  rw [h, hlength, splitAtByte?_append] at hcut
  exact (Prod.mk.inj (Option.some.inj hcut)).1.symm

/-! ### The shown line -/

theorem isIndent_of_visible {c : Char} (hc : Unicode.isWhiteSpace c = false) :
    isIndent c = false := by
  unfold isIndent
  rw [Bool.or_eq_false_iff, beq_eq_false_iff_ne, beq_eq_false_iff_ne]
  constructor
  · rintro rfl
    exact absurd hc (by decide)
  · rintro rfl
    exact absurd hc (by decide)

/-- Cutting white space off at the end of a line leaves a visible character and what stands
before it. -/
theorem trimEnd_append {c : Char} (hc : Unicode.isWhiteSpace c = false) (cs ds : List Char) :
    trimEnd (cs ++ c :: ds) = cs ++ c :: trimEnd ds := by
  have hreverse : (cs ++ c :: ds).reverse = ds.reverse ++ c :: cs.reverse := by simp
  rw [trimEnd, hreverse, List.dropWhile_append]
  split
  · next hall =>
    have hnil : trimEnd ds = [] := by rw [trimEnd, List.isEmpty_iff.mp hall, List.reverse_nil]
    rw [hnil, List.dropWhile_cons_of_neg (by simp [hc])]
    simp
  · simp [trimEnd]

/-- The line feed at the end of a line is not shown. -/
theorem line_not_mem_trimEnd (cs : List Char) : '\n' ∉ trimEnd (lineBehind cs) := by
  have hsub (ds : List Char) : '\n' ∉ ds → '\n' ∉ trimEnd ds := by
    intro hds hmem
    rw [trimEnd, List.mem_reverse] at hmem
    exact hds (List.mem_reverse.mp ((List.dropWhile_suffix _).subset hmem))
  have hfeed (ds : List Char) : trimEnd (ds ++ ['\n']) = trimEnd ds := by
    rw [trimEnd, List.reverse_append, List.reverse_singleton, List.singleton_append,
      List.dropWhile_cons_of_pos (by decide), trimEnd]
  have hcut : ∃ ds, '\n' ∉ ds ∧ (lineBehind cs = ds ∨ lineBehind cs = ds ++ ['\n']) := by
    induction cs with
    | nil => exact ⟨[], List.not_mem_nil, .inl rfl⟩
    | cons c cs ih =>
      unfold lineBehind
      by_cases hc : c = '\n'
      · exact ⟨[], List.not_mem_nil, .inr (by simp [hc])⟩
      · obtain ⟨ds, hds, hcs⟩ := ih
        refine ⟨c :: ds, by simp [hds, Ne.symm hc], ?_⟩
        rw [if_neg hc]
        exact hcs.imp (congrArg (c :: ·)) (congrArg (c :: ·))
  obtain ⟨ds, hds, hcs | hcs⟩ := hcut
  · rw [hcs]
    exact hsub ds hds
  · rw [hcs, hfeed]
    exact hsub ds hds

/-- What is shown of a line with a visible character on it: the character stands as many
characters behind its start as the line has before it, without the indentation. -/
theorem trimEnd_dropWhile {c : Char} (hc : Unicode.isWhiteSpace c = false) (cs ds : List Char) :
    trimEnd ((cs ++ c :: ds).dropWhile isIndent) =
        cs.dropWhile isIndent ++ c :: trimEnd ds ∧
      (cs.dropWhile isIndent).length =
        cs.length - ((cs ++ c :: ds).takeWhile isIndent).length := by
  have hindent := isIndent_of_visible hc
  have hdrop : (cs ++ c :: ds).dropWhile isIndent = cs.dropWhile isIndent ++ c :: ds := by
    rw [List.dropWhile_append]
    split
    · next hall =>
      rw [List.isEmpty_iff.mp hall, List.dropWhile_cons_of_neg (by simp [hindent]),
        List.nil_append]
    · rfl
  have htake := takeWhile_append_stop hindent cs ds
  have hlength : (cs.takeWhile isIndent).length + (cs.dropWhile isIndent).length = cs.length := by
    rw [← List.length_append, List.takeWhile_append_dropWhile]
  refine ⟨by rw [hdrop, trimEnd_append hc], ?_⟩
  rw [htake]
  omega

/-! ### The shown diagnostic -/

namespace Diagnostic

/-- The last two lines of `shown` are a line of the source behind its `number` and a line with a
caret, and above the caret stands the character `c` of the source line. -/
def PointsAt (shown : String) (number : Nat) (c : Char) : Prop :=
  ∃ text below column,
    [(toString number ++ " | ").toList ++ text, below] <:+ splitLines shown.toList ∧
    below.count '^' = 1 ∧ below.idxOf '^' = (toString number ++ " | ").toList.length + column ∧
    text[column]? = some c

theorem toList_padLeft (fill : Char) (width : Nat) (s : String) :
    (padLeft fill width s).toList = List.replicate (width - s.length) fill ++ s.toList := by
  rw [padLeft, String.toList_append, String.toList_ofList]

end Diagnostic

/-- A line feed ends the first line of a text. -/
theorem splitLines_line {cs : List Char} (h : '\n' ∉ cs) (rest : List Char) :
    splitLines (cs ++ '\n' :: rest) = (cs ++ ['\n']) :: splitLines rest := by
  induction cs with
  | nil => simp [splitLines]
  | cons c cs ih =>
    rw [List.mem_cons, not_or] at h
    exact splitLines_cons (Ne.symm h.1) (ih h.2)

/-- The last two lines of a text. -/
theorem splitLines_last_two {front above below : List Char}
    (hfront : ∃ cs, front = cs ++ ['\n']) (habove : '\n' ∉ above) (hbelow : '\n' ∉ below) :
    splitLines (front ++ (above ++ '\n' :: (below ++ ['\n']))) =
      splitLines front ++ [above ++ ['\n'], below ++ ['\n']] := by
  rw [(splitLines_append_lines (.inr hfront) _).1, splitLines_line habove,
    show below ++ ['\n'] = below ++ '\n' :: [] from rfl, splitLines_line hbelow]
  rfl

namespace Diagnostic

/-- The line with a caret behind `m` dashes, under a line with a number of `n` digits. -/
def caretLine (n m : Nat) : List Char :=
  List.replicate (n + 1) ' ' ++ '|' :: ' ' :: (List.replicate m '-' ++ ['^'])

theorem toList_caretLine (n m : Nat) :
    (padLeft ' ' (n + 2) "|" ++ " " ++ padLeft '-' (m + 1) "^").toList = caretLine n m := by
  have hbar : "|".toList = ['|'] ∧ " ".toList = [' '] ∧ "^".toList = ['^'] := by decide
  have hone : "|".length = 1 ∧ "^".length = 1 := by decide
  rw [String.toList_append, String.toList_append, toList_padLeft, toList_padLeft, hone.1, hone.2,
    hbar.1, hbar.2.1, hbar.2.2]
  simp [caretLine]

/-- There is one caret on that line, behind the bar and the dashes. -/
theorem idxOf_caretLine (n m : Nat) {rest : List Char} (hrest : '^' ∉ rest) :
    (caretLine n m ++ rest).count '^' = 1 ∧ (caretLine n m ++ rest).idxOf '^' = n + 3 + m := by
  have hfront : '^' ∉ List.replicate (n + 1) ' ' ++ ['|', ' '] ++ List.replicate m '-' := by
    simp [List.mem_replicate]
  have hsplit : caretLine n m ++ rest =
      (List.replicate (n + 1) ' ' ++ ['|', ' '] ++ List.replicate m '-') ++ '^' :: rest := by
    simp [caretLine]
  rw [hsplit]
  constructor
  · rw [List.count_append, List.count_eq_zero.mpr hfront, List.count_cons_self,
      List.count_eq_zero.mpr hrest]
  · rw [List.idxOf_append, if_neg hfront, List.idxOf_cons_self, Nat.zero_add]
    simp only [List.length_append, List.length_replicate, List.length_cons, List.length_nil]

/-- A text that ends in such two lines points at the character above the caret. -/
theorem pointsAt_of_text {number column : Nat} {text : List Char} {c : Char} (htext : '\n' ∉ text)
    (hc : text[column]? = some c) (front : String) :
    PointsAt (front ++ (padLeft ' ' ((toString number).length + 2) "|" ++ "\n" ++
      (toString number ++ " | " ++ String.ofList text) ++ "\n" ++
      (padLeft ' ' ((toString number).length + 2) "|" ++ " " ++ padLeft '-' (column + 1) "^") ++
      "\n")) number c := by
  have hcaret := toList_caretLine (toString number).length column
  -- No line feed stands on either of the last two lines.
  have habove : '\n' ∉ (toString number ++ " | ").toList ++ text := by
    rw [String.toList_append, List.mem_append, List.mem_append, not_or, not_or]
    refine ⟨⟨fun hmem => ?_, by decide⟩, htext⟩
    exact absurd (Text.isDigit_of_mem_toString hmem) (by decide)
  have hbelow : '\n' ∉ caretLine (toString number).length column := by
    simp [caretLine, List.mem_replicate]
  have hfeed : '^' ∉ ['\n'] := by decide
  obtain ⟨hcount, hidx⟩ := idxOf_caretLine (toString number).length column hfeed
  have hfront : ∃ cs, front.toList ++ (padLeft ' ' ((toString number).length + 2) "|").toList ++
      ['\n'] = cs ++ ['\n'] := ⟨_, rfl⟩
  have hsplit := splitLines_last_two hfront habove hbelow
  rw [List.append_assoc _ text ['\n']] at hsplit
  refine ⟨text ++ ['\n'], _, column, ⟨_, hsplit.symm.trans ?_⟩, hcount, ?_, ?_⟩
  · have hfeed : "\n".toList = ['\n'] := by decide
    rw [← hcaret]
    refine congrArg splitLines ?_
    simp only [String.toList_append, String.toList_ofList, hfeed, List.append_assoc,
      List.cons_append, List.nil_append]
  · rw [hidx, String.toList_append, List.length_append]
    rfl
  · have hlt := (List.getElem?_eq_some_iff.mp hc).1
    rw [List.getElem?_append_left hlt, hc]

/-- The caret under a visible character of a line, where there is room for it. -/
theorem excerpt?_eq {number : Nat} {c : Char} (hc : Unicode.isWhiteSpace c = false)
    {cs ds : List Char}
    (hroom : (cs.dropWhile isIndent).length < caretRoom) :
    excerpt? ⟨number, cs ++ c :: ds, byteLength cs⟩ =
      some (padLeft ' ' ((toString number).length + 2) "|" ++ "\n" ++
        (toString number ++ " | " ++
          String.ofList (cs.dropWhile isIndent ++ c :: trimEnd ds)) ++ "\n" ++
        (padLeft ' ' ((toString number).length + 2) "|" ++ " " ++
          padLeft '-' ((cs.dropWhile isIndent).length + 1) "^") ++ "\n") := by
  obtain ⟨hshown, hlength⟩ := trimEnd_dropWhile hc cs ds
  have hcaret : caret? (cs.length - ((cs ++ c :: ds).takeWhile isIndent).length) =
      some (padLeft '-' ((cs.dropWhile isIndent).length + 1) "^") := by
    rw [← hlength, caret?, if_pos hroom]
  simp only [excerpt?, splitAtByte?_append, Option.bind_eq_bind, Option.bind_some, hcaret, hshown]
  simp only [Option.pure_def, Option.some.injEq]
  apply String.toList_inj.mp
  simp only [String.toList_append, List.append_assoc]
  rfl

/-- Where there is room for the caret, it stands under the character at the place. -/
theorem exists_render? {d : Diagnostic} {source : String} {before rest : List Char} {c : Char}
    (h : source.toList = before ++ c :: rest) (hstart : d.span.start.offset = byteLength before)
    (hc : Unicode.isWhiteSpace c = false) (hroom : dashes before (c :: rest) < caretRoom)
    (file : String) :
    ∃ shown, d.render? source file = some shown ∧ PointsAt shown (1 + before.count '\n') c := by
  have hline : c ≠ '\n' := by
    rintro rfl
    exact absurd hc (by decide)
  have hbehind : lineBehind (c :: rest) = c :: lineBehind rest := by rw [lineBehind, if_neg hline]
  have hlookup := lineAt?_within h c.utf8Size_pos
  rw [Nat.add_zero, Nat.add_zero, hbehind] at hlookup
  obtain ⟨-, hlength⟩ := trimEnd_dropWhile hc (lineBefore before) (lineBehind rest)
  rw [dashes, hbehind, ← hlength] at hroom
  have hshown : d.render? source file = (excerpt? ⟨1 + before.count '\n',
      lineBefore before ++ c :: lineBehind rest, byteLength (lineBefore before)⟩).map
        (d.heading file ++ ·) := by
    rw [render?, hstart, hlookup]
  rw [excerpt?_eq hc hroom, Option.map_some] at hshown
  refine ⟨_, hshown, pointsAt_of_text ?_ ?_ _⟩
  · rw [List.mem_append, List.mem_cons, not_or, not_or]
    refine ⟨fun hmem => ?_, hline.symm, line_not_mem_trimEnd rest⟩
    exact line_not_mem_lineBefore before ((List.dropWhile_suffix _).subset hmem)
  · rw [List.getElem?_append_right (Nat.le_refl _), Nat.sub_self]
    rfl

end Diagnostic

/-- **The caret points at the error.**  A diagnostic before the end of the text starts at a
character of it.  It is shown just if fewer than `Diagnostic.caretRoom` dashes stand before its
caret, and then the last two lines are the line with the number that the diagnostic names and,
below that character, the caret. -/
theorem caret_points (source : String) {d : Diagnostic} (hd : d ∈ (parseSource source).diagnostics)
    (hinside : d.span.start.offset < byteLength source.toList) (file : String) :
    ∃ before c rest, source.toList = before ++ c :: rest ∧
      d.span.start.offset = byteLength before ∧
      ((d.render? source file).isSome ↔ dashes before (c :: rest) < Diagnostic.caretRoom) ∧
      ∀ shown, d.render? source file = some shown →
        Diagnostic.PointsAt shown d.span.start.line c := by
  obtain ⟨before, c, rest, hsource, hstart, hc⟩ := exists_visible hd hinside
  have hroom := Diagnostic.render?_isSome_iff hsource hstart file
  simp only [List.cons_ne_nil, false_or] at hroom
  have hnumber : d.span.start.line = 1 + before.count '\n' := by
    obtain ⟨before', rest', hsource', hstart', hline, -⟩ := (marked_of_mem_diagnostics hd).1
    rw [hline, eq_of_byteLength_eq (hsource'.symm.trans hsource) (hstart'.symm.trans hstart)]
  refine ⟨before, c, rest, hsource, hstart, hroom, fun shown hshown => ?_⟩
  obtain ⟨shown', hshown', hpoints⟩ := Diagnostic.exists_render? hsource hstart hc
    (hroom.mp (by rw [hshown]; rfl)) file
  obtain rfl : shown' = shown := Option.some.inj (hshown'.symm.trans hshown)
  rwa [hnumber]

/-- A char literal with two characters on an indented line, behind a name of two bytes. -/
def indentedText : String := "fn f() \x7b\n\té = 'é→';\n\x7d"

theorem caret_points_indentedText :
    (⟨.overlongChar "'é→'", ⟨⟨15, 2, 6⟩, ⟨22, 2, 10⟩⟩⟩ : Diagnostic) ∈
      (parseSource indentedText).diagnostics ∧
    ∃ shown, (⟨.overlongChar "'é→'", ⟨⟨15, 2, 6⟩, ⟨22, 2, 10⟩⟩⟩ : Diagnostic).render?
      indentedText "main" = some shown ∧ Diagnostic.PointsAt shown 2 '\'' := by
  have hmem : (⟨.overlongChar "'é→'", ⟨⟨15, 2, 6⟩, ⟨22, 2, 10⟩⟩⟩ : Diagnostic) ∈
      (parseSource indentedText).diagnostics := by
    decide +kernel
  obtain ⟨before, c, rest, hsource, hstart, hroom, hpoints⟩ :=
    caret_points indentedText hmem (by decide) "main"
  have hsplit : indentedText.toList =
      "fn f() \x7b\n\té = ".toList ++ '\'' :: "é→';\n\x7d".toList := by
    decide
  obtain rfl := eq_of_byteLength_eq (hsource.symm.trans hsplit) (hstart.symm.trans (by decide))
  obtain ⟨rfl, rfl⟩ := List.cons.inj (List.append_cancel_left (hsource.symm.trans hsplit))
  obtain ⟨shown, hshown⟩ := Option.isSome_iff_exists.mp (hroom.mpr (by decide))
  exact ⟨hmem, shown, hshown, hpoints shown hshown⟩

/-- The character behind a long comment stands before the end of the text. -/
theorem offset_farProblem (n : Nat) :
    (farProblem n).span.start.offset < byteLength (farRight n).toList := by
  have hstart : (farProblem n).span.start.offset = byteLength (longComment (n + 1)) := by
    show (Position.start.after _).offset = _
    rw [Position.offset_after]
    exact Nat.zero_add _
  rw [byteLength_farRight, hstart, byteLength_longComment]
  omega

/-- Without room for its caret nothing is shown of a diagnostic before the end of a text. -/
theorem caret_missing :
    byteLength (farRight 65530).toList < 2 ^ 32 - 1 ∧
      ∃ d ∈ (parseSource (farRight 65530)).diagnostics,
        d.span.start.offset < byteLength (farRight 65530).toList ∧
          ¬∃ shown, d.render? (farRight 65530) "f" = some shown := by
  refine ⟨?_, farProblem 65530, farProblem_mem 65530, offset_farProblem 65530, ?_⟩
  · rw [byteLength_farRight]
    decide
  · rintro ⟨shown, hshown⟩
    rw [render?_farProblem 65530 (by decide) "f"] at hshown
    cases hshown

end FrontEnd
