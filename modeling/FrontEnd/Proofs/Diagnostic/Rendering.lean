/-
The line that a place stands on, and the caret under it.

A place is looked up by its offset alone, line after line.  At a place between two characters
that finds the line which the text before the place ends in and the text behind it goes on
with, so that the caret stands under the character at the place.  At the end of the text there
is no such line, and the caret stands under an empty one.

* `lineBefore`, `lineBehind` — the two parts of the line at a place;
* `lineAt?_within`, `lineAt?_place` — looking up a byte of a character, or the place before it,
  finds that line;
* `Diagnostic.render?_isSome_iff` — a diagnostic at a place can be shown just if there is room
  for its caret.
-/
import FrontEnd.Diagnostic.Render
import Mathlib.Data.List.DropRight

namespace FrontEnd

/-- The part before a place of the line that it stands on, `before` being the text before it. -/
def lineBefore (before : List Char) : List Char := before.rtakeWhile (· ≠ '\n')

/-- The part behind a place of the line that it stands on, with the line feed that ends it. -/
def lineBehind : List Char → List Char
  | [] => []
  | c :: cs => if c = '\n' then [c] else c :: lineBehind cs

theorem line_not_mem_lineBefore (before : List Char) : '\n' ∉ lineBefore before := by
  intro h
  simpa using List.mem_rtakeWhile_imp h

/-- The text before a place is the whole lines before it and the part of its own line. -/
theorem exists_lines_before (before : List Char) :
    ∃ lines, before = lines ++ lineBefore before ∧ (lines = [] ∨ ∃ cs, lines = cs ++ ['\n']) := by
  refine ⟨before.rdropWhile (· ≠ '\n'), List.rdropWhile_append_rtakeWhile.symm, ?_⟩
  by_cases hnil : before.rdropWhile (· ≠ '\n') = []
  · exact .inl hnil
  · have hlast := List.rdropWhile_last_not (· ≠ '\n') before hnil
    have hconcat := List.dropLast_concat_getLast hnil
    rw [show (before.rdropWhile (· ≠ '\n')).getLast hnil = '\n' by simpa using hlast] at hconcat
    exact .inr ⟨_, hconcat.symm⟩

/-! ### Cutting a text into lines -/

theorem splitLines_cons {c : Char} (hc : c ≠ '\n') {cs line : List Char}
    {lines : List (List Char)} (h : splitLines cs = line :: lines) :
    splitLines (c :: cs) = (c :: line) :: lines := by
  simp [splitLines, hc, h]

/-- The first line of a text. -/
theorem exists_splitLines {cs : List Char} (h : cs ≠ []) :
    ∃ lines, splitLines cs = lineBehind cs :: lines := by
  induction cs with
  | nil => exact absurd rfl h
  | cons c cs ih =>
    unfold lineBehind
    by_cases hc : c = '\n'
    · exact ⟨splitLines cs, by rw [splitLines, if_pos hc, if_pos hc]⟩
    · rw [if_neg hc]
      by_cases hcs : cs = []
      · exact ⟨[], by simp [hcs, splitLines, hc, lineBehind]⟩
      · obtain ⟨lines, hlines⟩ := ih hcs
        exact ⟨lines, splitLines_cons hc hlines⟩

theorem lineBehind_append {cs : List Char} (h : '\n' ∉ cs) (ds : List Char) :
    lineBehind (cs ++ ds) = cs ++ lineBehind ds := by
  induction cs with
  | nil => rfl
  | cons c cs ih =>
    rw [List.mem_cons, not_or] at h
    rw [List.cons_append, lineBehind, if_neg (Ne.symm h.1), ih h.2, List.cons_append]

/-- A line feed ends a line, whatever is put behind it. -/
theorem splitLines_append_line (cs ds : List Char) :
    splitLines (cs ++ '\n' :: ds) = splitLines (cs ++ ['\n']) ++ splitLines ds ∧
      (splitLines (cs ++ ['\n'])).length = cs.count '\n' + 1 := by
  induction cs with
  | nil => simp [splitLines]
  | cons c cs ih =>
    obtain ⟨hsplit, hcount⟩ := ih
    by_cases hc : c = '\n'
    · simp [splitLines, hc, hsplit, hcount]
    · obtain ⟨lines, hlines⟩ := exists_splitLines (List.concat_ne_nil '\n' cs)
      rw [hlines] at hsplit hcount
      rw [List.cons_append, List.cons_append, splitLines_cons hc hlines, splitLines_cons hc hsplit,
        List.count_cons_of_ne hc, ← hcount]
      exact ⟨rfl, rfl⟩

theorem splitLines_append_lines {lines : List Char} (h : lines = [] ∨ ∃ cs, lines = cs ++ ['\n'])
    (ds : List Char) :
    splitLines (lines ++ ds) = splitLines lines ++ splitLines ds ∧
      (splitLines lines).length = lines.count '\n' := by
  rcases h with rfl | ⟨cs, rfl⟩
  · exact ⟨rfl, rfl⟩
  · obtain ⟨hsplit, hcount⟩ := splitLines_append_line cs ds
    rw [List.append_assoc, List.singleton_append]
    exact ⟨hsplit, by simpa using hcount⟩

/-! ### Looking up a place -/

/-- A place behind whole lines is looked up among the lines behind them. -/
theorem lineIn_append (number offset : Nat) (ls ms : List (List Char)) :
    lineIn number (byteLength ls.flatten + offset) (ls ++ ms) =
      lineIn (number + ls.length) offset ms := by
  induction ls generalizing number with
  | nil => simp [byteLength]
  | cons l ls ih =>
    have hle : ¬byteLength (l :: ls).flatten + offset < byteLength l := by
      rw [List.flatten_cons, byteLength_append]
      omega
    have hleft : byteLength (l :: ls).flatten + offset - byteLength l =
        byteLength ls.flatten + offset := by
      rw [List.flatten_cons, byteLength_append]
      omega
    rw [List.cons_append, lineIn, if_neg hle, hleft, ih, List.length_cons]
    congr 1
    omega

/-- Looking up a byte of a character finds the line that holds this character. -/
theorem lineAt?_within {source : String} {before rest : List Char} {c : Char} {k : Nat}
    (h : source.toList = before ++ c :: rest) (hk : k < c.utf8Size) :
    lineAt? source (byteLength before + k) =
      some ⟨1 + before.count '\n', lineBefore before ++ lineBehind (c :: rest),
        byteLength (lineBefore before) + k⟩ := by
  obtain ⟨lines, hbefore, hends⟩ := exists_lines_before before
  have hline := line_not_mem_lineBefore before
  obtain ⟨hsplit, hcount⟩ := splitLines_append_lines hends (lineBefore before ++ c :: rest)
  obtain ⟨others, hfirst⟩ := exists_splitLines
    (List.append_ne_nil_of_right_ne_nil (lineBefore before) (List.cons_ne_nil c rest))
  rw [lineBehind_append hline] at hfirst
  have hbytes : byteLength before = byteLength lines + byteLength (lineBefore before) := by
    rw [← byteLength_append, ← hbefore]
  have hfeeds : before.count '\n' = lines.count '\n' := by
    rw [hbefore, List.count_append, List.count_eq_zero.mpr hline, Nat.add_zero]
  have hflat := flatten_splitLines lines
  have hinside : byteLength (lineBefore before) + k <
      byteLength (lineBefore before ++ lineBehind (c :: rest)) := by
    have hfits : c.utf8Size ≤ byteLength (lineBehind (c :: rest)) := by
      unfold lineBehind
      split <;> exact Nat.le_add_right _ _
    rw [byteLength_append]
    omega
  have hlookup : lineIn 1 (byteLength before + k) (splitLines (before ++ c :: rest)) =
      ⟨1 + before.count '\n', lineBefore before ++ lineBehind (c :: rest),
        byteLength (lineBefore before) + k⟩ := by
    calc lineIn 1 (byteLength before + k) (splitLines (before ++ c :: rest))
        = lineIn 1 (byteLength (splitLines lines).flatten + (byteLength (lineBefore before) + k))
            (splitLines lines ++ splitLines (lineBefore before ++ c :: rest)) := by
          rw [hflat, ← Nat.add_assoc, ← hbytes, ← hsplit, ← List.append_assoc, ← hbefore]
      _ = lineIn (1 + (splitLines lines).length) (byteLength (lineBefore before) + k)
            ((lineBefore before ++ lineBehind (c :: rest)) :: others) := by
          rw [lineIn_append, hfirst]
      _ = _ := by rw [lineIn, if_pos hinside, hcount, hfeeds]
  have hle : c.utf8Size ≤ byteLength (c :: rest) := Nat.le_add_right _ _
  unfold lineAt?
  simp only [h, hlookup]
  rw [if_neg (by rw [byteLength_append]; omega)]

/-- Looking up a place before a character finds the line that holds this character. -/
theorem lineAt?_place {source : String} {before rest : List Char}
    (h : source.toList = before ++ rest) (hrest : rest ≠ []) :
    lineAt? source (byteLength before) =
      some ⟨1 + before.count '\n', lineBefore before ++ lineBehind rest,
        byteLength (lineBefore before)⟩ := by
  cases rest with
  | nil => exact absurd rfl hrest
  | cons c rest => exact lineAt?_within h c.utf8Size_pos

/-- At the end of a text there is an empty line behind all others. -/
theorem lineAt?_end (source : String) :
    lineAt? source (byteLength source.toList) =
      some ⟨1 + (splitLines source.toList).length, [], 0⟩ := by
  have hlookup := lineIn_append 1 0 (splitLines source.toList) []
  rw [flatten_splitLines, Nat.add_zero, List.append_nil] at hlookup
  unfold lineAt?
  simp only [lt_irrefl, if_false]
  rw [hlookup]
  rfl

/-! ### The caret -/

/-- How many dashes stand before the caret under a place: the characters of its line before it,
without those of the indentation. -/
def dashes (before rest : List Char) : Nat :=
  (lineBefore before).length -
    ((lineBefore before ++ lineBehind rest).takeWhile isIndent).length

namespace Diagnostic

theorem caret?_isSome_iff (column : Nat) : (caret? column).isSome ↔ column < caretRoom := by
  unfold caret?
  split <;> simp_all

theorem excerpt?_isSome_iff (number : Nat) (before behind : List Char) :
    (excerpt? ⟨number, before ++ behind, byteLength before⟩).isSome ↔
      before.length - ((before ++ behind).takeWhile isIndent).length < caretRoom := by
  rw [← caret?_isSome_iff]
  simp only [excerpt?, splitAtByte?_append, Option.bind_eq_bind, Option.bind_some]
  cases caret? (before.length - ((before ++ behind).takeWhile isIndent).length) <;> simp

/-- A diagnostic at a place of a text can be shown just if it stands at the end, or if there is
room for its caret. -/
theorem render?_isSome_iff {d : Diagnostic} {source : String} {before rest : List Char}
    (h : source.toList = before ++ rest) (hstart : d.span.start.offset = byteLength before)
    (file : String) :
    (d.render? source file).isSome ↔ rest = [] ∨ dashes before rest < caretRoom := by
  unfold render?
  rw [hstart]
  by_cases hrest : rest = []
  · have hend := lineAt?_end source
    rw [h, hrest, List.append_nil] at hend
    have hshown := excerpt?_isSome_iff (1 + (splitLines before).length) [] []
    have hroom : 0 < caretRoom := by decide
    simp only [hend, Option.isSome_map, hrest, true_or, iff_true]
    exact hshown.mpr hroom
  · rw [lineAt?_place h hrest]
    simp only [Option.isSome_map, hrest, false_or]
    exact excerpt?_isSome_iff _ _ _

end Diagnostic

end FrontEnd
