/-
Looking up the line that holds a byte.

A line is looked up in the characters of a text, line after line.  What is meant by the line that
holds a byte is said of the bytes alone: count the line feeds among the bytes before it, take
what follows the last of them, and go on up to the next one.  Both agree at every place of every
text but one.  The end of a text whose last line has no line feed still lies on that line, but the
look-up answers with an empty line behind it, with the next number.

* `Line.Holds` — the line that a place lies on, in terms of the bytes of the text;
* `OpenEnd` — the place is the end of a text that ends within a line;
* `lineAt?_spec` — what is looked up at every place of every text, and for every diagnostic;
* `lineAt?_openEnd_wrong` — a text whose end is looked up on a line that it does not have.
-/
import FrontEnd.Proofs.Diagnostic.Rendering
import FrontEnd.Proofs.Source.Coherence

namespace FrontEnd

/-- The bytes of a text. -/
def utf8 (cs : List Char) : List UInt8 := cs.flatMap String.utf8EncodeChar

/-- The byte that ends a line. -/
def lineFeed : UInt8 := 10

/-- The bytes up to the first line feed, and this one. -/
def throughFeed : List UInt8 → List UInt8
  | [] => []
  | b :: bs => if b = lineFeed then [b] else b :: throughFeed bs

/-- The line is that of the place behind the first `pos` of the bytes of a text: its number is one
more than the line feeds before the place, it goes from behind the last of these up to the next
line feed, and its offset counts the bytes from its start to the place. -/
structure Line.Holds (line : Line) (bytes : List UInt8) (pos : Nat) : Prop where
  number : line.number = 1 + (bytes.take pos).count lineFeed
  text : utf8 line.text =
    (bytes.take pos).rtakeWhile (· ≠ lineFeed) ++ throughFeed (bytes.drop pos)
  offset : line.offset = pos - ((bytes.take pos).rdropWhile (· ≠ lineFeed)).length

/-- The place is the end of a text whose last line has no line feed. -/
def OpenEnd (content : String) (pos : Nat) : Prop :=
  pos = byteLength content.toList ∧ ∃ cs c, content.toList = cs ++ [c] ∧ c ≠ '\n'

/-! ### The bytes of characters -/

theorem utf8_append (cs ds : List Char) : utf8 (cs ++ ds) = utf8 cs ++ utf8 ds :=
  List.flatMap_append

theorem length_utf8 (cs : List Char) : (utf8 cs).length = byteLength cs := by
  induction cs with
  | nil => rfl
  | cons c cs ih =>
    rw [utf8, List.flatMap_cons, List.length_append, String.length_utf8EncodeChar, byteLength,
      ← ih, utf8]

/-- A line feed is a byte of its own, and no other character has this byte. -/
theorem lineFeed_mem_utf8EncodeChar {c : Char} :
    lineFeed ∈ String.utf8EncodeChar c ↔ c = '\n' := by
  constructor
  · intro h
    have hval : c.val.toNat = 10 := by
      simp only [String.utf8EncodeChar] at h
      split at h
      · next hsmall =>
        have hbyte := congrArg UInt8.toNat (List.mem_singleton.mp h)
        rw [lineFeed, UInt8.toNat_ofNat_of_lt' (by show _ < 256; omega)] at hbyte
        exact hbyte.symm
      · -- All bytes of a longer form are at least 128.
        exfalso
        have hbytes : ∃ n, lineFeed = UInt8.ofNat n ∧ 128 ≤ n ∧ n < 256 := by
          split at h
          · simp only [List.mem_cons, List.not_mem_nil, or_false] at h
            rcases h with h | h <;> exact ⟨_, h, by omega, by omega⟩
          · split at h
            · simp only [List.mem_cons, List.not_mem_nil, or_false] at h
              rcases h with h | h | h <;> exact ⟨_, h, by omega, by omega⟩
            · simp only [List.mem_cons, List.not_mem_nil, or_false] at h
              rcases h with h | h | h | h <;> exact ⟨_, h, by omega, by omega⟩
        obtain ⟨n, hn, hlow, hhigh⟩ := hbytes
        have hbyte := congrArg UInt8.toNat hn
        rw [UInt8.toNat_ofNat_of_lt' (by show _ < 256; omega)] at hbyte
        have hten : lineFeed.toNat = 10 := rfl
        omega
    exact Char.ext (UInt32.toNat_inj.mp hval)
  · rintro rfl
    decide

theorem lineFeed_mem_utf8 {cs : List Char} : lineFeed ∈ utf8 cs ↔ '\n' ∈ cs := by
  simp only [utf8, List.mem_flatMap, lineFeed_mem_utf8EncodeChar, exists_eq_right]

theorem count_utf8 (cs : List Char) : (utf8 cs).count lineFeed = cs.count '\n' := by
  induction cs with
  | nil => rfl
  | cons c cs ih =>
    rw [show utf8 (c :: cs) = String.utf8EncodeChar c ++ utf8 cs from List.flatMap_cons,
      List.count_append, ih]
    by_cases hc : c = '\n'
    · subst hc
      rw [List.count_cons_self, show (String.utf8EncodeChar '\n').count lineFeed = 1 by decide,
        Nat.add_comm]
    · rw [List.count_eq_zero.mpr (mt lineFeed_mem_utf8EncodeChar.mp hc), Nat.zero_add,
        List.count_cons_of_ne hc]

theorem throughFeed_append {bs : List UInt8} (h : lineFeed ∉ bs) (rest : List UInt8) :
    throughFeed (bs ++ rest) = bs ++ throughFeed rest := by
  induction bs with
  | nil => rfl
  | cons b bs ih =>
    rw [List.mem_cons, not_or] at h
    rw [List.cons_append, throughFeed, if_neg (Ne.symm h.1), ih h.2, List.cons_append]

/-- The bytes of what is left of a line are the bytes up to the next line feed. -/
theorem utf8_lineBehind (cs : List Char) : utf8 (lineBehind cs) = throughFeed (utf8 cs) := by
  induction cs with
  | nil => rfl
  | cons c cs ih =>
    have hcons (ds : List Char) : utf8 (c :: ds) = String.utf8EncodeChar c ++ utf8 ds :=
      List.flatMap_cons
    by_cases hc : c = '\n'
    · subst hc
      rw [lineBehind, if_pos rfl, hcons, show String.utf8EncodeChar '\n' = [lineFeed] by decide]
      rfl
    · rw [lineBehind, if_neg hc, hcons, hcons, ih,
        throughFeed_append (mt lineFeed_mem_utf8EncodeChar.mp hc)]

/-! ### The byte at a place -/

/-- A byte of a text is one of the bytes of a character. -/
theorem exists_char_at {cs : List Char} {pos : Nat} (h : pos < byteLength cs) :
    ∃ before c rest k, cs = before ++ c :: rest ∧ k < c.utf8Size ∧ pos = byteLength before + k := by
  induction cs generalizing pos with
  | nil => exact absurd h (Nat.not_lt_zero pos)
  | cons c cs ih =>
    rw [byteLength] at h
    by_cases hfirst : pos < c.utf8Size
    · exact ⟨[], c, cs, pos, rfl, hfirst, (Nat.zero_add pos).symm⟩
    · have hlater : pos - c.utf8Size < byteLength cs := by omega
      obtain ⟨before, d, rest, k, rfl, hk, hpos⟩ := ih hlater
      refine ⟨c :: before, d, rest, k, rfl, hk, ?_⟩
      rw [byteLength]
      omega

/-- Behind whole lines and bytes without a line feed, these bytes are the part of the last line
that lies before a place. -/
theorem Line.holds_of_split {line : Line} {lines : List Char} {part rest : List UInt8}
    (hlines : lines = [] ∨ ∃ cs, lines = cs ++ ['\n']) (hpart : lineFeed ∉ part)
    (hnumber : line.number = 1 + lines.count '\n')
    (htext : utf8 line.text = part ++ throughFeed rest) (hoffset : line.offset = part.length) :
    line.Holds (utf8 lines ++ part ++ rest) (byteLength lines + part.length) := by
  have hlength : byteLength lines + part.length = (utf8 lines ++ part).length := by
    rw [List.length_append, length_utf8]
  have hall : ∀ b ∈ part, decide (b ≠ lineFeed) = true := by
    intro b hb
    rw [decide_eq_true_eq]
    rintro rfl
    exact hpart hb
  have hstop : (utf8 lines).rdropWhile (· ≠ lineFeed) = utf8 lines := by
    rcases hlines with rfl | ⟨cs, rfl⟩
    · rfl
    · rw [utf8_append, show utf8 ['\n'] = [lineFeed] by decide]
      exact List.rdropWhile_concat_neg _ _ _ (by simp)
  have hdrop : (utf8 lines ++ part).rdropWhile (· ≠ lineFeed) = utf8 lines := by
    rw [List.rdropWhile, List.reverse_append,
      List.dropWhile_append_of_pos fun b hb => hall b (List.mem_reverse.mp hb)]
    exact hstop
  have htake : (utf8 lines ++ part).rtakeWhile (· ≠ lineFeed) = part := by
    have hwhole := List.rdropWhile_append_rtakeWhile (p := (· ≠ lineFeed))
      (l := utf8 lines ++ part)
    rw [hdrop] at hwhole
    exact List.append_cancel_left hwhole
  refine ⟨?_, ?_, ?_⟩
  · rw [hlength, List.take_left, List.count_append, count_utf8, List.count_eq_zero.mpr hpart,
      Nat.add_zero, hnumber]
  · rw [hlength, List.take_left, List.drop_left, htake, htext]
  · rw [hlength, List.take_left, hdrop, ← hlength, length_utf8, hoffset, Nat.add_sub_cancel_left]

/-- Before the end of a text, the line that is looked up holds the place. -/
theorem exists_lineAt?_holds {content : String} {pos : Nat}
    (h : pos < byteLength content.toList) :
    ∃ line, lineAt? content pos = some line ∧ line.Holds (utf8 content.toList) pos := by
  obtain ⟨before, c, rest, k, hcontent, hk, rfl⟩ := exists_char_at h
  obtain ⟨lines, hbefore, hends⟩ := exists_lines_before before
  have hline := line_not_mem_lineBefore before
  -- The bytes of a character before one of them hold no line feed, which is a byte of its own.
  have hbytes : lineFeed ∉ (String.utf8EncodeChar c).take k := by
    intro hmem
    obtain rfl := lineFeed_mem_utf8EncodeChar.mp (List.mem_of_mem_take hmem)
    obtain rfl : k = 0 := by
      have hsize : '\n'.utf8Size = 1 := by decide
      omega
    exact List.not_mem_nil hmem
  have hpart : lineFeed ∉ utf8 (lineBefore before) ++ (String.utf8EncodeChar c).take k := by
    rw [List.mem_append, lineFeed_mem_utf8]
    exact not_or.mpr ⟨hline, hbytes⟩
  have hlength : ((String.utf8EncodeChar c).take k).length = k := by
    rw [List.length_take, String.length_utf8EncodeChar]
    omega
  have hpos : byteLength before + k = byteLength lines +
      (utf8 (lineBefore before) ++ (String.utf8EncodeChar c).take k).length := by
    have hsplit : byteLength before = byteLength lines + byteLength (lineBefore before) := by
      rw [← byteLength_append, ← hbefore]
    rw [List.length_append, length_utf8, hlength]
    omega
  have hchar : utf8 (c :: rest) = (String.utf8EncodeChar c).take k ++
      ((String.utf8EncodeChar c).drop k ++ utf8 rest) := by
    rw [← List.append_assoc, List.take_append_drop]
    exact List.flatMap_cons
  have hwhole : utf8 content.toList =
      utf8 lines ++ (utf8 (lineBefore before) ++ (String.utf8EncodeChar c).take k) ++
        ((String.utf8EncodeChar c).drop k ++ utf8 rest) := by
    calc utf8 content.toList = utf8 before ++ utf8 (c :: rest) := by rw [hcontent, utf8_append]
      _ = utf8 lines ++ utf8 (lineBefore before) ++ utf8 (c :: rest) := by
          rw [← utf8_append lines, ← hbefore]
      _ = _ := by rw [hchar]; simp only [List.append_assoc]
  refine ⟨_, lineAt?_within hcontent hk, ?_⟩
  rw [hwhole, hpos]
  refine Line.holds_of_split hends hpart ?_ ?_ ?_
  · show 1 + before.count '\n' = _
    rw [← show (lines ++ lineBefore before).count '\n' = before.count '\n' by rw [← hbefore],
      List.count_append, List.count_eq_zero.mpr hline, Nat.add_zero]
  · show utf8 (lineBefore before ++ lineBehind (c :: rest)) = _
    rw [utf8_append, utf8_lineBehind, hchar, throughFeed_append hbytes, List.append_assoc]
  · show byteLength (lineBefore before) + k = _
    rw [List.length_append, length_utf8, hlength]

/-! ### The end of a text -/

theorem splitLines_of_not_mem {cs : List Char} (hne : cs ≠ []) (h : '\n' ∉ cs) :
    splitLines cs = [cs] := by
  induction cs with
  | nil => exact absurd rfl hne
  | cons c cs ih =>
    rw [List.mem_cons, not_or] at h
    by_cases hcs : cs = []
    · simp [hcs, splitLines, Ne.symm h.1]
    · exact splitLines_cons (Ne.symm h.1) (ih hcs h.2)

/-- A text that ends within a line has one line more than line feeds. -/
theorem length_splitLines_concat {cs : List Char} {c : Char} (hc : c ≠ '\n') :
    (splitLines (cs ++ [c])).length = 1 + (cs ++ [c]).count '\n' := by
  obtain ⟨lines, hcs, hends⟩ := exists_lines_before cs
  have hlast : '\n' ∉ lineBefore cs ++ [c] := by
    simp [line_not_mem_lineBefore cs, hc.symm]
  have hwhole : cs ++ [c] = lines ++ (lineBefore cs ++ [c]) := by
    rw [← List.append_assoc, ← hcs]
  obtain ⟨hsplit, hcount⟩ := splitLines_append_lines hends (lineBefore cs ++ [c])
  rw [hwhole, hsplit, splitLines_of_not_mem (by simp) hlast, List.length_append, hcount,
    List.count_append, List.count_eq_zero.mpr hlast, List.length_singleton]
  omega

/-- A text ends within a line, or it is a number of whole lines. -/
theorem openEnd_or_whole (content : String) :
    OpenEnd content (byteLength content.toList) ∨
      (content.toList = [] ∨ ∃ cs, content.toList = cs ++ ['\n']) := by
  rcases List.eq_nil_or_concat content.toList with h | ⟨cs, c, h⟩
  · exact .inr (.inl h)
  · rw [List.concat_eq_append] at h
    by_cases hc : c = '\n'
    · exact .inr (.inr ⟨cs, hc ▸ h⟩)
    · exact .inl ⟨rfl, cs, c, h, hc⟩

/-- At the end of a text that ends within a line, an empty line behind it is found. -/
theorem lineAt?_openEnd {content : String} {pos : Nat} (h : OpenEnd content pos) :
    lineAt? content pos = some ⟨2 + content.toList.count '\n', [], 0⟩ := by
  obtain ⟨rfl, cs, c, hcontent, hc⟩ := h
  rw [lineAt?_end, hcontent, length_splitLines_concat hc, ← Nat.add_assoc]

/-- At the end of a number of whole lines, the empty line behind them is found. -/
theorem lineAt?_whole {content : String}
    (h : content.toList = [] ∨ ∃ cs, content.toList = cs ++ ['\n']) :
    lineAt? content (byteLength content.toList) =
      some ⟨1 + content.toList.count '\n', [], 0⟩ := by
  have hcount := (splitLines_append_lines h []).2
  rw [lineAt?_end, hcount]

/-- At every place but the end of a text that ends within a line, the line that is looked up
holds the place. -/
theorem exists_lineAt?_holds_of_not_openEnd {content : String} {pos : Nat}
    (hpos : pos ≤ byteLength content.toList) (hopen : ¬OpenEnd content pos) :
    ∃ line, lineAt? content pos = some line ∧ line.Holds (utf8 content.toList) pos := by
  rcases Nat.lt_or_eq_of_le hpos with hlt | rfl
  · exact exists_lineAt?_holds hlt
  · have hwhole := (openEnd_or_whole content).resolve_left hopen
    have hholds : Line.Holds ⟨1 + content.toList.count '\n', [], 0⟩
        (utf8 content.toList ++ [] ++ []) (byteLength content.toList + 0) :=
      Line.holds_of_split hwhole List.not_mem_nil rfl rfl rfl
    rw [List.append_nil, List.append_nil, Nat.add_zero] at hholds
    exact ⟨_, lineAt?_whole hwhole, hholds⟩

/-! ### The places of diagnostics -/

/-- The line that is looked up at a place of a text is the one that the position names, except at
the end of a text that ends within a line. -/
theorem Position.Coherent.lineAt? {content : String} {p : Position} (h : p.Coherent content) :
    ∃ line, FrontEnd.lineAt? content p.offset = some line ∧
      (¬OpenEnd content p.offset → line.number = p.line) ∧
      (OpenEnd content p.offset → line.number = p.line + 1) := by
  obtain ⟨before, rest, hcontent, hoffset, hline, -⟩ := h
  by_cases hrest : rest = []
  · rw [hrest, List.append_nil] at hcontent
    rw [hoffset, hline, ← hcontent]
    by_cases hopen : OpenEnd content (byteLength content.toList)
    · exact ⟨_, lineAt?_openEnd hopen, fun hnot => absurd hopen hnot, fun _ => by
        show 2 + _ = _
        omega⟩
    · have hwhole := (openEnd_or_whole content).resolve_left hopen
      exact ⟨_, lineAt?_whole hwhole, fun _ => rfl, fun h => absurd h hopen⟩
  · have hinside : ¬OpenEnd content p.offset := by
      rintro ⟨hend, -⟩
      have hpos := byteLength_pos hrest
      rw [hcontent, byteLength_append] at hend
      omega
    have hplace := hoffset ▸ lineAt?_place hcontent hrest
    exact ⟨_, hplace, fun _ => hline.symm, fun h => absurd h hinside⟩

/-- **Line lookup.**  A place of a text is looked up on the line that holds it, byte by byte and
also inside a character, and no place past the end of the text is; only at the end of a text that
ends within a line the look-up gives an empty line behind this one.  So what is looked up for a
diagnostic has the number of the line that the diagnostic names, or, at such an end, the next. -/
theorem lineAt?_spec (content : String) :
    (∀ pos, byteLength content.toList < pos → lineAt? content pos = none) ∧
    (∀ pos ≤ byteLength content.toList,
      ∃ line, lineAt? content pos = some line ∧
        (¬OpenEnd content pos → line.Holds (utf8 content.toList) pos) ∧
        (OpenEnd content pos → line = ⟨2 + content.toList.count '\n', [], 0⟩)) ∧
    ∀ d ∈ (parseSource content).diagnostics,
      ∃ line, lineAt? content d.span.start.offset = some line ∧
        (¬OpenEnd content d.span.start.offset → line.number = d.span.start.line) ∧
        (OpenEnd content d.span.start.offset → line.number = d.span.start.line + 1) := by
  refine ⟨fun pos hpos => ?_, fun pos hpos => ?_, fun d hd => ?_⟩
  · unfold lineAt?
    exact if_pos hpos
  · by_cases hopen : OpenEnd content pos
    · exact ⟨_, lineAt?_openEnd hopen, fun hnot => absurd hopen hnot, fun _ => rfl⟩
    · obtain ⟨line, hline, hholds⟩ := exists_lineAt?_holds_of_not_openEnd hpos hopen
      exact ⟨line, hline, fun _ => hholds, fun h => absurd h hopen⟩
  · exact (marked_of_mem_diagnostics hd).1.lineAt?

/-- A block without its end, behind a comment with a character of two bytes. -/
def unclosedText : String := "// é\nfn f() \x7b"

/-- A place inside a character, a place past the end, and the place of the diagnostic. -/
theorem lineAt?_spec_unclosedText :
    (∃ line, lineAt? unclosedText 4 = some line ∧ line.Holds (utf8 unclosedText.toList) 4) ∧
      lineAt? unclosedText 15 = none ∧
      ∀ d ∈ (parseSource unclosedText).diagnostics,
        ∃ line, lineAt? unclosedText d.span.start.offset = some line ∧
          line.number = d.span.start.line + 1 := by
  obtain ⟨hpast, hinside, hdiagnostics⟩ := lineAt?_spec unclosedText
  have hends : (parseSource unclosedText).diagnostics.map (·.span.start.offset) = [14] := by
    decide +kernel
  refine ⟨?_, hpast 15 (by decide), fun d hd => ?_⟩
  · obtain ⟨line, hline, hholds, -⟩ := hinside 4 (by decide)
    exact ⟨line, hline, hholds fun h => absurd h.1 (by decide)⟩
  · obtain ⟨line, hline, -, hnumber⟩ := hdiagnostics d hd
    have hoffset : d.span.start.offset = 14 := by
      have hmem := List.mem_map_of_mem (f := (·.span.start.offset)) hd
      rw [hends] at hmem
      exact List.mem_singleton.mp hmem
    refine ⟨line, hline, hnumber ⟨by rw [hoffset]; decide, ?_⟩⟩
    exact ⟨"// é\nfn f() ".toList, '\x7b', by decide, by decide⟩

/-- The end of a text of one letter lies on its only line, but it is looked up on a second one;
and so is the place of the diagnostic of a block without its end. -/
theorem lineAt?_openEnd_wrong :
    (∃ line, lineAt? "a" 1 = some line ∧ ¬line.Holds (utf8 "a".toList) 1 ∧
      (⟨1, ['a'], 1⟩ : Line).Holds (utf8 "a".toList) 1) ∧
    (parseSource "fn f() \x7b").diagnostics.map (·.span.start) = [⟨8, 1, 9⟩] ∧
      lineAt? "fn f() \x7b" 8 = some ⟨2, [], 0⟩ := by
  refine ⟨⟨⟨2, [], 0⟩, by decide, fun h => ?_, by decide, by decide, by decide⟩, by decide +kernel,
    by decide⟩
  have hnumber : 2 = 1 + ((utf8 "a".toList).take 1).count lineFeed := h.number
  revert hnumber
  decide

end FrontEnd
