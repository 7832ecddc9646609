/-
How a literal cuts the text that it starts.

Reading goes through the characters between the quotes once, and puts aside plain characters
until something else comes.  What it gives is told here by the text alone: which bytes the
segments cover, what may stand in a run of text, and where something is wrong.

* `between?_ranged` — each segment is what stands in the text at its own bytes;
* `join_plain` — a run of text is not empty, and none of its characters is a quote, a
  backslash or a line feed;
* `isChain_join` — two runs of text never stand next to each other;
* `filterMap_ranged` — what is wrong inside a literal are its invalid segments in order;
* `scan_cuts` — all of this for the literal at the start of any text.
-/
import FrontEnd.Proofs.Literal.Agreement
import FrontEnd.Proofs.Token.Bytewise

namespace FrontEnd.Literal

/-- Segments with the bytes where they start and end, the first of which starts at `first`. -/
def ranged (first : Nat) : List Segment → List (Segment × Nat × Nat)
  | [] => []
  | s :: segments =>
    let last := first + byteLength s.raw.toList
    (s, first, last) :: ranged last segments

/-- What is wrong with the segment between the bytes `first` and `last`. -/
def problemOf? : Segment × Nat × Nat → Option Problem
  | (.invalid raw, first, last) => some ⟨.invalidEscape raw, first, last⟩
  | _ => none

/-- Plain characters. -/
def Segment.isText : Segment → Bool
  | text _ => true
  | _ => false

/-- The byte where the contents of a literal end. -/
def stop (l : Literal) : Nat :=
  if l.terminated then byteLength l.raw - 1 else byteLength l.raw

/-- The literal `l` at the start of `input` takes up its first bytes, as reading between
two marks `quote` should have it. -/
structure Cuts (quote : Char) (input : List Char) (l : Literal) : Prop where
  /-- The segments put end to end stand behind the opening quote. -/
  contents : between? input 1 l.stop = some (l.segments.flatMap (·.raw.toList))
  /-- Each of them covers the bytes it is said to cover. -/
  ranges : ∀ s first last, (s, first, last) ∈ ranged 1 l.segments →
    between? input first last = some s.raw.toList
  /-- A literal with its closing quote ends behind it. -/
  closed : l.terminated → between? input l.stop (byteLength l.raw) = some [quote]
  /-- One without ends before a line feed or at the end of the text. -/
  unclosed : l.terminated = false → byteLength l.raw = byteLength input ∨
    between? input (byteLength l.raw) (byteLength l.raw + 1) = some ['\n']
  /-- Runs of text are not empty and hold plain characters only. -/
  plain : ∀ run, .text run ∈ l.segments → run ≠ "" ∧
    ∀ c ∈ run.toList, c ≠ quote ∧ c ≠ '\\' ∧ c ≠ '\n'
  /-- Runs of text do not touch. -/
  apart : l.segments.IsChain fun a b => ¬ (a.isText ∧ b.isText)
  /-- No segment ends a line. -/
  line : ∀ s ∈ l.segments, '\n' ∉ s.raw.toList
  /-- What is wrong are the invalid segments in order and then a missing closing quote. -/
  problems : l.problems = (ranged 1 l.segments).filterMap problemOf? ++
    if l.terminated then [] else [⟨unterminated quote, 0, byteLength l.raw⟩]

/-! ### The bytes of the segments -/

theorem between?_ranged {input before : List Char} {segments : List Segment} {rest : List Char}
    (hinput : input = before ++ (segments.flatMap (·.raw.toList) ++ rest)) :
    ∀ s first last, (s, first, last) ∈ ranged (byteLength before) segments →
      between? input first last = some s.raw.toList := by
  induction segments generalizing before with
  | nil => simp [ranged]
  | cons s segments ih =>
    rw [List.flatMap_cons, List.append_assoc] at hinput
    intro s' first last hmem
    rcases List.mem_cons.mp hmem with heq | hmem
    · obtain ⟨rfl, rfl, rfl⟩ := by simpa using heq
      rw [hinput]
      exact between?_append before _ _
    · rw [← byteLength_append] at hmem
      exact ih (by rw [hinput, List.append_assoc]) s' first last hmem

/-! ### Runs of text -/

/-- The plain characters of a literal are none of those that reading stops or turns at. -/
theorem plain_of_mem_contents {quote : Char} {text : List Char} {c : Char}
    (h : .plain c ∈ (contents quote text).elements) : c ≠ quote ∧ c ≠ '\\' ∧ c ≠ '\n' := by
  rcases mem_contents h with ⟨d, heq, hstops⟩ | ⟨cs, heq⟩
  · obtain rfl := Element.plain.inj heq
    exact hstops
  · exact absurd heq.symm (backslashed_ne_plain quote cs c)

/-- The runs of text that joining leaves are made of the plain characters that go into them. -/
theorem join_plain {P : Char → Prop} {run : List Char} {es : List Element}
    (hrun : ∀ c ∈ run, P c) (hes : ∀ c, .plain c ∈ es → P c) {joined : String}
    (h : .text joined ∈ join run es) : joined ≠ "" ∧ ∀ c ∈ joined.toList, P c := by
  have hflush : ∀ {run : List Char} {rest : List Segment}, (∀ c ∈ run, P c) →
      .text joined ∈ flush run rest → .text joined ∉ rest →
        joined ≠ "" ∧ ∀ c ∈ joined.toList, P c := by
    intro run rest hrun hmem hrest
    unfold flush at hmem
    split at hmem
    · exact absurd hmem hrest
    · next hne =>
      rcases List.mem_cons.mp hmem with heq | hmem
      · obtain rfl := Segment.text.inj heq
        refine ⟨fun hempty => hne ?_, fun c hc => hrun c (by simpa using hc)⟩
        rw [List.isEmpty_iff]
        simpa using congrArg String.toList hempty
      · exact absurd hmem hrest
  induction es generalizing run with
  | nil => exact hflush hrun h (by simp)
  | cons e es ih =>
    have htail : ∀ c, .plain c ∈ es → P c := fun c hc => hes c (List.mem_cons_of_mem e hc)
    cases e with
    | plain c =>
      have hc : P c := hes c (by simp)
      exact ih (by simpa using ⟨hc, hrun⟩) htail h
    | escape raw value =>
      by_cases hlater : .text joined ∈ join [] es
      · exact ih (by simp) htail hlater
      · exact hflush hrun h (by simpa using hlater)
    | invalid raw =>
      by_cases hlater : .text joined ∈ join [] es
      · exact ih (by simp) htail hlater
      · exact hflush hrun h (by simpa using hlater)

/-- Two runs of text never stand next to each other. -/
theorem isChain_join (run : List Char) (es : List Element) :
    (join run es).IsChain fun a b => ¬ (a.isText ∧ b.isText) := by
  have hflush : ∀ {run : List Char} {s : Segment} {rest : List Segment}, s.isText = false →
      rest.IsChain (fun a b => ¬ (a.isText ∧ b.isText)) →
        (flush run (s :: rest)).IsChain fun a b => ¬ (a.isText ∧ b.isText) := by
    intro run s rest hs hrest
    have hhead : (s :: rest).IsChain fun a b => ¬ (a.isText ∧ b.isText) :=
      List.isChain_cons.mpr ⟨fun b _ hboth => by simp [hs] at hboth, hrest⟩
    unfold flush
    split
    · exact hhead
    · refine List.isChain_cons.mpr ⟨fun b hb hboth => ?_, hhead⟩
      obtain rfl := Option.some.inj hb
      simp [hs] at hboth
  induction es generalizing run with
  | nil =>
    unfold join flush
    split <;> simp
  | cons e es ih =>
    cases e with
    | plain c => exact ih (c :: run)
    | escape raw value => exact hflush rfl (ih [])
    | invalid raw => exact hflush rfl (ih [])

/-! ### What is wrong -/

/-- A run of text in front only moves what is wrong. -/
theorem filterMap_ranged_flush (first : Nat) (run : List Char) (segments : List Segment) :
    (ranged first (flush run segments)).filterMap problemOf? =
      (ranged (first + byteLength run.reverse) segments).filterMap problemOf? := by
  unfold flush
  split
  · next hrun =>
    rw [List.isEmpty_iff.mp hrun]
    rfl
  · rw [ranged, List.filterMap_cons_none rfl, Segment.raw, String.toList_ofList]

/-- The invalid segments are the invalid elements. -/
theorem filterMap_ranged (first : Nat) (run : List Char) (es : List Element) :
    (ranged first (join run es)).filterMap problemOf? =
      invalidElements (first + byteLength run.reverse) es := by
  induction es generalizing first run with
  | nil =>
    rw [join, filterMap_ranged_flush]
    rfl
  | cons e es ih =>
    cases e with
    | plain c =>
      rw [join, ih, List.reverse_cons, byteLength_append, ← Nat.add_assoc]
      rfl
    | escape raw value =>
      rw [join, filterMap_ranged_flush, ranged, List.filterMap_cons_none rfl, ih]
      simp [invalidElements, Segment.raw, Element.raw, byteLength]
    | invalid raw =>
      rw [join, filterMap_ranged_flush, ranged, List.filterMap_cons]
      simp only [problemOf?, ih]
      simp [invalidElements, Segment.raw, Element.raw, byteLength]

/-! ### The literal at the start of a text -/

theorem cuts_scan_cons {quote : Char} (hq : IsQuote quote) (text : List Char) :
    Cuts quote (quote :: text) (scan quote text) := by
  have hsize : byteLength [quote] = 1 := by rw [byteLength_singleton, hq.utf8Size]
  have hparts := scan_partition quote text
  rw [raw_segments, List.cons_append, List.append_assoc] at hparts
  -- the text is the opening quote, the segments, the closing quote if there is one, the rest
  have hinput : quote :: text = [quote] ++ ((scan quote text).segments.flatMap (·.raw.toList) ++
      (closing quote (scan quote text).terminated ++ (Literal.contents quote text).rest)) :=
    hparts.symm
  have hraw : byteLength (scan quote text).raw =
      1 + byteLength ((scan quote text).segments.flatMap (·.raw.toList)) +
        byteLength (closing quote (scan quote text).terminated) := by
    rw [raw_segments, ← hsize, ← List.singleton_append, byteLength_append, byteLength_append,
      ← Nat.add_assoc]
    rfl
  have hstop : (scan quote text).stop =
      1 + byteLength ((scan quote text).segments.flatMap (·.raw.toList)) := by
    unfold stop
    rw [hraw]
    split
    · next h => rw [h, closing, if_pos rfl, hsize, Nat.add_sub_cancel]
    · next h => rw [closing, if_neg h, byteLength, Nat.add_zero]
  have hcontents := between?_append [quote] ((scan quote text).segments.flatMap (·.raw.toList))
    (closing quote (scan quote text).terminated ++ (Literal.contents quote text).rest)
  rw [← hinput, hsize, ← hstop] at hcontents
  refine ⟨hcontents, ?_, fun h => ?_, fun h => ?_, fun run hrun => ?_, isChain_join [] _,
    fun s hs hline => ?_, ?_⟩
  · exact hsize ▸ between?_ranged hinput
  · have hcut := between?_append ([quote] ++ (scan quote text).segments.flatMap (·.raw.toList))
      (closing quote (scan quote text).terminated) (Literal.contents quote text).rest
    rw [List.append_assoc, ← hinput, byteLength_append, hsize, ← hraw, ← hstop] at hcut
    rw [hcut, h, closing, if_pos rfl]
  · rw [h] at hinput hraw
    have hlen : byteLength (scan quote text).raw =
        byteLength ([quote] ++ (scan quote text).segments.flatMap (·.raw.toList)) := by
      rw [hraw, byteLength_append, hsize]
      rfl
    rcases rest_of_unterminated quote text h with hrest | ⟨ds, hrest⟩
    · left
      rw [hinput, hrest, hlen]
      simp [closing]
    · right
      have hline : byteLength ['\n'] = 1 := by decide
      have hcut := between?_append ([quote] ++ (scan quote text).segments.flatMap (·.raw.toList))
        ['\n'] ds
      rw [← hlen, hline, List.append_assoc] at hcut
      rw [hinput, hrest, closing, if_neg (by decide)]
      exact hcut
  · exact join_plain (by simp) (fun c hc => plain_of_mem_contents hc) hrun
  · exact line_not_mem_segments quote text (List.mem_flatMap_of_mem hs hline)
  · have hwrong := filterMap_ranged 1 [] (scan quote text).elements
    unfold Literal.problems
    rw [segments, hwrong]
    exact congrArg (invalidElements · _ ++ _) hq.utf8Size

/-- A text that starts with a quote is cut by the literal that starts there: the segments
cover, one after the other, what stands between the quotes, and what is wrong are the invalid
ones among them and a missing closing quote. -/
theorem scan_cuts (quote : Char) (hq : IsQuote quote) (input : String)
    (hstart : input.toList.head? = some quote) :
    ∃ l, scanString? quote input = some l ∧ Cuts quote input.toList l := by
  obtain ⟨text, htext⟩ := List.head?_eq_some_iff.mp hstart
  refine ⟨scan quote text, ?_, htext ▸ cuts_scan_cons hq text⟩
  rw [← scanString?_cons, ← htext, String.ofList_toList]

/-- A literal with an escape that stands for nothing, characters of several bytes and no closing
quote before the end of its line. -/
theorem scan_cuts_unterminated : IsQuote '"' ∧ "\"é\\t\\Uü\\\" \n\"".toList.head? = some '"' ∧
    ∃ l, scanString? '"' "\"é\\t\\Uü\\\" \n\"" = some l ∧
      Cuts '"' "\"é\\t\\Uü\\\" \n\"".toList l :=
  ⟨.inl rfl, by decide, scan_cuts '"' (.inl rfl) _ (by decide)⟩

end FrontEnd.Literal
