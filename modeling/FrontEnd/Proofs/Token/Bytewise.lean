/-
Cutting a text by byte offsets.

Pieces are cut from the characters of a text, so that no offset can fall inside a character.
Here the same work is done with offsets alone: each step cuts the text at a byte, and fails if
that lies past the end or inside a character.

* `Literal.scanAt?` — reads a literal by offsets counted from its opening quote;
* `Lexeme.firstAt?` — cuts off the first piece by its length in bytes;
* `tokenizeBytes?` — moves a cursor over a text, piece by piece, and looks ahead of it for what
  is wrong;
* `tokenizeBytes?_eq` — none of this ever fails, and it gives the pieces of the text.
-/
import FrontEnd.Proofs.Literal.Scan
import FrontEnd.Proofs.Token.Problems
import FrontEnd.Source.Cursor

namespace FrontEnd

theorem byteLength_singleton (c : Char) : byteLength [c] = c.utf8Size := by
  simp [byteLength]

/-- Cutting behind a leading run and one more character. -/
theorem splitAtByte?_append_cons (before : List Char) (c : Char) (cs : List Char) :
    splitAtByte? (byteLength before + c.utf8Size) (before ++ c :: cs) =
      some (before ++ [c], cs) := by
  have hsplit := splitAtByte?_append (before ++ [c]) cs
  rwa [byteLength_append, byteLength_singleton, List.append_assoc, List.singleton_append] at hsplit

/-! ### Literals -/

namespace Literal

/-- What stands in `input` between two byte offsets. -/
def between? (input : List Char) (first last : Nat) : Option (List Char) := do
  let (_, text) ← splitAtByte? first input
  let (covered, _) ← if first ≤ last then splitAtByte? (last - first) text else none
  return covered

theorem between?_append (before covered rest : List Char) :
    between? (before ++ (covered ++ rest)) (byteLength before)
      (byteLength before + byteLength covered) = some covered := by
  simp [between?, splitAtByte?_append]

/-- The element that starts with the backslash at the byte `pos` of `input`. -/
def backslashedAt? (quote : Char) (input : List Char) (pos : Nat) : Option Element := do
  let (_, text) ← splitAtByte? pos input
  match Escape.body (text.drop 1) with
  | some body =>
    match Escape.decodeBody? body with
    | some value => return .escape ('\\' :: body) value
    | none => return .invalid ('\\' :: body)
  | none =>
    let (_, behind) ← splitAtByte? (pos + 1) input
    let stop := match behind with
      | [] => pos + 1
      | c :: _ => if c = quote ∨ c = '\n' then pos + 1 else pos + 1 + c.utf8Size
    return .invalid (← between? input pos stop)

theorem backslashedAt?_eq (quote : Char) (before cs : List Char) :
    backslashedAt? quote (before ++ '\\' :: cs) (byteLength before) =
      some (backslashed quote cs) := by
  have hbehind : splitAtByte? (byteLength before + 1) (before ++ '\\' :: cs) =
      some (before ++ ['\\'], cs) := splitAtByte?_append_cons before '\\' cs
  have halone : between? (before ++ '\\' :: cs) (byteLength before) (byteLength before + 1) =
      some ['\\'] := between?_append before ['\\'] cs
  unfold backslashedAt? backslashed
  simp only [splitAtByte?_append, Option.bind_eq_bind, Option.bind_some, List.drop_one,
    List.tail_cons]
  cases Escape.body cs with
  | some body =>
    dsimp only
    cases Escape.decodeBody? body <;> rfl
  | none =>
    simp only [hbehind, Option.bind_some]
    cases cs with
    | nil => simp [halone]
    | cons c cs =>
      by_cases hstop : c = quote ∨ c = '\n'
      · simp [hstop, halone]
      · have hboth : between? (before ++ '\\' :: c :: cs) (byteLength before)
            (byteLength before + (1 + c.utf8Size)) = some ['\\', c] :=
          between?_append before ['\\', c] cs
        rw [← Nat.add_assoc] at hboth
        simp [hstop, hboth]

/-- The element that starts with the character `c` at the byte `pos` of `input`. -/
def elementAt? (quote : Char) (input : List Char) (pos : Nat) (c : Char) : Option Element :=
  if c ≠ '\\' then some (.plain c) else backslashedAt? quote input pos

/-- What reading a literal by offsets gives. -/
structure Extent where
  elements : List Element
  terminated : Bool
  /-- Where the literal ends. -/
  stop : Nat
deriving DecidableEq, Repr

/-- Puts an element in front. -/
def Extent.cons (e : Element) (x : Extent) : Extent := { x with elements := e :: x.elements }

/-- Reads what stands in `input` from the byte `pos` on, up to the closing quote. -/
def contentsAt? (quote : Char) (input : List Char) (pos : Nat) : Option Extent := do
  let (_, text) ← splitAtByte? pos input
  match text with
  | [] => return ⟨[], false, byteLength input⟩
  | c :: _ =>
    if c = quote then return ⟨[], true, pos + c.utf8Size⟩
    else if c = '\n' then return ⟨[], false, pos⟩
    else
      let element ← elementAt? quote input pos c
      -- An element starts inside the text and takes up at least a byte.
      if _ : 0 < byteLength element.raw ∧ pos < byteLength input then
        return (← contentsAt? quote input (pos + byteLength element.raw)).cons element
      else none
termination_by byteLength input - pos

/-- Reading goes on behind an element. -/
theorem contentsAt?_step {quote c : Char} {before cs : List Char} (element : Element)
    (hquote : c ≠ quote) (hline : c ≠ '\n') (hne : element.raw ≠ [])
    (helement : elementAt? quote (before ++ c :: cs) (byteLength before) c = some element) :
    contentsAt? quote (before ++ c :: cs) (byteLength before) =
      (contentsAt? quote (before ++ c :: cs) (byteLength before + byteLength element.raw)).map
        (Extent.cons element) := by
  have hpos := byteLength_pos hne
  have hinside : byteLength before < byteLength (before ++ c :: cs) := by
    have hrest := byteLength_pos (List.cons_ne_nil c cs)
    rw [byteLength_append]
    omega
  rw [contentsAt?]
  simp only [splitAtByte?_append, Option.bind_eq_bind, Option.bind_some, if_neg hquote,
    if_neg hline, helement]
  rw [dif_pos ⟨hpos, hinside⟩]
  cases contentsAt? quote (before ++ c :: cs) (byteLength before + byteLength element.raw) <;> rfl

/-- Reading by offsets gives what reading the characters does. -/
theorem contentsAt?_eq (quote : Char) (before text : List Char) :
    contentsAt? quote (before ++ text) (byteLength before) =
      some ⟨(contents quote text).elements, (contents quote text).terminated,
        byteLength before + byteLength ((contents quote text).elements.flatMap Element.raw ++
          closing quote (contents quote text).terminated)⟩ := by
  fun_induction contents quote text generalizing before with
  | case1 =>
    rw [contentsAt?, splitAtByte?_append]
    simp [closing, byteLength]
  | case2 cs =>
    rw [contentsAt?, splitAtByte?_append]
    simp [closing, byteLength]
  | case3 cs hquote =>
    rw [contentsAt?, splitAtByte?_append]
    simp [closing, byteLength, hquote]
  | case4 c cs hquote hline hslash ih =>
    rw [contentsAt?_step (.plain c) hquote hline (by simp [Element.raw]) (if_pos hslash)]
    have hnext := ih (before ++ [c])
    rw [List.append_assoc, List.singleton_append, byteLength_append] at hnext
    rw [show Element.raw (.plain c) = [c] from rfl, hnext]
    simp [Extent.cons, Element.raw, byteLength, Nat.add_assoc]
  | case5 c cs hquote hline hslash element ih =>
    obtain rfl : c = '\\' := by simpa using hslash
    obtain ⟨b, hraw, tail, rfl⟩ := raw_backslashed quote cs
    have helement : element.raw = '\\' :: b := hraw
    rw [contentsAt?_step element hquote hline (by simp [helement])
      ((if_neg hslash).trans (backslashedAt?_eq ..))]
    have hlen : element.raw.length - 1 = b.length := by
      rw [helement, List.length_cons, Nat.add_sub_cancel]
    rw [hlen, List.drop_left] at ih ⊢
    have hnext := ih (before ++ element.raw)
    rw [List.append_assoc, byteLength_append] at hnext
    have hsame : before ++ '\\' :: (b ++ tail) = before ++ (element.raw ++ tail) := by
      rw [helement, List.cons_append]
    rw [hsame, hnext]
    simp [Extent.cons, Nat.add_assoc]

/-- Reads the literal at the start of `input`: the literal, and its length in bytes. -/
def scanAt? (quote : Char) (input : List Char) : Option (Literal × Nat) := do
  let x ← contentsAt? quote input quote.utf8Size
  return (⟨quote, x.elements, x.terminated⟩, x.stop)

theorem scanAt?_eq (quote : Char) (text : List Char) :
    scanAt? quote (quote :: text) =
      some (scan quote text, byteLength (scan quote text).raw) := by
  have hread := contentsAt?_eq quote [quote] text
  rw [byteLength_singleton, List.singleton_append] at hread
  unfold scanAt?
  rw [hread]
  simp [scan, raw_eq, byteLength]

end Literal

/-! ### Where something is wrong with a piece -/

/-- The problem lies between two places of the piece `text`. -/
def Problem.Within (text : List Char) (problem : Problem) : Prop :=
  ∃ before covered rest, text = before ++ (covered ++ rest) ∧
    problem.first = byteLength before ∧ problem.last = byteLength before + byteLength covered

/-- The problem is one of the whole piece. -/
theorem Problem.within_whole (cause : Cause) (text : List Char) :
    Problem.Within text ⟨cause, 0, byteLength text⟩ :=
  ⟨[], text, [], by simp, rfl, (Nat.zero_add _).symm⟩

theorem Literal.within_of_mem_invalidElements (before rest : List Char) {es : List Element}
    {problem : Problem} (h : problem ∈ invalidElements (byteLength before) es) :
    problem.Within (before ++ (es.flatMap Element.raw ++ rest)) := by
  obtain ⟨pre, raw, post, rfl, rfl⟩ := exists_of_mem_invalidElements h
  refine ⟨before ++ pre.flatMap Element.raw, raw, post.flatMap Element.raw ++ rest, ?_, ?_, ?_⟩
  · simp [Element.raw]
  · exact (byteLength_append _ _).symm
  · rw [byteLength_append]

theorem Literal.within_of_mem_problems {l : Literal} {problem : Problem}
    (h : problem ∈ l.problems) : problem.Within l.raw := by
  rcases List.mem_append.mp h with hmem | hmem
  · rw [← byteLength_singleton] at hmem
    exact within_of_mem_invalidElements [l.quote] _ hmem
  · split at hmem
    · simp at hmem
    · obtain rfl := List.mem_singleton.mp hmem
      exact Problem.within_whole _ _

namespace Lexeme

theorem within_of_mem_sizeProblems {l : Literal} {problem : Problem}
    (h : problem ∈ sizeProblems l) : problem.Within l.raw := by
  unfold sizeProblems at h
  split at h
  · split at h
    · obtain rfl := List.mem_singleton.mp h
      exact Problem.within_whole _ _
    · simp at h
    · obtain rfl := List.mem_singleton.mp h
      exact Problem.within_whole _ _
  · simp at h

/-- What is wrong with a piece is wrong between two places of it. -/
theorem within_of_mem_problems {c : Char} {cs : List Char} {problem : Problem}
    (h : problem ∈ (first c cs).problems) : problem.Within (first c cs).text := by
  unfold first at h ⊢
  split at h
  · obtain rfl := List.mem_singleton.mp h
    rw [← byteLength_singleton]
    exact Problem.within_whole _ _
  · split at h
    · simp [trivia] at h
    · simp [trivia] at h
    · simp [trivia] at h
    · simp [token] at h
    · simp [token] at h
    · exact Literal.within_of_mem_problems h
    · rcases List.mem_append.mp h with h | h
      · exact Literal.within_of_mem_problems h
      · exact within_of_mem_sizeProblems h
    · simp [token] at h

end Lexeme

/-! ### Moving a cursor -/

/-- A number of bytes ahead, if that is a place between characters. -/
theorem Position.ahead_append (p : Position) (before rest : List Char) :
    p.ahead (byteLength before) (before ++ rest) = p.after before := by
  induction before generalizing p with
  | nil => simp [byteLength, ahead]
  | cons c before ih =>
    obtain ⟨n, hn⟩ : ∃ n, byteLength (c :: before) = n + 1 :=
      ⟨byteLength (c :: before) - 1, by have := byteLength_pos (List.cons_ne_nil c before); omega⟩
    have hleft : n + 1 - c.utf8Size = byteLength before := by
      rw [← hn, byteLength, Nat.add_sub_cancel_left]
    rw [hn, List.cons_append, ahead, hleft, ih, after_cons]

namespace Cursor

variable (p : Position) (run rest : List Char)

theorem take?_append :
    (⟨p, run ++ rest⟩ : Cursor).take? (byteLength run) =
      some (String.ofList run, ⟨p, p.after run⟩, ⟨p.after run, rest⟩) := by
  simp [take?, splitAtByte?_append]

theorem advance?_append :
    (⟨p, run ++ rest⟩ : Cursor).advance? (byteLength run) = some ⟨p.after run, rest⟩ := by
  have hmin : min (byteLength run) (byteLength (run ++ rest)) = byteLength run := by
    rw [byteLength_append]
    omega
  simp only [advance?]
  rw [hmin, take?_append]
  rfl

theorem ahead?_append :
    (⟨p, run ++ rest⟩ : Cursor).ahead? (byteLength run) = some (p.after run) := by
  rw [ahead?, advance?_append]
  rfl

/-- The diagnostic for a problem of the piece at the cursor. -/
def locate? (c : Cursor) (problem : Problem) : Option Diagnostic := do
  let first ← c.ahead? problem.first
  let last ← c.ahead? problem.last
  return ⟨problem.cause, ⟨first, last⟩⟩

variable {run}

theorem locate?_eq {problem : Problem} (h : problem.Within run) :
    (⟨p, run ++ rest⟩ : Cursor).locate? problem = some (problem.locate p run) := by
  obtain ⟨before, covered, behind, rfl, hfirst, hlast⟩ := h
  rw [← byteLength_append] at hlast
  have hstart := ahead?_append p before (covered ++ (behind ++ rest))
  have hstop := ahead?_append p (before ++ covered) (behind ++ rest)
  have hplaceStart := p.ahead_append before (covered ++ behind)
  have hplaceStop := p.ahead_append (before ++ covered) behind
  simp only [List.append_assoc] at hstart hstop hplaceStart hplaceStop
  simp only [locate?, Problem.locate, List.append_assoc, hfirst, hlast, hstart, hstop,
    hplaceStart, hplaceStop]
  rfl

theorem mapM_locate? {problems : List Problem} (h : ∀ problem ∈ problems, problem.Within run) :
    problems.mapM (⟨p, run ++ rest⟩ : Cursor).locate? =
      some (problems.map (·.locate p run)) := by
  induction problems with
  | nil => rfl
  | cons problem problems ih =>
    rw [List.mapM_cons, locate?_eq p rest (h problem (by simp)),
      ih fun problem' h' => h problem' (List.mem_cons_of_mem _ h')]
    rfl

end Cursor

/-! ### Pieces -/

namespace Lexeme

/-- The first piece of what is left at a cursor, cut off by its length in bytes. -/
def firstAt? (c : Cursor) : Option Lexeme :=
  match Rule.first? c.rest with
  | none => do
    let character ← c.peek?
    let (text, _, _) ← c.take? character.utf8Size
    return { kind := .trivia .skipped, text := text.toList
             problems := [⟨.unrecognised text, 0, character.utf8Size⟩] }
  | some (rule, matched) => do
    let (text, _, _) ← c.take? (byteLength matched)
    match rule with
    | .whitespace => return trivia .whitespace text.toList
    | .lineComment =>
      let (_, _, behind) ← c.take? 2
      let kind := if behind.peek? = some '/' then .doc else .line
      return trivia (.comment kind) text.toList
    | .blockComment => return trivia (.comment .block) text.toList
    | .word => return token (.ofWord text) text.toList
    | .number => return token .number text.toList
    | .string => do
      let (l, length) ← Literal.scanAt? '"' c.rest
      let (text, _, _) ← c.take? length
      return { kind := .token .string, text := text.toList, problems := l.problems }
    | .char => do
      let (l, length) ← Literal.scanAt? '\'' c.rest
      let (text, _, _) ← c.take? length
      return { kind := .token .char, text := text.toList
               problems := l.problems ++ sizeProblems l }
    | .symbol s => return token s text.toList

/-- Two slashes are two bytes, and a third one behind them is also part of the comment. -/
theorem lineComment_behind {cs matched : List Char}
    (h : Rule.lineComment.match? cs = some matched) :
    ∃ behind, cs = ['/', '/'] ++ behind ∧
      (behind.head? = some '/' ↔ (matched.drop 2).head? = some '/') := by
  unfold Rule.match? at h
  split at h <;> simp_all
  next cs =>
    subst h
    cases cs with
    | nil => simp
    | cons c cs => by_cases hc : c = '\n' <;> simp [hc]

/-- Cutting by bytes gives the first piece. -/
theorem firstAt?_eq (p : Position) (c : Char) (cs : List Char) :
    firstAt? ⟨p, c :: cs⟩ = some (first c cs) := by
  unfold firstAt? first
  cases hfirst : Rule.first? (c :: cs) with
  | none =>
    have htake := Cursor.take?_append p [c] cs
    rw [byteLength_singleton, List.singleton_append] at htake
    simp only [Cursor.peek?, List.head?_cons, Option.bind_eq_bind, Option.bind_some, htake,
      String.toList_ofList]
    rfl
  | some found =>
    obtain ⟨rule, matched⟩ := found
    have hmatch := Rule.first?_eq_some hfirst
    obtain ⟨-, rest, hrest⟩ := Rule.match?_eq_some hmatch
    have htake : (⟨p, c :: cs⟩ : Cursor).take? (byteLength matched) = some (String.ofList matched,
        ⟨p, p.after matched⟩, ⟨p.after matched, rest⟩) := by
      rw [← hrest]
      exact Cursor.take?_append p matched rest
    have hliteral : ∀ quote, c = quote → (⟨p, c :: cs⟩ : Cursor).take?
        (byteLength (Literal.scan quote cs).raw) =
          some (String.ofList (Literal.scan quote cs).raw, ⟨p, p.after (Literal.scan quote cs).raw⟩,
            ⟨p.after (Literal.scan quote cs).raw, (Literal.contents quote cs).rest⟩) := by
      rintro quote rfl
      have htake := Cursor.take?_append p (Literal.scan c cs).raw (Literal.contents c cs).rest
      rwa [Literal.scan_partition] at htake
    simp only [htake, Option.bind_eq_bind, Option.bind_some, Option.pure_def,
      String.toList_ofList]
    cases rule with
    | whitespace | blockComment | word | number | symbol => rfl
    | lineComment =>
      obtain ⟨behind, hbehind, hdoc⟩ := lineComment_behind hmatch
      have htwo : (⟨p, c :: cs⟩ : Cursor).take? 2 =
          some ("//", ⟨p, p.after ['/', '/']⟩, ⟨p.after ['/', '/'], behind⟩) := by
        rw [hbehind]
        exact Cursor.take?_append p ['/', '/'] behind
      simp only [htwo, Option.bind_some, Cursor.peek?, hdoc]
    | string =>
      obtain rfl : c = '"' := by
        unfold Rule.match? at hmatch
        split at hmatch <;> simp_all
      simp [Literal.scanAt?_eq, hliteral, stringLiteral]
    | char =>
      obtain rfl : c = '\'' := by
        unfold Rule.match? at hmatch
        split at hmatch <;> simp_all
      simp [Literal.scanAt?_eq, hliteral, charLiteral]

end Lexeme

/-! ### Whole texts -/

namespace Lexed

/-- Puts a piece with its place in front of those after it. -/
def put (kind : PieceKind) (text : String) (span : Span) (diagnostics : List Diagnostic)
    (after : Lexed) : Lexed :=
  let stream := match kind with
    | .token kind => { after.stream with tokens := ⟨kind, text, span⟩ :: after.stream.tokens }
    | .trivia kind => { after.stream with trivia := ⟨kind, text, span⟩ :: after.stream.trivia }
  ⟨stream, diagnostics ++ after.diagnostics⟩

/-- The pieces of what is left at a cursor. -/
def readAt? (c : Cursor) : Option Lexed := do
  if c.atEnd then
    let (text, span, _) ← c.take? 0
    return ⟨⟨[⟨.eof, text, span⟩], []⟩, []⟩
  else
    let lexeme ← Lexeme.firstAt? c
    let diagnostics ← lexeme.problems.mapM c.locate?
    let (text, span, moved) ← c.take? (byteLength lexeme.text)
    -- The cursor moves on.
    if _ : moved.rest.length < c.rest.length then
      return put lexeme.kind text span diagnostics (← readAt? moved)
    else none
termination_by c.rest.length

theorem readAt?_eq (p : Position) (text : List Char) :
    readAt? ⟨p, text⟩ = some (ofLexemes p (lexemes text)) := by
  induction text using lexemes_induction generalizing p with
  | nil =>
    rw [readAt?, lexemes, ofLexemes]
    rfl
  | cons c cs rest htext hlex ih =>
    have htake := Cursor.take?_append p (Lexeme.first c cs).text rest
    have hlocate := Cursor.mapM_locate? p rest fun problem =>
      @Lexeme.within_of_mem_problems c cs problem
    rw [htext] at htake hlocate
    have hshort : rest.length < (c :: cs).length := by
      have hpos := List.length_pos_iff.mpr (Lexeme.first_text c cs).1
      rw [← htext, List.length_append]
      omega
    rw [readAt?, hlex, ofLexemes]
    simp only [Cursor.atEnd, List.isEmpty_cons, Bool.false_eq_true, if_false,
      Lexeme.firstAt?_eq, Option.bind_eq_bind, Option.bind_some, htake, hlocate, ih]
    rw [dif_pos hshort]
    rfl

end Lexed

/-- Cuts a text into tokens and trivia by byte offsets. -/
def tokenizeBytes? (source : String) : Option Lexed := Lexed.readAt? (Cursor.ofString source)

/-- **Lexing never fails.**  Cut by bytes, a text is cut only between its characters and never
past its end, and into its pieces. -/
theorem tokenizeBytes?_eq (source : String) : tokenizeBytes? source = some (tokenize source) :=
  Lexed.readAt?_eq Position.start source.toList

end FrontEnd
