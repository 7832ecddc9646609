/-
Cutting a text move by move.

A text is cut by a cursor that passes over some bytes, or cuts them off as a token or as trivia.
No move may end inside a character; passing over stops at the end of the text, while cutting off
fails past it.  A move steps from one character to the next.  A place ahead is found without
moving: its offset is computed, and lines and columns are counted in the text up to it.

* `Cutting` — the cursor and what has been cut off, with the moves;
* `Cursor.advance?_add` — passing over some bytes and then some more is passing over all of them;
* `Cutting.ahead?_eq` — the place ahead is the one that moving there reaches, or both fail;
* `Cutting.run?_tokenize` — lexing a text is a sequence of moves;
* `Cutting.moves_compose` — after any sequence of moves the cursor agrees with the text before it,
  moves forward add up, and looking ahead agrees with them.
-/
import FrontEnd.Proofs.Source.Safety

namespace FrontEnd

/-! ### Cutting at a byte -/

/-- A cut lies behind so many bytes, and nothing is lost. -/
theorem eq_append_of_splitAtByte? {n : Nat} {cs before rest : List Char}
    (h : splitAtByte? n cs = some (before, rest)) :
    cs = before ++ rest ∧ byteLength before = n := by
  fun_induction splitAtByte? n cs generalizing before with
  | case1 cs =>
    obtain ⟨rfl, rfl⟩ : [] = before ∧ cs = rest := by simpa using h
    exact ⟨rfl, rfl⟩
  | case2 n => cases h
  | case3 n c cs hsize ih =>
    obtain ⟨⟨taken, behind⟩, hcut, htaken⟩ := Option.map_eq_some_iff.mp h
    obtain ⟨rfl, rfl⟩ : c :: taken = before ∧ behind = rest := by simpa using htaken
    obtain ⟨rfl, hbytes⟩ := ih hcut
    refine ⟨rfl, ?_⟩
    rw [byteLength, hbytes]
    omega
  | case4 n c cs hsize => cases h

/-! ### Places ahead -/

/-- Walking along a text ends with it. -/
theorem Position.ahead_of_le (p : Position) {n : Nat} {cs : List Char} (h : byteLength cs ≤ n) :
    p.ahead n cs = p.after cs := by
  fun_induction ahead p n cs with
  | case1 p cs =>
    cases cs with
    | nil => rfl
    | cons c cs => exact absurd h (Nat.not_le.mpr (byteLength_pos (List.cons_ne_nil c cs)))
  | case2 p n => rfl
  | case3 p n c cs ih =>
    rw [byteLength] at h
    exact ih (by omega)

/-- Walking along a text passes over what is cut off there, and over all of it past its end. -/
theorem Position.ahead_of_cut (p : Position) {n : Nat} {cs run rest : List Char}
    (h : splitAtByte? (min n (byteLength cs)) cs = some (run, rest)) :
    p.ahead n cs = p.after run := by
  obtain ⟨rfl, hbytes⟩ := eq_append_of_splitAtByte? h
  rw [byteLength_append] at hbytes
  by_cases hn : n ≤ byteLength run
  · obtain rfl : n = byteLength run := by omega
    exact p.ahead_append run rest
  · -- The walk would go further, so nothing is behind the run.
    obtain rfl : rest = [] := by
      by_contra hne
      have hpos := byteLength_pos hne
      omega
    rw [List.append_nil]
    exact p.ahead_of_le (by omega)

/-- Line and column behind `cs`, counted from the line and the column in front of it. -/
def lineColumn : List Char → Nat → Nat → Nat × Nat
  | [], line, column => (line, column)
  | c :: cs, line, column =>
    if c = '\n' then lineColumn cs (line + 1) 1 else lineColumn cs line (column + 1)

/-- Stepping over characters adds up their bytes and counts lines and columns. -/
theorem Position.after_eq_lineColumn (p : Position) (cs : List Char) :
    p.after cs = ⟨p.offset + byteLength cs, (lineColumn cs p.line p.column).1,
      (lineColumn cs p.line p.column).2⟩ := by
  induction cs generalizing p with
  | nil => rfl
  | cons c cs ih =>
    rw [after_cons, ih]
    by_cases hc : c = '\n' <;> simp [next, lineColumn, byteLength, hc, Nat.add_assoc]

/-! ### Moving forward -/

namespace Cursor

variable {c d e : Cursor} {n : Nat}

/-- Behind the characters `run`, which stand in front of `c`, stands `d`. -/
structure Past (c : Cursor) (run : List Char) (d : Cursor) : Prop where
  rest : c.rest = run ++ d.rest
  position : d.position = c.position.after run

theorem Past.refl (c : Cursor) : c.Past [] c := ⟨rfl, rfl⟩

theorem Past.trans {run run' : List Char} (h : c.Past run d) (h' : d.Past run' e) :
    c.Past (run ++ run') e where
  rest := by rw [h.rest, h'.rest, List.append_assoc]
  position := by rw [h'.position, h.position, Position.after_append]

theorem take?_eq_some {text : String} {span : Span} (h : c.take? n = some (text, span, d)) :
    ∃ run, c.Past run d ∧ byteLength run = n ∧ text = String.ofList run ∧
      span = ⟨c.position, d.position⟩ := by
  obtain ⟨⟨run, rest⟩, hcut, htaken⟩ := Option.bind_eq_some_iff.mp h
  obtain ⟨hrest, hbytes⟩ := eq_append_of_splitAtByte? hcut
  cases htaken
  exact ⟨run, ⟨hrest, rfl⟩, hbytes, rfl, rfl⟩

theorem advance?_eq (c : Cursor) (n : Nat) :
    c.advance? n = (splitAtByte? (min n (byteLength c.rest)) c.rest).map
      fun (run, rest) => ⟨c.position.after run, rest⟩ := by
  unfold advance? take?
  cases splitAtByte? (min n (byteLength c.rest)) c.rest <;> rfl

theorem advance?_eq_some (h : c.advance? n = some d) :
    ∃ run, c.Past run d ∧ byteLength run = min n (byteLength c.rest) := by
  rw [advance?_eq] at h
  obtain ⟨⟨run, rest⟩, hcut, rfl⟩ := Option.map_eq_some_iff.mp h
  obtain ⟨hrest, hbytes⟩ := eq_append_of_splitAtByte? hcut
  exact ⟨run, ⟨hrest, rfl⟩, hbytes⟩

/-- Moving forward by more bytes than are left is moving forward by those. -/
theorem advance?_of_le (h : byteLength c.rest ≤ n) :
    c.advance? n = c.advance? (byteLength c.rest) := by
  rw [advance?, advance?, Nat.min_eq_right h, Nat.min_self]

/-- **Moves add up.**  Moving forward twice is moving forward once by all the bytes, whether or
not the text ends before. -/
theorem advance?_add {a : Nat} (h : c.advance? a = some d) (b : Nat) :
    d.advance? b = c.advance? (a + b) := by
  obtain ⟨run, hpast, hbytes⟩ := advance?_eq_some h
  have hmin : min (a + b) (byteLength c.rest) = byteLength run + min b (byteLength d.rest) := by
    rw [hpast.rest, byteLength_append] at hbytes ⊢
    omega
  rw [advance?_eq, advance?_eq, hmin, hpast.rest, splitAtByte?_append_add, hpast.position,
    Option.map_map]
  simp only [Function.comp_def, Position.after_append]

end Cursor

/-! ### The moves -/

/-- A stream with one more piece at its end. -/
def TokenStream.push (s : TokenStream) (kind : PieceKind) (text : String) (span : Span) :
    TokenStream :=
  match kind with
  | .token kind => { s with tokens := s.tokens ++ [⟨kind, text, span⟩] }
  | .trivia kind => { s with trivia := s.trivia ++ [⟨kind, text, span⟩] }

/-- A text that is being cut: how far the cursor has come, and what has been cut off. -/
structure Cutting where
  cursor : Cursor
  stream : TokenStream
deriving DecidableEq, Repr

namespace Cutting

/-- What is done next with the bytes in front of the cursor. -/
inductive Move where
  /-- They are passed over. -/
  | advance (n : Nat)
  /-- They are cut off as a piece. -/
  | emit (kind : PieceKind) (n : Nat)
deriving DecidableEq, Repr

/-- Nothing has been cut off from `source`. -/
def ofString (source : String) : Cutting := ⟨Cursor.ofString source, [], []⟩

/-- Passes over `n` bytes, or over what is left if that is less. -/
def advance? (s : Cutting) (n : Nat) : Option Cutting := do
  return { s with cursor := ← s.cursor.advance? n }

/-- Cuts off exactly `n` bytes. -/
def emit? (s : Cutting) (kind : PieceKind) (n : Nat) : Option Cutting := do
  let (text, span, cursor) ← s.cursor.take? n
  return ⟨cursor, s.stream.push kind text span⟩

/-- The position `n` bytes ahead of the cursor, or at the end of the text if that is nearer. -/
def ahead? (s : Cutting) (n : Nat) : Option Position := do
  let length := min n (byteLength s.cursor.rest)
  let (run, _) ← splitAtByte? length s.cursor.rest
  let (line, column) := lineColumn run s.cursor.position.line s.cursor.position.column
  return ⟨s.cursor.position.offset + length, line, column⟩

def step? (s : Cutting) : Move → Option Cutting
  | .advance n => s.advance? n
  | .emit kind n => s.emit? kind n

/-- Makes the moves one after the other. -/
def run? (s : Cutting) : List Move → Option Cutting
  | [] => some s
  | move :: moves => (s.step? move).bind (run? · moves)

variable {s t : Cutting} {source : String}

/-- A move goes forward. -/
theorem step?_past {move : Move} (h : s.step? move = some t) :
    ∃ run, s.cursor.Past run t.cursor := by
  cases move with
  | advance n =>
    obtain ⟨moved, hmoved, hstep⟩ := Option.bind_eq_some_iff.mp h
    cases hstep
    obtain ⟨run, hpast, -⟩ := Cursor.advance?_eq_some hmoved
    exact ⟨run, hpast⟩
  | emit kind n =>
    obtain ⟨⟨text, span, moved⟩, htaken, hstep⟩ := Option.bind_eq_some_iff.mp h
    cases hstep
    obtain ⟨run, hpast, -⟩ := Cursor.take?_eq_some htaken
    exact ⟨run, hpast⟩

/-- Any sequence of moves goes forward. -/
theorem run?_past {moves : List Move} (h : s.run? moves = some t) :
    ∃ run, s.cursor.Past run t.cursor := by
  induction moves generalizing s with
  | nil =>
    cases h
    exact ⟨[], .refl _⟩
  | cons move moves ih =>
    obtain ⟨next, hstep, hrun⟩ := Option.bind_eq_some_iff.mp h
    obtain ⟨run, hpast⟩ := step?_past hstep
    obtain ⟨later, hlater⟩ := ih hrun
    exact ⟨run ++ later, hpast.trans hlater⟩

/-- **Looking ahead agrees with moving.**  The place ahead is the one that moving there reaches,
and there is none where moving fails. -/
theorem ahead?_eq (s : Cutting) (n : Nat) :
    s.ahead? n = (s.advance? n).map (·.cursor.position) := by
  dsimp only [ahead?, advance?]
  rw [Cursor.advance?_eq]
  cases hcut : splitAtByte? (min n (byteLength s.cursor.rest)) s.cursor.rest with
  | none => rfl
  | some parts =>
    obtain ⟨-, hbytes⟩ := eq_append_of_splitAtByte? hcut
    have hafter := s.cursor.position.after_eq_lineColumn parts.1
    rw [hbytes] at hafter
    exact congrArg some hafter.symm

/-- The cursor looks ahead by moving a copy of itself. -/
theorem ahead?_cursor (s : Cutting) (n : Nat) : s.cursor.ahead? n = s.ahead? n := by
  rw [ahead?_eq]
  unfold Cursor.ahead? advance?
  cases s.cursor.advance? n <;> rfl

/-- Walking along the text in front of the cursor leads to the place ahead. -/
theorem position_ahead {n : Nat} {p : Position} (h : s.ahead? n = some p) :
    s.cursor.position.ahead n s.cursor.rest = p := by
  rw [ahead?_eq, advance?, Cursor.advance?_eq] at h
  cases hcut : splitAtByte? (min n (byteLength s.cursor.rest)) s.cursor.rest with
  | none =>
    rw [hcut] at h
    cases h
  | some parts =>
    rw [hcut] at h
    cases h
    exact s.cursor.position.ahead_of_cut hcut

/-- Passing over bytes twice is passing over all of them at once. -/
theorem advance?_add {a : Nat} (h : s.advance? a = some t) (b : Nat) :
    t.advance? b = s.advance? (a + b) := by
  obtain ⟨moved, hmoved, hstep⟩ := Option.bind_eq_some_iff.mp h
  cases hstep
  unfold advance?
  rw [← Cursor.advance?_add hmoved b]

/-! ### Lexing by moves -/

/-- The moves that cut off the pieces of a text, and the end of the input behind them. -/
def lexing (ls : List Lexeme) : List Move :=
  ls.map (fun l => .emit l.kind (byteLength l.text)) ++ [.emit (.token .eof) 0]

/-- A run of characters in front of the cursor is cut off where it stands. -/
theorem emit?_append (p : Position) (run rest : List Char) (stream : TokenStream)
    (kind : PieceKind) :
    emit? ⟨⟨p, run ++ rest⟩, stream⟩ kind (byteLength run) =
      some ⟨⟨p.after run, rest⟩, stream.push kind (String.ofList run) ⟨p, p.after run⟩⟩ := by
  rw [emit?, Cursor.take?_append]
  rfl

/-- Cutting off the pieces of what is left puts them behind those that have been cut off. -/
theorem run?_lexing (p : Position) (text : List Char) (before : TokenStream) :
    run? ⟨⟨p, text⟩, before⟩ (lexing (lexemes text)) =
      some ⟨⟨p.after text, []⟩,
        before.tokens ++ (Lexed.ofLexemes p (lexemes text)).stream.tokens,
        before.trivia ++ (Lexed.ofLexemes p (lexemes text)).stream.trivia⟩ := by
  induction text using lexemes_induction generalizing p before with
  | nil =>
    have hnone : (Lexed.ofLexemes p []).stream.trivia = [] := rfl
    rw [lexemes, hnone, List.append_nil]
    rfl
  | cons c cs rest htext hlex ih =>
    have hemit := emit?_append p (Lexeme.first c cs).text rest before (Lexeme.first c cs).kind
    rw [htext] at hemit
    rw [hlex, lexing, List.map_cons, List.cons_append, ← lexing, run?, step?, hemit,
      Option.bind_some, ih, ← htext, Position.after_append, Lexed.ofLexemes]
    unfold TokenStream.push Lexed.cons
    cases (Lexeme.first c cs).kind <;> simp

/-- **Lexing is a sequence of moves.**  It cuts off each piece of the text where it stands. -/
theorem run?_tokenize (source : String) :
    (ofString source).run? (lexing (lexemes source.toList)) =
      some ⟨⟨Position.start.after source.toList, []⟩, (tokenize source).stream⟩ := by
  rw [ofString, Cursor.ofString, run?_lexing]
  rfl

/-! ### After any moves -/

/-- The cursor agrees with the text, and moves from here on add up. -/
structure Steady (source : String) (s : Cutting) : Prop where
  /-- What the cursor has in front of it is what the text has behind the offset. -/
  rest : ∃ before, source.toList = before ++ s.cursor.rest ∧
    byteLength before = s.cursor.position.offset
  /-- Line and column are those of this place in the text. -/
  place : s.cursor.position.Coherent source
  /-- Offset, line and column fit in 32 bits. -/
  narrow : s.cursor.position.Narrow
  /-- A move forward to a place between characters ends there, and nothing is cut off. -/
  forward : ∀ run behind, s.cursor.rest = run ++ behind →
    s.advance? (byteLength run) = some ⟨⟨s.cursor.position.after run, behind⟩, s.stream⟩
  /-- One past the end of the text ends with it. -/
  clamped : ∀ n, byteLength s.cursor.rest ≤ n →
    s.advance? n = s.advance? (byteLength s.cursor.rest)
  /-- Two moves forward are one. -/
  add : ∀ a b t, s.advance? a = some t → t.advance? b = s.advance? (a + b)
  /-- The place ahead is where moving there ends. -/
  ahead : ∀ n, s.ahead? n = (s.advance? n).map (·.cursor.position)
  /-- The cursor finds the same place by itself. -/
  cursor : ∀ n, s.cursor.ahead? n = s.ahead? n
  /-- The walk that places what is wrong with a piece leads there too. -/
  walk : ∀ n p, s.ahead? n = some p → s.cursor.position.ahead n s.cursor.rest = p

/-- **Moves compose.**  After any sequence of moves, the line and the column are those that the
text before the cursor gives, moves forward add up, also where the text ends, and looking ahead
agrees with moving. -/
theorem moves_compose (hsize : byteLength source.toList < 2 ^ 32 - 1) {moves : List Move}
    (h : (ofString source).run? moves = some s) : s.Steady source := by
  obtain ⟨before, hpast⟩ := run?_past h
  have hsource : source.toList = before ++ s.cursor.rest := hpast.rest
  have hposition : s.cursor.position = Position.start.after before := hpast.position
  have hplace : s.cursor.position.Coherent source := by
    rw [hposition]
    exact coherent_after hsource
  refine ⟨⟨before, hsource, ?_⟩, hplace, hplace.narrow hsize, fun run behind hrest => ?_,
    fun n hn => ?_, fun a b t ht => advance?_add ht b, s.ahead?_eq, s.ahead?_cursor,
    fun n p hp => position_ahead hp⟩
  · rw [hposition, Position.offset_after]
    exact (Nat.zero_add _).symm
  · have hforward := Cursor.advance?_append s.cursor.position run behind
    rw [← hrest] at hforward
    rw [advance?, hforward]
    rfl
  · rw [advance?, advance?, Cursor.advance?_of_le hn]

/-- A text of two lines, with characters of one, two, three and four bytes. -/
def wideLines : String := "é 中\n😀x"

/-- Moves to the last character of that text. -/
def wideMoves : List Move :=
  [.emit (.token .identifier) 2, .advance 4, .emit (.trivia .whitespace) 1,
    .emit (.trivia .skipped) 4]

theorem moves_compose_wideLines :
    byteLength wideLines.toList < 2 ^ 32 - 1 ∧
      ∃ s, (ofString wideLines).run? wideMoves = some s ∧ s.cursor = ⟨⟨11, 2, 2⟩, ['x']⟩ ∧
        s.Steady wideLines := by
  have hsize : byteLength wideLines.toList < 2 ^ 32 - 1 := by decide +kernel
  have hmoves : ((ofString wideLines).run? wideMoves).map (·.cursor) =
      some ⟨⟨11, 2, 2⟩, ['x']⟩ := by decide +kernel
  obtain ⟨s, hrun, hcursor⟩ := Option.map_eq_some_iff.mp hmoves
  exact ⟨hsize, s, hrun, hcursor, moves_compose hsize hrun⟩

end Cutting

end FrontEnd
