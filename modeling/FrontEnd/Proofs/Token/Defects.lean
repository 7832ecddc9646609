/-
What is wrong with a text is just what is wrong with its pieces.

A defect of a text can be seen in its tokens and trivia, without the lexer: a character that
belongs to no token, a segment of a literal that stands for nothing, a literal that does not
close, a char literal that closes but is empty or too long.  The lexer reports from three
places, and counts from the start of a piece; all the same it reports the defects, each of them
once and nothing else.

* `TokenStream.defects` — the defects that a stream shows;
* `problemsAt_first` — what is reported about one piece are the defects of that piece;
* `nodup_starts` — no two reports start at the same place;
* `diagnostics_perm_defects` — the diagnostics of a text are its defects.
-/
import FrontEnd.Proofs.Literal.Agreement
import FrontEnd.Proofs.Token.Bytewise
import Mathlib.Algebra.GroupWithZero.Nat
import Mathlib.Data.List.Nodup
import Mathlib.Data.List.Perm.Basic

namespace FrontEnd

/-! ### Defects of a stream -/

/-- How many characters a segment denotes; an escape counts once, and so does what stands for
nothing. -/
def Literal.Segment.units : Segment → Nat
  | .text run => run.length
  | .escape .. | .invalid .. => 1

/-- A segment that stands for nothing, where it stands. -/
def LiteralPart.defect? (part : LiteralPart) : Option Diagnostic :=
  match part.segment with
  | .invalid raw => some ⟨.invalidEscape raw, part.span⟩
  | _ => none

namespace Token

/-- The literal that the text of a token is, the first character taken for its quote. -/
def literal (t : Token) (quote : Char) : Literal := Literal.scan quote (t.text.toList.drop 1)

/-- The segments of a literal token that stand for nothing. -/
def invalidDefects (t : Token) (quote : Char) : List Diagnostic :=
  (Parser.literalParts t quote).filterMap LiteralPart.defect?

/-- A literal token without its closing quote is reported as `cause`. -/
def closingDefects (t : Token) (quote : Char) (cause : Cause) : List Diagnostic :=
  if (t.literal quote).terminated then [] else [⟨cause, t.span⟩]

/-- A char literal that closes denotes one character. -/
def sizeDefects (t : Token) : List Diagnostic :=
  if (t.literal '\'').terminated then
    match ((t.literal '\'').segments.map (·.units)).sum with
    | 0 => [⟨.emptyChar, t.span⟩]
    | 1 => []
    | _ => [⟨.overlongChar t.text, t.span⟩]
  else []

/-- All that is wrong with a token. -/
def defects (t : Token) : List Diagnostic :=
  match t.kind with
  | .string => t.invalidDefects '"' ++ t.closingDefects '"' .unterminatedString
  | .char => t.invalidDefects '\'' ++ t.closingDefects '\'' .unterminatedChar ++ t.sizeDefects
  | _ => []

end Token

/-- All that is wrong with a piece of trivia: it may be a character without meaning. -/
def Trivia.defects (t : Trivia) : List Diagnostic :=
  match t.kind with
  | .skipped => [⟨.unrecognised t.text, t.span⟩]
  | _ => []

/-- All that is wrong with the tokens and the trivia of a stream. -/
def TokenStream.defects (s : TokenStream) : List Diagnostic :=
  s.tokens.flatMap Token.defects ++ s.trivia.flatMap Trivia.defects

/-! ### Literals -/

theorem Position.along_append (p : Position) (cs ds : List Char) :
    p.along (cs ++ ds) = (p.along cs).along ds := by
  simp only [along, byteLength_append, List.length_append, Nat.add_assoc]

/-- A problem of a whole piece is located over all of it. -/
theorem Problem.locate_whole (p : Position) (cause : Cause) (text : List Char) :
    Problem.locate p text ⟨cause, 0, byteLength text⟩ = ⟨cause, ⟨p, p.after text⟩⟩ := by
  have hstart : p.ahead 0 text = p := p.ahead_append [] text
  have hstop : p.ahead (byteLength text) text = p.after text := by
    simpa using p.ahead_append text []
  rw [locate, hstart, hstop]

namespace Literal

theorem flush_nil (segments : List Segment) : flush [] segments = segments := rfl

theorem units_flush (run : List Char) (segments : List Segment) :
    ((flush run segments).map (·.units)).sum =
      run.length + (segments.map (·.units)).sum := by
  unfold flush
  split
  · next h => simp [List.isEmpty_iff.mp h]
  · simp [Segment.units]

theorem units_join (run : List Char) (es : List Element) :
    ((join run es).map (·.units)).sum = run.length + es.length := by
  induction es generalizing run with
  | nil => simp [join, units_flush]
  | cons e es ih =>
    cases e with
    | plain c =>
      rw [join, ih, List.length_cons, List.length_cons]
      omega
    | escape raw value =>
      rw [join, units_flush, List.map_cons, List.sum_cons, ih]
      simp [Segment.units, Nat.add_comm]
    | invalid raw =>
      rw [join, units_flush, List.map_cons, List.sum_cons, ih]
      simp [Segment.units, Nat.add_comm]

/-- A literal has as many elements as its segments denote characters. -/
theorem units_segments (l : Literal) : (l.segments.map (·.units)).sum = l.size := by
  rw [segments, units_join, List.length_nil, Nat.zero_add]
  rfl

/-- Plain characters move the segments behind them and are no defect. -/
theorem defects_flush (p : Position) (run : List Char) (segments : List Segment) :
    (Parser.placeSegments p (flush run segments)).filterMap LiteralPart.defect? =
      (Parser.placeSegments (p.along run.reverse) segments).filterMap LiteralPart.defect? := by
  unfold flush
  split
  · next h =>
    obtain rfl := List.isEmpty_iff.mp h
    rfl
  · rw [Parser.placeSegments, List.filterMap_cons_none rfl, Segment.raw, String.toList_ofList]

/-- So a run of plain characters may as well stand before the segments. -/
theorem defects_join (p : Position) (run : List Char) (es : List Element) :
    (Parser.placeSegments p (join run es)).filterMap LiteralPart.defect? =
      (Parser.placeSegments (p.along run.reverse) (join [] es)).filterMap
        LiteralPart.defect? := by
  induction es generalizing p run with
  | nil => exact defects_flush p run []
  | cons e es ih =>
    cases e with
    | plain c =>
      rw [join, join, ih, ih (p.along run.reverse), ← Position.along_append, List.reverse_cons]
      rfl
    | escape raw value => exact defects_flush p run _
    | invalid raw => exact defects_flush p run _

/-- The invalid elements of a literal, counted in bytes from the start of its text, are the
invalid segments, counted along its line. -/
theorem locate_invalidElements (p : Position) {text before rest : List Char} {es : List Element}
    (htext : text = before ++ (es.flatMap Element.raw ++ rest)) (hline : '\n' ∉ text) :
    (invalidElements (byteLength before) es).map (·.locate p text) =
      (Parser.placeSegments (p.along before) (join [] es)).filterMap LiteralPart.defect? := by
  induction es generalizing before with
  | nil => rfl
  | cons e es ih =>
    have hnext : text = (before ++ e.raw) ++ (es.flatMap Element.raw ++ rest) := by
      rw [htext, List.flatMap_cons, List.append_assoc, List.append_assoc]
    have hlater := ih hnext
    rw [byteLength_append, Position.along_append] at hlater
    -- no line ends before a place of the text
    have hplace : ∀ front behind, text = front ++ behind →
        p.ahead (byteLength front) text = p.along front := by
      intro front behind hsplit
      have hclear : '\n' ∉ front := fun h => hline (hsplit ▸ List.mem_append_left behind h)
      rw [hsplit, Position.ahead_append, Position.along_eq_after _ hclear]
    cases e with
    | plain c => exact hlater.trans (defects_join (p.along before) [c] es).symm
    | escape raw value =>
      rw [join, flush_nil, Parser.placeSegments, List.filterMap_cons_none rfl, Segment.raw,
        String.toList_ofList]
      exact hlater
    | invalid raw =>
      have hstart := hplace _ _ htext
      have hstop := hplace _ _ hnext
      rw [byteLength_append, Position.along_append] at hstop
      rw [join, flush_nil, Parser.placeSegments, Segment.raw, String.toList_ofList,
        invalidElements, List.map_cons, hlater, Problem.locate, hstart, hstop]
      rfl

section

-- The token is the literal that the text holds at `p` behind the quote.
variable {t : Token} {quote : Char} {p : Position} {cs : List Char} (hq : IsQuote quote)
  (htext : t.text = String.ofList (scan quote cs).raw)
  (hspan : t.span = ⟨p, p.after (scan quote cs).raw⟩)

include hq htext

/-- The text of a literal token is read again as the literal it is. -/
theorem literal_eq : t.literal quote = scan quote cs := by
  rw [Token.literal, htext, String.toList_ofList, scan_drop_raw hq]

include hspan

/-- What the lexer finds wrong with the contents and the end of a literal. -/
theorem locate_problems :
    (scan quote cs).problems.map (·.locate p (scan quote cs).raw) =
      t.invalidDefects quote ++ t.closingDefects quote (unterminated quote) := by
  have hraw : (scan quote cs).raw = [quote] ++ ((scan quote cs).elements.flatMap Element.raw ++
      closing quote (scan quote cs).terminated) := raw_eq _
  have hinvalid := locate_invalidElements p hraw (line_not_mem_raw hq cs)
  have hparts : t.invalidDefects quote =
      (Parser.placeSegments (p.along [quote]) (scan quote cs).segments).filterMap
        LiteralPart.defect? := by
    rw [Token.invalidDefects, Parser.literalParts_eq hq htext, hspan]
  rw [problems, List.map_append, hparts, Token.closingDefects, literal_eq hq htext]
  rw [byteLength_singleton] at hinvalid
  congr 1
  split
  · rfl
  · rw [List.map_singleton, Problem.locate_whole, hspan]
    rfl

/-- What the lexer finds wrong with the size of a char literal. -/
theorem locate_sizeProblems (hchar : quote = '\'') :
    (Lexeme.sizeProblems (scan quote cs)).map (·.locate p (scan quote cs).raw) =
      t.sizeDefects := by
  subst hchar
  rw [Token.sizeDefects, literal_eq hq htext, units_segments, Lexeme.sizeProblems]
  have hwhole : ∀ cause : Cause,
      ([⟨cause, 0, byteLength (scan '\'' cs).raw⟩] : List Problem).map
        (·.locate p (scan '\'' cs).raw) = [⟨cause, t.span⟩] := by
    intro cause
    rw [List.map_singleton, Problem.locate_whole, hspan]
  split
  · match (scan '\'' cs).size with
    | 0 => exact hwhole _
    | 1 => rfl
    | _ + 2 =>
      rw [htext]
      exact hwhole _
  · rfl

end

end Literal

/-! ### Pieces -/

/-- What is reported about a piece of a text are the defects of the token or of the trivia that
it is. -/
theorem problemsAt_first (p : Position) (c : Char) (cs : List Char) :
    Lexeme.problemsAt (Lexeme.first c cs, p) =
      (Lexeme.tokenAt? (Lexeme.first c cs, p)).toList.flatMap Token.defects ++
        (Lexeme.triviaAt? (Lexeme.first c cs, p)).toList.flatMap Trivia.defects := by
  unfold Lexeme.first
  split
  · simp only [Lexeme.problemsAt, Lexeme.skipped, List.map_singleton]
    rw [← byteLength_singleton, Problem.locate_whole]
    rfl
  · next rule matched h =>
    split
    · rfl
    · rfl
    · rfl
    · simp only [Lexeme.token, Kind.ofWord]
      split
      · rfl
      · rfl
    · rfl
    · have hwrong := Literal.locate_problems (.inl rfl)
        (t := ⟨.string, String.ofList (Literal.scan '"' cs).raw,
          (Lexeme.stringLiteral cs).spanAt p⟩) rfl rfl
      refine hwrong.trans ?_
      simp [Lexeme.stringLiteral, Lexeme.tokenAt?, Lexeme.triviaAt?, Token.defects,
        Literal.unterminated]
    · have hwrong := Literal.locate_problems (.inr rfl)
        (t := ⟨.char, String.ofList (Literal.scan '\'' cs).raw,
          (Lexeme.charLiteral cs).spanAt p⟩) rfl rfl
      have hsize := Literal.locate_sizeProblems (.inr rfl)
        (t := ⟨.char, String.ofList (Literal.scan '\'' cs).raw,
          (Lexeme.charLiteral cs).spanAt p⟩) rfl rfl rfl
      refine (List.map_append.trans (congrArg₂ (· ++ ·) hwrong hsize)).trans ?_
      simp [Lexeme.charLiteral, Lexeme.tokenAt?, Lexeme.triviaAt?, Token.defects,
        Literal.unterminated]
    · rfl

/-- The diagnostics of pieces are the defects of their tokens and of their trivia. -/
theorem perm_placedProblems (p : Position) (text : List Char) :
    (placedProblems p (lexemes text)).Perm
      ((placedTokens p (lexemes text)).flatMap Token.defects ++
        (placedTrivia p (lexemes text)).flatMap Trivia.defects) := by
  have hpieces : placedProblems p (lexemes text) = (piecesAt p (lexemes text)).flatMap fun piece =>
      (Lexeme.tokenAt? piece).toList.flatMap Token.defects ++
        (Lexeme.triviaAt? piece).toList.flatMap Trivia.defects := by
    rw [placedProblems_eq_pieces]
    refine List.flatMap_congr fun piece hpiece => ?_
    obtain ⟨before, c, cs, -, rfl⟩ := exists_of_mem_piecesAt hpiece
    exact problemsAt_first _ c cs
  rw [hpieces, placedTokens_eq_pieces, placedTrivia_eq_pieces, List.filterMap_eq_flatMap_toList,
    List.filterMap_eq_flatMap_toList, List.flatMap_assoc, List.flatMap_assoc]
  exact (List.flatMap_append_perm _ _ _).symm

/-! ### Nothing is reported twice -/

/-- Problems of a piece that start at different places of it. -/
structure Problem.Apart (text : List Char) (problems : List Problem) : Prop where
  starts : (problems.map (·.first)).Nodup
  inside : ∀ problem ∈ problems, problem.first < byteLength text

theorem Problem.apart_nil (text : List Char) : Problem.Apart text [] :=
  ⟨List.nodup_nil, fun _ h => absurd h (by simp)⟩

namespace Literal

/-- Every element of a literal takes up some of its text. -/
theorem raw_ne_nil (quote : Char) (text : List Char) :
    ∀ e ∈ (scan quote text).elements, e.raw ≠ [] := by
  intro e (h : e ∈ (contents quote text).elements)
  rcases mem_contents h with ⟨c, rfl, -⟩ | ⟨cs, rfl⟩
  · simp [Element.raw]
  · obtain ⟨b, hraw, -⟩ := raw_backslashed quote cs
    exact hraw ▸ List.cons_ne_nil '\\' b

/-- The invalid elements of a literal start one after the other, before its end. -/
theorem starts_invalidElements (offset : Nat) {es : List Element} (hraw : ∀ e ∈ es, e.raw ≠ []) :
    (invalidElements offset es).Pairwise (·.first < ·.first) ∧
      ∀ problem ∈ invalidElements offset es, offset ≤ problem.first ∧
        problem.first < offset + byteLength (es.flatMap Element.raw) := by
  induction es generalizing offset with
  | nil => simp [invalidElements]
  | cons e es ih =>
    have hsize := byteLength_pos (hraw e (by simp))
    obtain ⟨hpairwise, hbounds⟩ := ih (offset + byteLength e.raw)
      fun e' he' => hraw e' (List.mem_cons_of_mem e he')
    rw [List.flatMap_cons, byteLength_append]
    have hlater : ∀ problem ∈ invalidElements (offset + byteLength e.raw) es,
        offset < problem.first ∧
          problem.first < offset + (byteLength e.raw + byteLength (es.flatMap Element.raw)) := by
      intro problem hproblem
      obtain ⟨hlow, hhigh⟩ := hbounds problem hproblem
      omega
    unfold invalidElements
    split
    · next raw =>
      constructor
      · exact List.pairwise_cons.mpr ⟨fun problem h => (hlater problem h).1, hpairwise⟩
      · intro problem hproblem
        rcases List.mem_cons.mp hproblem with rfl | hmem
        · dsimp only
          omega
        · obtain ⟨hlow, hhigh⟩ := hlater problem hmem
          omega
    · exact ⟨hpairwise, fun problem h => ⟨Nat.le_of_lt (hlater problem h).1, (hlater problem h).2⟩⟩

/-- Besides its invalid elements a literal has at most one problem, and that is one of the whole
literal. -/
theorem apart_of_whole (quote : Char) (text : List Char) (whole : List Problem)
    (hone : whole.length ≤ 1) (hstart : ∀ problem ∈ whole, problem.first = 0) :
    Problem.Apart (scan quote text).raw
      (invalidElements quote.utf8Size (scan quote text).elements ++ whole) := by
  obtain ⟨hpairwise, hbounds⟩ := starts_invalidElements quote.utf8Size
    (raw_ne_nil quote text)
  have hquote := quote.utf8Size_pos
  have hraw : byteLength (scan quote text).raw = quote.utf8Size +
      (byteLength ((scan quote text).elements.flatMap Element.raw) +
        byteLength (closing quote (scan quote text).terminated)) := by
    rw [raw_eq, byteLength, byteLength_append]
    rfl
  constructor
  · rw [List.map_append, List.nodup_append]
    refine ⟨List.pairwise_map.mpr (hpairwise.imp Nat.ne_of_lt), ?_, ?_⟩
    · cases whole with
      | nil => exact List.nodup_nil
      | cons problem rest =>
        obtain rfl : rest = [] := List.eq_nil_of_length_eq_zero (by simpa using hone)
        exact List.nodup_singleton _
    · intro a ha b hb
      obtain ⟨invalid, hinvalid, rfl⟩ := List.mem_map.mp ha
      obtain ⟨other, hother, rfl⟩ := List.mem_map.mp hb
      have := (hbounds invalid hinvalid).1
      have := hstart other hother
      omega
  · intro problem hproblem
    rcases List.mem_append.mp hproblem with hmem | hmem
    · have := (hbounds problem hmem).2
      omega
    · have := hstart problem hmem
      omega

end Literal

namespace Lexeme

/-- What is wrong with a piece is wrong at different places of it. -/
theorem apart_first (c : Char) (cs : List Char) :
    Problem.Apart (first c cs).text (first c cs).problems := by
  unfold first
  split
  · exact ⟨by simp [skipped], by simp [skipped, byteLength, c.utf8Size_pos]⟩
  · split
    · exact Problem.apart_nil _
    · exact Problem.apart_nil _
    · exact Problem.apart_nil _
    · exact Problem.apart_nil _
    · exact Problem.apart_nil _
    · refine Literal.apart_of_whole '"' cs _ ?_ ?_
      · split <;> simp
      · split <;> simp
    · -- a literal without its closing quote is not measured
      have hwhole := Literal.apart_of_whole '\'' cs
        ((if (Literal.scan '\'' cs).terminated then [] else
          [⟨Literal.unterminated '\'', 0, byteLength (Literal.scan '\'' cs).raw⟩]) ++
            sizeProblems (Literal.scan '\'' cs))
      rw [← List.append_assoc] at hwhole
      unfold sizeProblems at hwhole
      apply hwhole
      · split
        · split <;> simp
        · simp
      · split
        · split <;> simp
        · simp
    · exact Problem.apart_nil _

end Lexeme

theorem Problem.offset_locate (p : Position) {text : List Char} {problem : Problem}
    (h : problem.Within text) :
    (problem.locate p text).span.start.offset = p.offset + problem.first := by
  obtain ⟨before, covered, rest, rfl, hfirst, -⟩ := h
  rw [locate, hfirst, Position.ahead_append, Position.offset_after]

/-- No two diagnostics of a text start at the same place. -/
theorem nodup_starts (p : Position) (text : List Char) :
    ((placedProblems p (lexemes text)).map (·.span.start.offset)).Nodup ∧
      ∀ d ∈ placedProblems p (lexemes text), p.offset ≤ d.span.start.offset := by
  induction text using lexemes_induction generalizing p with
  | nil => simp [lexemes, placedProblems]
  | cons c cs rest htext hlex ih =>
    obtain ⟨hnodup, hbehind⟩ := ih (p.after (Lexeme.first c cs).text)
    obtain ⟨hstarts, hinside⟩ := Lexeme.apart_first c cs
    have hoffset : ∀ problem ∈ (Lexeme.first c cs).problems,
        (problem.locate p (Lexeme.first c cs).text).span.start.offset =
          p.offset + problem.first := by
      intro problem hproblem
      exact problem.offset_locate p (Lexeme.within_of_mem_problems hproblem)
    have hmap : ((Lexeme.first c cs).problems.map (·.locate p (Lexeme.first c cs).text)).map
        (·.span.start.offset) =
          ((Lexeme.first c cs).problems.map (·.first)).map (p.offset + ·) := by
      rw [List.map_map, List.map_map]
      exact List.map_congr_left hoffset
    rw [Position.offset_after] at hbehind
    rw [hlex, placedProblems]
    constructor
    · rw [List.map_append, hmap, List.nodup_append]
      refine ⟨hstarts.map fun a b h => Nat.add_left_cancel h, hnodup, ?_⟩
      -- the problems of the piece start before its end, those of later pieces behind it
      intro a ha b hb
      obtain ⟨first, hfirst, rfl⟩ := List.mem_map.mp ha
      obtain ⟨problem, hproblem, rfl⟩ := List.mem_map.mp hfirst
      obtain ⟨d, hd, rfl⟩ := List.mem_map.mp hb
      have := hinside problem hproblem
      have := hbehind d hd
      omega
    · intro d hd
      rcases List.mem_append.mp hd with hmem | hmem
      · obtain ⟨problem, hproblem, rfl⟩ := List.mem_map.mp hmem
        have := hoffset problem hproblem
        omega
      · have := hbehind d hmem
        omega

/-- **Lexical diagnostics are the defects of the text.**  What is reported about a text is what
is wrong with its tokens and its trivia, all of it and nothing else, and nothing twice. -/
theorem diagnostics_perm_defects (source : String) :
    (tokenize source).diagnostics.Perm (tokenize source).stream.defects ∧
      (tokenize source).diagnostics.Nodup := by
  rw [tokenize, ofLexemes_eq]
  constructor
  · have heof : ∀ p, (Token.eofAt p).defects = [] := fun _ => rfl
    simp only [TokenStream.defects, List.flatMap_append, List.flatMap_singleton, heof,
      List.append_nil]
    exact perm_placedProblems _ _
  · exact (nodup_starts _ _).1.of_map

end FrontEnd
