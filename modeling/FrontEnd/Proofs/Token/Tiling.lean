/-
The pieces of a text tile it.

The tokens and the trivia of a text are kept in two lists.  Merged by the offsets at
which they start they are the pieces in the order in which they were cut off, so that

* `pieces_ofLexemes` — merging by offset undoes the split into two lists;
* `tokenize_tiles` — the pieces stand side by side from the start of the text to its end,
  each covers its own text, and put end to end they are the text.

Malformed texts are no exception: a character without meaning is a piece of trivia, and
a malformed literal a token.
-/
import FrontEnd.Proofs.Token.Lexeme
import FrontEnd.Token.Tokenize
import Mathlib.Data.List.Chain

namespace FrontEnd

/-- A token or a piece of trivia. -/
structure Piece where
  kind : PieceKind
  text : String
  span : Span
deriving DecidableEq, Repr

namespace Piece

def ofToken (t : Token) : Piece := ⟨.token t.kind, t.text, t.span⟩

def ofTrivia (t : Trivia) : Piece := ⟨.trivia t.kind, t.text, t.span⟩

/-- The first piece starts no later than the second. -/
def startsBy (a b : Piece) : Bool := a.span.start.offset ≤ b.span.start.offset

/-- Pieces that stand one after the other, the first of them at `p`, and the end of the
input behind them. -/
def placed (p : Position) : List Lexeme → List Piece
  | [] => [⟨.token .eof, "", Span.empty p⟩]
  | l :: ls => ⟨l.kind, String.ofList l.text, ⟨p, p.after l.text⟩⟩ :: placed (p.after l.text) ls

end Piece

/-- All pieces of a stream, merged by the offsets at which they start. -/
def TokenStream.pieces (s : TokenStream) : List Piece :=
  (s.tokens.map Piece.ofToken ++ s.trivia.map Piece.ofTrivia).mergeSort Piece.startsBy

/-- The pieces stand side by side from the start of `source` to its end, where the end of
the input stands; each covers its own text, and only the end of the input covers none. -/
structure Tiles (source : String) (pieces : List Piece) : Prop where
  first : (pieces.head?.map fun p => p.span.start.offset) = some 0
  adjacent : pieces.IsChain fun a b => b.span.start = a.span.stop
  last : ∃ before eof, pieces = before ++ [eof] ∧ eof.kind = .token .eof ∧
    eof.span.start.offset = byteLength source.toList ∧
    eof.span.stop.offset = byteLength source.toList ∧
    ∀ p ∈ before, p.kind ≠ .token .eof ∧ p.span.start.offset < p.span.stop.offset
  text : ∀ p ∈ pieces, p.span.slice? source = some p.text

/-! ### Merging undoes the split -/

namespace Piece

/-- The tokens and the trivia together are the pieces. -/
theorem perm_placed (p : Position) (ls : List Lexeme) :
    ((Lexed.ofLexemes p ls).stream.tokens.map ofToken ++
      (Lexed.ofLexemes p ls).stream.trivia.map ofTrivia).Perm (placed p ls) := by
  induction ls generalizing p with
  | nil => exact List.Perm.refl _
  | cons l ls ih =>
    obtain ⟨kind, text, problems⟩ := l
    cases kind with
    | token kind => exact (ih _).cons _
    | trivia kind => exact List.perm_middle.trans ((ih _).cons _)

theorem offset_le_of_mem_placed {p : Position} {ls : List Lexeme} {piece : Piece}
    (h : piece ∈ placed p ls) : p.offset ≤ piece.span.start.offset := by
  induction ls generalizing p with
  | nil =>
    obtain rfl := List.mem_singleton.mp h
    exact le_rfl
  | cons l ls ih =>
    rcases List.mem_cons.mp h with rfl | hmem
    · exact le_rfl
    · have hnext := ih hmem
      rw [Position.offset_after] at hnext
      exact le_trans (Nat.le_add_right _ _) hnext

/-- Later pieces start at larger offsets, no piece being empty. -/
theorem pairwise_placed (p : Position) (ls : List Lexeme) (hne : ∀ l ∈ ls, l.text ≠ []) :
    (placed p ls).Pairwise fun a b => a.span.start.offset < b.span.start.offset := by
  induction ls generalizing p with
  | nil => exact List.pairwise_singleton _ _
  | cons l ls ih =>
    refine List.Pairwise.cons (fun piece hmem => ?_) (ih _ fun l' hl' => hne l' (by simp [hl']))
    have hnext := offset_le_of_mem_placed hmem
    have hpos := byteLength_pos (hne l (by simp))
    rw [Position.offset_after] at hnext
    show p.offset < piece.span.start.offset
    omega

/-- Two pieces that start together are one piece. -/
theorem eq_of_start_eq {p : Position} {ls : List Lexeme} (hne : ∀ l ∈ ls, l.text ≠ [])
    {a b : Piece} (ha : a ∈ placed p ls) (hb : b ∈ placed p ls)
    (h : a.span.start.offset = b.span.start.offset) : a = b := by
  have hlt := pairwise_placed p ls hne
  have hpair : (placed p ls).Pairwise
      fun x y => x.span.start.offset = y.span.start.offset → x = y :=
    hlt.imp fun h heq => absurd heq (Nat.ne_of_lt h)
  have hflip : (placed p ls).Pairwise
      (flip fun x y => x.span.start.offset = y.span.start.offset → x = y) :=
    hlt.imp fun h heq => absurd heq.symm (Nat.ne_of_lt h)
  exact hpair.forall_of_forall_of_flip (fun x _ _ => rfl) hflip ha hb h

end Piece

/-- Tokens and trivia merged by offset are the pieces in the order of the text. -/
theorem pieces_ofLexemes (p : Position) (ls : List Lexeme) (hne : ∀ l ∈ ls, l.text ≠ []) :
    (Lexed.ofLexemes p ls).stream.pieces = Piece.placed p ls := by
  have hperm := (List.mergeSort_perm _ Piece.startsBy).trans (Piece.perm_placed p ls)
  refine hperm.eq_of_pairwise ?_ (List.pairwise_mergeSort ?_ ?_ _) ?_
  · intro a b ha hb hab hba
    simp only [Piece.startsBy, decide_eq_true_eq] at hab hba
    exact Piece.eq_of_start_eq hne (hperm.mem_iff.mp ha) hb (le_antisymm hab hba)
  · intro a b c hab hbc
    simp only [Piece.startsBy, decide_eq_true_eq] at hab hbc ⊢
    exact le_trans hab hbc
  · intro a b
    simp only [Piece.startsBy, Bool.or_eq_true, decide_eq_true_eq]
    exact le_total _ _
  · refine (Piece.pairwise_placed p ls hne).imp fun h => ?_
    simp only [Piece.startsBy, decide_eq_true_eq]
    exact le_of_lt h

/-- Putting a stream back together is putting its pieces end to end. -/
theorem reconstruct_eq_join (s : TokenStream) :
    s.reconstruct = String.join (s.pieces.map (·.text)) := by
  unfold TokenStream.reconstruct TokenStream.pieces
  have hmap : s.tokens.map (fun t => (t.span.start.offset, t.text)) ++
      s.trivia.map (fun t => (t.span.start.offset, t.text)) =
        (s.tokens.map Piece.ofToken ++ s.trivia.map Piece.ofTrivia).map
          fun p => (p.span.start.offset, p.text) := by
    simp [Piece.ofToken, Piece.ofTrivia, Function.comp_def]
  have hsort : ∀ ps : List Piece,
      (ps.map fun p => (p.span.start.offset, p.text)).mergeSort (fun a b => a.1 ≤ b.1) =
        (ps.mergeSort Piece.startsBy).map fun p => (p.span.start.offset, p.text) := by
    intro ps
    symm
    apply List.map_mergeSort
    intro a _ b _
    rfl
  simp only [hmap, hsort, List.map_map]
  rfl

/-! ### The pieces stand side by side -/

namespace Piece

theorem head?_placed (p : Position) (ls : List Lexeme) :
    ((placed p ls).head?.map fun piece => piece.span.start) = some p := by
  cases ls <;> rfl

/-- Each piece starts exactly where the one before it ends. -/
theorem adjacent_placed (p : Position) (ls : List Lexeme) :
    (placed p ls).IsChain fun a b => b.span.start = a.span.stop := by
  induction ls generalizing p with
  | nil => exact List.isChain_singleton _
  | cons l ls ih =>
    rw [placed]
    refine List.isChain_cons.mpr ⟨fun next hnext => ?_, ih _⟩
    have hhead := head?_placed (p.after l.text) ls
    rw [hnext] at hhead
    exact Option.some.inj hhead

/-- The last piece is the end of the input; all others are proper. -/
theorem last_placed (p : Position) (ls : List Lexeme)
    (hproper : ∀ l ∈ ls, l.text ≠ [] ∧ l.kind ≠ .token .eof) :
    ∃ before eof, placed p ls = before ++ [eof] ∧ eof.kind = .token .eof ∧
      eof.span = Span.empty (p.after (ls.flatMap (·.text))) ∧
      ∀ piece ∈ before, piece.kind ≠ .token .eof ∧
        piece.span.start.offset < piece.span.stop.offset := by
  induction ls generalizing p with
  | nil => exact ⟨[], _, rfl, rfl, rfl, by simp⟩
  | cons l ls ih =>
    obtain ⟨before, eof, heq, hkind, hspan, hbefore⟩ :=
      ih (p.after l.text) fun l' hl' => hproper l' (by simp [hl'])
    obtain ⟨hne, heof⟩ := hproper l (by simp)
    refine ⟨_ :: before, eof, by rw [placed, heq]; rfl, hkind, ?_, ?_⟩
    · rw [hspan, List.flatMap_cons, Position.after_append]
    · intro piece hmem
      rcases List.mem_cons.mp hmem with rfl | hmem'
      · refine ⟨heof, ?_⟩
        show p.offset < (p.after l.text).offset
        have hpos := byteLength_pos hne
        rw [Position.offset_after]
        omega
      · exact hbefore piece hmem'

/-- A span between two places of a text covers what stands between them. -/
theorem slice?_after (before covered rest : List Char) :
    (⟨Position.start.after before, (Position.start.after before).after covered⟩ : Span).slice?
      (String.ofList (before ++ (covered ++ rest))) = some (String.ofList covered) := by
  have hstart : (Position.start.after before).offset = byteLength before := by
    rw [Position.offset_after]
    exact Nat.zero_add _
  have hlen : (⟨Position.start.after before,
      (Position.start.after before).after covered⟩ : Span).length? =
        some (byteLength covered) := by
    unfold Span.length?
    simp only [Position.offset_after]
    rw [if_pos (Nat.le_add_right _ _), Nat.add_sub_cancel_left]
  unfold Span.slice?
  rw [hlen]
  simp only [hstart, String.toList_ofList, splitAtByte?_append, Option.bind_eq_bind,
    Option.bind_some, Option.pure_def]

/-- Each piece covers its own text. -/
theorem slice?_of_mem_placed (before : List Char) {ls : List Lexeme} {piece : Piece}
    (h : piece ∈ placed (Position.start.after before) ls) :
    piece.span.slice? (String.ofList (before ++ ls.flatMap (·.text))) = some piece.text := by
  induction ls generalizing before with
  | nil =>
    obtain rfl := List.mem_singleton.mp h
    exact slice?_after before [] []
  | cons l ls ih =>
    rcases List.mem_cons.mp h with rfl | hmem
    · exact slice?_after before l.text _
    · rw [← Position.after_append] at hmem
      have hnext := ih _ hmem
      rwa [List.append_assoc] at hnext

/-- The texts of the pieces put end to end. -/
theorem join_text_placed (p : Position) (ls : List Lexeme) :
    String.join ((placed p ls).map (·.text)) = String.ofList (ls.flatMap (·.text)) := by
  induction ls generalizing p with
  | nil => rfl
  | cons l ls ih =>
    rw [placed, List.map_cons, String.join_cons, ih, List.flatMap_cons, String.ofList_append]

end Piece

/-- **Lexing is lossless.**  The pieces of every text tile it, and put back together they
are the text. -/
theorem tokenize_tiles (source : String) :
    Tiles source (tokenize source).stream.pieces ∧
      (tokenize source).stream.reconstruct = source := by
  have hproper : ∀ l ∈ lexemes source.toList, l.text ≠ [] ∧ l.kind ≠ .token .eof :=
    fun l hl => lexeme_proper hl
  have hpieces : (tokenize source).stream.pieces =
      Piece.placed Position.start (lexemes source.toList) :=
    pieces_ofLexemes _ _ fun l hl => (hproper l hl).1
  have hflat := flatMap_text_lexemes source.toList
  constructor
  · rw [hpieces]
    refine ⟨?_, Piece.adjacent_placed _ _, ?_, ?_⟩
    · have hhead := Piece.head?_placed Position.start (lexemes source.toList)
      obtain ⟨piece, hpiece, hstart⟩ := Option.map_eq_some_iff.mp hhead
      rw [hpiece, Option.map_some, hstart]
      rfl
    · obtain ⟨before, eof, heq, hkind, hspan, hbefore⟩ :=
        Piece.last_placed Position.start _ hproper
      have hend : (Position.start.after source.toList).offset = byteLength source.toList := by
        rw [Position.offset_after]
        exact Nat.zero_add _
      rw [hflat] at hspan
      exact ⟨before, eof, heq, hkind, by rw [hspan]; exact hend, by rw [hspan]; exact hend, hbefore⟩
    · intro piece hmem
      have hslice := Piece.slice?_of_mem_placed [] hmem
      rwa [hflat, List.nil_append, String.ofList_toList] at hslice
  · rw [reconstruct_eq_join, hpieces, Piece.join_text_placed, hflat, String.ofList_toList]

end FrontEnd
