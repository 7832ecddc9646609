/-
Errors are contained by balanced braces.

Whatever stands in the body of a function, as long as its braces are balanced and none of its
tokens starts a definition, the body ends at its own closing brace, and what comes behind it
is read as if nothing had gone wrong.

* `Crosses.eq_of_balanced` — the items of a block end exactly behind balanced tokens;
* `block_contained` — so a block with them inside is read to its closing brace;
* `shifted_startOf` — behind that brace the text goes on as it would start on its own;
* `parseSource_contained` — the definitions and the diagnostics of the whole text.
-/
import FrontEnd.Proofs.Diagnostic.Sorted
import FrontEnd.Proofs.Grammar.Joining
import FrontEnd.Proofs.Grammar.ShiftedFiles
import FrontEnd.Proofs.Token.Lines
import Mathlib.Data.List.Infix

namespace FrontEnd

/-! ### A function around a text -/

/-- The first line of a function. -/
def headText : List Char := ['f', 'n', ' ', 'f', '(', ')', ' ', '\x7b']

/-- A function with the given text as its body, up to its closing brace. -/
def wrappedLines (g : List Char) : List Char := headText ++ '\n' :: (g ++ '\n' :: ['\x7d'])

/-- A function with the given text as its body, and a line feed. -/
def wrapped (g : String) : String := "fn f() \x7b\n" ++ g ++ "\n\x7d\n"

theorem toList_around (g tail : String) :
    ("fn f() \x7b\n" ++ g ++ tail).toList = headText ++ '\n' :: (g.toList ++ tail.toList) := by
  have hhead : "fn f() \x7b\n".toList = headText ++ ['\n'] := rfl
  rw [String.toList_append, String.toList_append, hhead]
  simp

theorem toList_wrapped (g : String) : (wrapped g).toList = wrappedLines g.toList ++ ['\n'] := by
  have htail : "\n\x7d\n".toList = ['\n', '\x7d', '\n'] := rfl
  rw [wrapped, toList_around, htail, wrappedLines]
  simp

theorem toList_wrapped_append (g b : String) :
    (wrapped g ++ b).toList = wrappedLines g.toList ++ '\n' :: b.toList := by
  rw [String.toList_append, toList_wrapped, List.append_assoc, List.singleton_append]

/-- The tokens of the first line of a function. -/
def headTokens : List Token :=
  [⟨.keyword .fnKw, "fn", ⟨⟨0, 1, 1⟩, ⟨2, 1, 3⟩⟩⟩,
    ⟨.identifier, "f", ⟨⟨3, 1, 4⟩, ⟨4, 1, 5⟩⟩⟩,
    ⟨.symbol .openParen, "(", ⟨⟨4, 1, 5⟩, ⟨5, 1, 6⟩⟩⟩,
    ⟨.symbol .closeParen, ")", ⟨⟨5, 1, 6⟩, ⟨6, 1, 7⟩⟩⟩,
    ⟨.symbol .openCurly, "\x7b", ⟨⟨7, 1, 8⟩, ⟨8, 1, 9⟩⟩⟩]

/-- Where the text inside a function starts. -/
def insideStart : Position := ⟨9, 2, 1⟩

theorem after_headText : (Position.start.after headText).next '\n' = insideStart := rfl

/-- The closing brace behind the given text inside a function. -/
def closingBrace (g : List Char) : Token :=
  ⟨.symbol .closeCurly, "\x7d",
    ⟨(insideStart.after g).next '\n', ((insideStart.after g).next '\n').next '\x7d'⟩⟩

/-- The tokens of a function with the given text as its body. -/
theorem placedTokens_wrappedLines (g : List Char) :
    placedTokens Position.start (lexemes (wrappedLines g)) =
      headTokens ++ (placedTokens insideStart (lexemes g) ++ [closingBrace g]) := by
  have hhead : placedTokens Position.start (lexemes headText) = headTokens := by decide +kernel
  have hbrace : lexemes ['\x7d'] = [.token (.symbol .closeCurly) ['\x7d']] := by decide +kernel
  have hclose : placedTokens ((insideStart.after g).next '\n') (lexemes ['\x7d']) =
      [closingBrace g] := by
    rw [hbrace]
    rfl
  rw [wrappedLines, placedTokens_append_line, hhead, after_headText, placedTokens_append_line,
    hclose]

theorem start_closingBrace (g : String) :
    (closingBrace g.toList).span.start =
      Position.start.after ("fn f() \x7b\n" ++ g ++ "\n").toList := by
  have htail : "\n".toList = ['\n'] := rfl
  rw [toList_around, Position.after_append, Position.after_cons, after_headText,
    Position.after_append, htail]
  rfl

/-- Where the closing brace ends, the lines of the function end. -/
theorem stop_closingBrace (g : List Char) :
    (closingBrace g).span.stop = Position.start.after (wrappedLines g) := by
  rw [wrappedLines, Position.after_append, Position.after_cons, after_headText,
    Position.after_append]
  rfl

/-- The tokens of a text behind a function. -/
theorem rest_startOf_wrapped (g b : String) :
    (startOf (wrapped g ++ b)).rest =
      headTokens ++ (placedTokens insideStart (lexemes g.toList) ++ closingBrace g.toList ::
        (startOf b).rest.map (·.relocate (Position.shift (.over (wrapped g).toList)))) := by
  show placedTokens Position.start (lexemes (wrapped g ++ b).toList) = _
  rw [toList_wrapped_append, placedTokens_behind, placedTokens_wrappedLines, toList_wrapped]
  simp [startOf]

theorem eof_startOf_wrapped (g b : String) :
    (startOf (wrapped g ++ b)).eof =
      (startOf b).eof.relocate (Position.shift (.over (wrapped g).toList)) := by
  have hlast : Position.start.after (wrapped g ++ b).toList =
      (Position.start.after b.toList).shift (.over (wrapped g).toList) := by
    rw [toList_wrapped_append, toList_wrapped, Position.shift_after, ← Position.start_after_lines,
      ← Position.after_append, List.append_assoc, List.singleton_append]
  show Token.eofAt _ = _
  rw [hlast]
  rfl

/-- The tokens inside a function start between its braces. -/
theorem offset_inside {g : List Char} {t : Token}
    (h : t ∈ placedTokens insideStart (lexemes g) ++ [closingBrace g]) :
    insideStart.offset ≤ t.span.start.offset ∧
      t.span.start.offset ≤ (closingBrace g).span.start.offset := by
  have hline : ∀ p : Position, (p.next '\n').offset = p.offset + 1 := fun _ => rfl
  have hclose : (closingBrace g).span.start.offset = (insideStart.after g).offset + 1 := hline _
  rcases List.mem_append.mp h with h | h
  · obtain ⟨hfirst, hlast⟩ := offset_of_mem_placedTokens h
    omega
  · rw [List.mem_singleton.mp h, hclose, Position.offset_after]
    omega

namespace Parser

/-! ### Blocks -/

/-- Items of a block that end before a `}`, or before a token that ends all blocks, are
exactly the balanced tokens that they start with. -/
theorem Crosses.eq_of_balanced {s s' : State} {ts inside rest : List Token} {close : Token}
    (h : Crosses s ts 0 s')
    (hstop : s'.current.kind = .symbol .closeCurly ∨ s'.current.kind.endsBlocks)
    (hrest : s.rest = inside ++ close :: rest) (hclose : close.kind = .symbol .closeCurly)
    (hbal : Balanced inside) (hfree : ∀ t ∈ inside, ¬ t.kind.endsBlocks) :
    ts = inside ∧ s'.rest = close :: rest := by
  obtain ⟨m, hm, -, hexact⟩ := h.braces
  rcases List.append_eq_append_iff.mp (h.rest.symm.trans hrest) with
    ⟨us, hinside, hleft⟩ | ⟨us, hts, hleft⟩
  · cases us with
    | nil => exact ⟨by simpa using hinside.symm, hleft⟩
    | cons t us =>
      -- The items end before a brace that closes inside.
      exfalso
      have hcurrent : s'.current = t := current_of_rest hleft
      have ht : ¬ t.kind.endsBlocks := hfree t (by rw [hinside]; simp)
      have hbrace : t.kind = .symbol .closeCurly := by
        rw [hcurrent] at hstop
        exact hstop.resolve_right ht
      have hzero : m = 0 := by
        refine hexact.resolve_right ?_
        rintro ⟨u, hu, hends⟩
        rw [hcurrent] at hu
        refine hfree u ?_ hends
        rw [hinside]
        rcases List.mem_append.mp hu with hu | hu
        · exact List.mem_append_left _ hu
        · simp [List.mem_singleton.mp hu]
      rw [Balanced, hinside, nesting_append, hm, hzero, Option.bind_some, nesting_close hbrace us] at hbal
      exact absurd hbal (by simp)
  · cases us with
    | nil => exact ⟨by simpa using hts, by simpa using hleft.symm⟩
    | cons t us =>
      -- The items go on behind the closing brace.
      exfalso
      obtain ⟨rfl, -⟩ := List.cons.inj hleft
      rw [hts, nesting_append, hbal, Option.bind_some, nesting_close hclose us] at hm
      exact absurd hm (by simp)

/-- A block with balanced tokens inside, none of which ends blocks, is read to its closing
brace, whatever is wrong inside. -/
theorem block_contained {s : State} {inside rest : List Token} {close : Token}
    (hrest : s.rest = s.current :: (inside ++ close :: rest))
    (hopen : s.current.kind = .symbol .openCurly) (hclose : close.kind = .symbol .closeCurly)
    (hbal : Balanced inside) (hfree : ∀ t ∈ inside, ¬ t.kind.endsBlocks) :
    ∃ statements s', block Grammar.standard s =
        .ok ⟨statements, s'.advance.spanFrom s.current.span.start⟩ s'.advance ∧
      Crosses s.advance.commented inside 0 s' ∧ s'.rest = close :: rest := by
  have hinner : ∀ s' : State, Works true s'
      (guarded s.rest.length (block Grammar.standard)) Block.SpelledBy :=
    fun s' => works_guarded fun _ => works_block s'
  obtain ⟨statements, s', ts, hrun, hcross, hstop, -⟩ := blockOf_total hinner hopen
  have hinside : s.advance.commented.rest = inside ++ close :: rest := by
    have hpass := (passes_advance (show s.current.kind ≠ .eof by rw [hopen]; simp)).rest
    rw [hrest] at hpass
    exact (List.cons.inj hpass).2.symm
  obtain ⟨rfl, hleft⟩ := hcross.eq_of_balanced hstop hinside hclose hbal hfree
  refine ⟨statements, s', ?_, hcross, hleft⟩
  have hbrace : s'.current.kind = .symbol .closeCurly := by rw [current_of_rest hleft, hclose]
  rw [block, nest_run]
  show blockOf Grammar.standard (guarded s.rest.length (block Grammar.standard)) s = _
  rw [hrun, closeBlock_run, if_pos hbrace]

/-! ### The head of a function -/

/-- A function without parameters and without a return type is read up to its body. -/
theorem function_run {s : State} {word name opened closed brace : Token} {rest : List Token}
    (hrest : s.rest = word :: name :: opened :: closed :: brace :: rest)
    (hword : word.kind = .keyword .fnKw) (hname : name.kind = .identifier)
    (hopened : opened.kind = .symbol .openParen) (hclosed : closed.kind = .symbol .closeParen)
    (hbrace : brace.kind = .symbol .openCurly) :
    function Grammar.standard s =
      (block Grammar.standard >>= fun body => spanFrom word.span.start >>= fun span =>
        pure ⟨⟨name.text, name.span⟩, none, [], none, body, span⟩)
        s.advance.advance.advance.advance := by
  have h₁ := rest_advance hrest (by rw [hword]; simp)
  have h₂ := rest_advance h₁ (by rw [hname]; simp)
  have h₃ := rest_advance h₂ (by rw [hopened]; simp)
  have h₄ := rest_advance h₃ (by rw [hclosed]; simp)
  have hfn : expect (.keyword .fnKw) "function_definition" s = .ok word s.advance :=
    hword ▸ expect_of_rest hrest _
  have hidentifier : identifier "function_definition" s.advance =
      .ok ⟨name.text, name.span⟩ s.advance.advance :=
    bind_of_ok (hname ▸ expect_of_rest h₁ _)
  have hgeneric : genericClause? Grammar.standard s.advance.advance =
      .ok none s.advance.advance := by
    show (if s.advance.advance.current.kind = .symbol .less then _ else _ : Parser _) _ = _
    rw [if_neg (by rw [current_of_rest h₂, hopened]; simp)]
    rfl
  -- The list closes at once, and a brace follows, so that nothing optional is there.
  have hnone : manyWhile (fun k => k ≠ .symbol .closeParen && k ≠ .eof)
      (parameter Grammar.standard) s.advance.advance.advance =
        .ok [] s.advance.advance.advance := by
    rw [manyWhile_run, if_neg (by rw [current_of_rest h₃, hclosed]; simp)]
    rfl
  have hparameters : parameterList Grammar.standard s.advance.advance =
      .ok [] s.advance.advance.advance.advance := by
    rw [parameterList, bind_of_ok (hopened ▸ expect_of_rest h₂ _), bind_of_ok hnone,
      bind_of_ok (hclosed ▸ expect_of_rest h₃ _)]
    rfl
  have hreturn : returnType? Grammar.standard s.advance.advance.advance.advance =
      .ok none s.advance.advance.advance.advance := by
    have hskip : skip? (.symbol .colon) s.advance.advance.advance.advance =
        .ok false s.advance.advance.advance.advance := by
      show (if s.advance.advance.advance.advance.current.kind = .symbol .colon then _ else _ :
        Parser Bool) _ = _
      rw [if_neg (by rw [current_of_rest h₄, hbrace]; simp)]
      rfl
    exact bind_of_ok hskip
  rw [function, bind_of_ok hfn, bind_of_ok hidentifier, bind_of_ok hgeneric,
    bind_of_ok hparameters, bind_of_ok hreturn]

/-- A function whose body holds balanced tokens, none of which ends blocks, is read to the
closing brace of its body, whatever is wrong inside. -/
theorem function_contained {s : State} {word name opened closed brace close : Token}
    {inside rest : List Token}
    (hrest : s.rest = word :: name :: opened :: closed :: brace :: (inside ++ close :: rest))
    (hword : word.kind = .keyword .fnKw) (hname : name.kind = .identifier)
    (hopened : opened.kind = .symbol .openParen) (hclosed : closed.kind = .symbol .closeParen)
    (hbrace : brace.kind = .symbol .openCurly) (hclose : close.kind = .symbol .closeCurly)
    (hbal : Balanced inside) (hfree : ∀ t ∈ inside, ¬ t.kind.endsBlocks) :
    ∃ statements u s', Reads s [word, name, opened, closed, brace] u ∧ Crosses u inside 0 s' ∧
      s'.rest = close :: rest ∧
      function Grammar.standard s =
        .ok ⟨⟨name.text, name.span⟩, none, [], none,
          ⟨statements, s'.advance.spanFrom brace.span.start⟩,
          s'.advance.spanFrom word.span.start⟩ s'.advance := by
  have h₁ := rest_advance hrest (by rw [hword]; simp)
  have h₂ := rest_advance h₁ (by rw [hname]; simp)
  have h₃ := rest_advance h₂ (by rw [hopened]; simp)
  have h₄ := rest_advance h₃ (by rw [hclosed]; simp)
  have hread := (reads_of_rest hrest (by rw [hword]; simp)).append
    ((reads_of_rest h₁ (by rw [hname]; simp)).append
      ((reads_of_rest h₂ (by rw [hopened]; simp)).append
        ((reads_of_rest h₃ (by rw [hclosed]; simp)).append
          (reads_of_rest h₄ (by rw [hbrace]; simp)))))
  have hcurrent := current_of_rest h₄
  obtain ⟨statements, s', hrun, hcross, hleft⟩ := block_contained
    (by rw [hcurrent]; exact h₄) (by rw [hcurrent]; exact hbrace) hclose hbal hfree
  refine ⟨statements, _, s', hread, (Crosses.refl _).commented.append hcross, hleft, ?_⟩
  rw [function_run hrest hword hname hopened hclosed hbrace, bind_of_ok hrun, hcurrent]
  rfl

/-! ### Behind a line -/

/-- Behind a token that ends a line no comments of the line are left. -/
theorem shifted_startOf {a : List Char} {b : String} {t : State}
    (hrest : t.rest = (startOf b).rest.map (·.relocate (Position.shift (.over (a ++ ['\n'])))))
    (heof : t.eof = (startOf b).eof.relocate (Position.shift (.over (a ++ ['\n']))))
    (htrivia : t.trivia = placedTrivia Position.start (lexemes (a ++ '\n' :: b.toList)))
    (hdepth : t.depth = 0) (hfrom : t.commentsFrom = byteLength a) :
    ∃ φ : Front, φ.shift = .over (a ++ ['\n']) ∧ φ.recorded = t.diagnostics.reported ∧
      t.comments = (startOf b).comments.map (·.relocate φ.move) ∧
      Shifted φ (startOf b).commented t.commented := by
  obtain ⟨φ, hshift, hrecorded, hcomments, hshifted⟩ :=
    shifted_behind hrest heof htrivia hdepth (Nat.le_of_eq hfrom)
  rw [hfrom, between_eq_nil (Nat.le_refl _), List.filterMap_nil, List.nil_append] at hcomments
  exact ⟨φ, hshift, hrecorded, hcomments, hshifted⟩

/-! ### Files -/

theorem definition_function {s s' : State} {f : FunctionDef}
    (hkind : s.current.kind = .keyword .fnKw)
    (hrun : function Grammar.standard s = .ok f s') :
    definition Grammar.standard s = .ok (.function f) s' := by
  have hgo : ∀ f : Kind → Parser Definition, (kind >>= f) s = f s.current.kind s := fun _ => rfl
  rw [definition, hgo, hkind]
  exact bind_of_ok hrun

variable {g b : String}

theorem position_startOf_wrapped : (startOf (wrapped g ++ b)).position.offset = 0 := by
  rw [State.position, current_of_rest (rest_startOf_wrapped g b)]

/-- No comments stand before a function that starts a text. -/
theorem comments_startOf_wrapped : (startOf (wrapped g ++ b)).comments = [] := by
  rw [State.comments, position_startOf_wrapped, between_eq_nil (Nat.zero_le _), List.filterMap_nil]

theorem commented_startOf_wrapped :
    (startOf (wrapped g ++ b)).commented = startOf (wrapped g ++ b) := by
  unfold State.commented
  rw [position_startOf_wrapped, if_neg (Nat.not_lt_zero _)]

/-- A function around balanced tokens, none of which ends blocks, is the first item of a
file.  Behind it the file goes on as the text that follows would start on its own, and what
was recorded is about tokens inside the function. -/
theorem fileItem_wrapped (hbal : Balanced (placedTokens insideStart (lexemes g.toList)))
    (hfree : ∀ t ∈ placedTokens insideStart (lexemes g.toList), ¬ t.kind.endsBlocks) :
    ∃ (f : FunctionDef) (φ : Front) (s' : State),
      fileItem Grammar.standard (startOf (wrapped g ++ b)) =
        .ok (.function f :: ((startOf b).comments.map (·.relocate φ.move)).map .comment) s' ∧
      Shifted φ (startOf b).commented s' ∧ φ.shift = .over (wrapped g).toList ∧
      (f.name.name = "f" ∧
        f.body.span = ⟨⟨7, 1, 8⟩, Position.start.after (wrappedLines g.toList)⟩) ∧
      ∀ d ∈ φ.recorded, d.cause.category = .syntactic ∧
        ∃ t ∈ placedTokens insideStart (lexemes g.toList) ++ [closingBrace g.toList],
          d.span.start = t.span.start := by
  have hrest := rest_startOf_wrapped g b
  obtain ⟨statements, u, s', hread, hcross, hleft, hrun⟩ :=
    function_contained hrest rfl rfl rfl rfl rfl rfl hbal hfree
  have hcurrent : s'.current = closingBrace g.toList := current_of_rest hleft
  have hproper : s'.current.kind ≠ .eof := by
    rw [hcurrent]
    simp [closingBrace]
  have hlast := reads_advance hproper
  have hstop : s'.current.span.stop.offset = byteLength (wrappedLines g.toList) := by
    rw [hcurrent, stop_closingBrace, Position.offset_after]
    exact Nat.zero_add _
  -- One brace is open inside the function, and its own closing brace closes it.
  have hdepth : s'.advance.depth = 0 := by
    have hopen : u.depth = 1 := hread.depth 1 rfl
    have hinside : s'.depth = 1 := (hcross.depth.resolve_right hproper).trans hopen
    refine hlast.depth 0 ?_
    rw [hinside, hcurrent]
    rfl
  -- Comments inside were handed out up to a token inside, which the closing brace follows.
  have hfrom : s'.advance.commentsFrom = byteLength (wrappedLines g.toList) := by
    rw [← hstop]
    refine hcross.toWalks.commentsFrom_advance hproper ?_ ?_
    · rw [hcurrent]
      intro t ht
      exact Nat.le_trans (offset_inside ht).2 (Nat.le_succ _)
    · rw [hread.commentsTaken]
      exact Nat.zero_le _
  obtain ⟨φ, hshift, hrecorded, hcomments, hshifted⟩ :=
    shifted_startOf (a := wrappedLines g.toList) (b := b) (t := s'.advance)
      (by rw [← toList_wrapped]; exact rest_advance hleft (by simp [closingBrace]))
      (by rw [← toList_wrapped, hlast.eof, hcross.eof, hread.eof]; exact eof_startOf_wrapped g b)
      (by rw [hlast.trivia, hcross.trivia, hread.trivia, ← toList_wrapped_append]; rfl)
      hdepth hfrom
  have hkind : (startOf (wrapped g ++ b)).current.kind = .keyword .fnKw := by
    rw [current_of_rest hrest]
  rw [fileItem_of_ok (definition_function hkind hrun), withFileComments_run, hcomments]
  refine ⟨_, φ, _, rfl, hshifted, ?_, ⟨rfl, ?_⟩, ?_⟩
  · rw [hshift, toList_wrapped]
  · rw [← stop_closingBrace, ← hcurrent]
    refine spanFrom_advance hproper ?_
    rw [hstop, wrappedLines, byteLength_append]
    exact Nat.le_trans (show 7 ≤ byteLength headText by decide) (Nat.le_add_right _ _)
  · intro d hd
    obtain ⟨ds, hds, hlocated⟩ := hcross.diagnostics
    rw [hrecorded, hlast.diagnostics, hds, hread.diagnostics] at hd
    have hlocated' := hlocated d hd
    rw [Located, hcurrent] at hlocated'
    exact ⟨hlocated'.1, hlocated'.2.1⟩

/-- A file that starts with such a function is the function and what follows it. -/
theorem sourceFile_wrapped (hbal : Balanced (placedTokens insideStart (lexemes g.toList)))
    (hfree : ∀ t ∈ placedTokens insideStart (lexemes g.toList), ¬ t.kind.endsBlocks) :
    ∃ (f : FunctionDef) (inside : List Diagnostic) (file whole : SourceFile) (s s' : State),
      sourceFile Grammar.standard (startOf b) = .ok file s ∧
      sourceFile Grammar.standard (startOf (wrapped g ++ b)) = .ok whole s' ∧
      whole.definitions = .function f ::
        file.definitions.map (·.relocate (Position.shift (.over (wrapped g).toList))) ∧
      s'.diagnostics.reported = inside ++
        s.diagnostics.reported.map (·.relocate (Position.shift (.over (wrapped g).toList))) ∧
      (f.name.name = "f" ∧
        f.body.span = ⟨⟨7, 1, 8⟩, Position.start.after (wrappedLines g.toList)⟩) ∧
      ∀ d ∈ inside, d.cause.category = .syntactic ∧
        ∃ t ∈ placedTokens insideStart (lexemes g.toList) ++ [closingBrace g.toList],
          d.span.start = t.span.start := by
  obtain ⟨f, φ, s₁, hitem, hshifted, hshift, hf, hrecorded⟩ := fileItem_wrapped (b := b) hbal hfree
  obtain ⟨items, s, s', hitems, hitems', hend⟩ := shifted_fileItems hshifted
  have hdiagnostics := hend.diagnostics
  rw [Front.move, hshift] at hitem hitems' hdiagnostics
  have heof : (startOf (wrapped g ++ b)).current.kind ≠ .eof := by
    rw [current_of_rest (rest_startOf_wrapped g b)]
    simp
  -- The items of the whole file are the function and the items behind it.
  have hwhole : manyWhile (· ≠ .eof) (fileItem Grammar.standard) (startOf (wrapped g ++ b)) =
      .ok _ s' :=
    manyWhile_cons (by simp [heof]) hitem (length_rest_fileItem heof hitem) hitems'
  rw [← commented_startOf_wrapped] at hwhole
  refine ⟨f, φ.recorded, _, _, s, s', sourceFile_run hitems, sourceFile_run hwhole, ?_,
    hdiagnostics, hf, hrecorded⟩
  rw [comments_startOf_wrapped]
  simp [List.map_flatten, Definition.relocate]

end Parser

/-! ### Diagnostics -/

/-- The diagnostics about syntax. -/
def ParsedFile.syntactic (p : ParsedFile) : List Diagnostic :=
  p.diagnostics.filter (·.cause.category = .syntactic)

/-- What is recorded while reading tokens is what is wrong with the syntax of a text. -/
theorem syntactic_parseSource {source : String} {file : SourceFile} {s : Parser.State}
    (hrun : Parser.sourceFile Grammar.standard (startOf source) = .ok file s) :
    (parseSource source).syntactic = (Diagnostics.mk s.diagnostics.reported).sorted := by
  have hlexical : (placedProblems Position.start (lexemes source.toList)).filter
      (·.cause.category = .syntactic) = [] := by
    refine List.filter_eq_nil_iff.mpr fun d hd => ?_
    simp [category_of_mem_placedProblems hd]
  have hrecorded : s.diagnostics.reported.filter (·.cause.category = .syntactic) =
      s.diagnostics.reported := by
    -- Reading starts with nothing recorded, so that all there is was recorded on the way.
    obtain ⟨_, s', ts, htotal, hwalk, -⟩ := Parser.sourceFile_total (startOf source)
    obtain ⟨-, rfl⟩ : _ ∧ s = s' := by simpa using hrun.symm.trans htotal
    obtain ⟨ds, hds, hlocated⟩ := hwalk.diagnostics
    have hds' : s.diagnostics.reported = ds := hds
    refine List.filter_eq_self.mpr fun d hd => ?_
    simp [(hlocated d (hds' ▸ hd)).1]
  rw [ParsedFile.syntactic, parseSource_eq hrun, Diagnostics.sorted_filter, List.filter_append,
    hlexical, hrecorded, List.nil_append]

/-! ### Containment -/

theorem startsDefinition_eq_false {k : Kind} (h : k ∉ Parser.definitionStart) :
    k.startsDefinition = false := by
  unfold Kind.startsDefinition
  split
  · exact absurd (by decide) h
  · exact absurd (by decide) h
  · exact absurd (by decide) h
  · exact absurd (by decide) h
  · rfl

/-- Places do not matter to the nesting of braces. -/
theorem nesting_map_relocate (f : Position → Position) (n : Nat) (ts : List Token) :
    nesting n (ts.map (·.relocate f)) = nesting n ts := by
  induction ts generalizing n with
  | nil => rfl
  | cons t ts ih => simp [nesting, ih]

section

variable {g : String}

theorem placedTokens_insideStart (g : String) :
    placedTokens insideStart (lexemes g.toList) =
      (placedTokens Position.start (lexemes g.toList)).map
        (·.relocate (Position.shift ⟨9, 1⟩)) := by
  rw [← placedTokens_shift]
  rfl

theorem balanced_startOf
    (hbefore : ∀ us, us <+: (tokenize g).stream.tokens →
      countKind (.symbol .closeCurly) us ≤ countKind (.symbol .openCurly) us)
    (htotal : countKind (.symbol .openCurly) (tokenize g).stream.tokens =
      countKind (.symbol .closeCurly) (tokenize g).stream.tokens) :
    Balanced (startOf g).rest := by
  rw [tokens_tokenize] at hbefore htotal
  refine balanced_of_count (fun us hus => hbefore us (hus.trans (List.prefix_append _ _))) ?_
  simpa [countKind, Token.eofAt, startOf] using htotal

theorem not_endsBlocks_startOf
    (hwords : ∀ t ∈ (tokenize g).stream.tokens, t.kind ∉ Parser.definitionStart) {t : Token}
    (ht : t ∈ (startOf g).rest) : ¬ t.kind.endsBlocks := by
  have heof : t.kind ≠ .eof := kind_ne_eof_of_mem_placedTokens ht
  have hword := hwords t (by rw [tokens_tokenize]; exact List.mem_append_left _ ht)
  simpa [Kind.endsBlocks, startsDefinition_eq_false hword] using heof

/-- Tokens that are balanced on their own are balanced inside a function. -/
theorem balanced_inside (h : Balanced (startOf g).rest) :
    Balanced (placedTokens insideStart (lexemes g.toList)) := by
  rw [placedTokens_insideStart, Balanced, nesting_map_relocate]
  exact h

theorem not_endsBlocks_inside (h : ∀ t ∈ (startOf g).rest, ¬ t.kind.endsBlocks) {t : Token}
    (ht : t ∈ placedTokens insideStart (lexemes g.toList)) : ¬ t.kind.endsBlocks := by
  rw [placedTokens_insideStart] at ht
  obtain ⟨u, hu, rfl⟩ := List.mem_map.mp ht
  exact h u hu

/-- **Containment.**  Around a text with balanced braces, none of whose tokens starts a
definition, a function is read up to its own closing brace, however broken the text is.  What
follows the function is read as it is on its own: its definitions follow the function, and
its diagnostics follow those that start inside the function. -/
theorem parseSource_contained (g b : String)
    (hbefore : ∀ us, us <+: (tokenize g).stream.tokens →
      countKind (.symbol .closeCurly) us ≤ countKind (.symbol .openCurly) us)
    (htotal : countKind (.symbol .openCurly) (tokenize g).stream.tokens =
      countKind (.symbol .closeCurly) (tokenize g).stream.tokens)
    (hwords : ∀ t ∈ (tokenize g).stream.tokens, t.kind ∉ Parser.definitionStart) :
    ∃ (f : FunctionDef) (inside : List Diagnostic),
      (parseSource (wrapped g ++ b)).file.definitions = .function f ::
        (parseSource b).file.definitions.map
          (·.relocate (Position.shift (.over (wrapped g).toList))) ∧
      f.name.name = "f" ∧
      f.body.span = ⟨Position.start.after "fn f() ".toList,
        Position.start.after ("fn f() \x7b\n" ++ g ++ "\n\x7d").toList⟩ ∧
      (parseSource (wrapped g ++ b)).syntactic = inside ++
        (parseSource b).syntactic.map
          (·.relocate (Position.shift (.over (wrapped g).toList))) ∧
      ∀ d ∈ inside,
        (Position.start.after "fn f() \x7b".toList).offset ≤ d.span.start.offset ∧
        d.span.start.offset ≤
          (Position.start.after ("fn f() \x7b\n" ++ g ++ "\n").toList).offset := by
  obtain ⟨f, inside, file, whole, s, s', hfile, hwhole, hdefinitions, hdiagnostics, hf, hinside⟩ :=
    Parser.sourceFile_wrapped (b := b) (balanced_inside (balanced_startOf hbefore htotal))
      fun _ ht => not_endsBlocks_inside (fun _ => not_endsBlocks_startOf hwords) ht
  refine ⟨f, (Diagnostics.mk inside).sorted, ?_, hf.1, ?_, ?_, ?_⟩
  · rw [parseSource_eq hwhole, parseSource_eq hfile]
    exact hdefinitions
  · have hopen : Position.start.after "fn f() ".toList = ⟨7, 1, 8⟩ := rfl
    have htail : "\n\x7d".toList = '\n' :: ['\x7d'] := rfl
    rw [hf.2, hopen, toList_around, htail]
    rfl
  · rw [syntactic_parseSource hwhole, syntactic_parseSource hfile, hdiagnostics,
      Diagnostics.sorted_append_shift]
    -- What is recorded inside starts before the closing brace ends.
    intro d hd
    obtain ⟨-, t, ht, hstart⟩ := hinside d hd
    have hlast := (offset_inside ht).2
    have hbrace : (closingBrace g.toList).span.start.offset + 1 =
        byteLength (wrappedLines g.toList) := by
      have hstop := congrArg Position.offset (stop_closingBrace g.toList)
      rw [Position.offset_after] at hstop
      exact hstop.trans (Nat.zero_add _)
    rw [toList_wrapped, bytes_over_line, hstart]
    omega
  · intro d hd
    obtain ⟨-, t, ht, hstart⟩ := hinside d (Diagnostics.mem_sorted.mp hd)
    obtain ⟨hfirst, hlast⟩ := offset_inside ht
    have hopen : (Position.start.after "fn f() \x7b".toList).offset = 8 := rfl
    have hline : insideStart.offset = 9 := rfl
    rw [hopen, hstart, ← start_closingBrace]
    exact ⟨by omega, hlast⟩

end

/-- A body that breaks off inside an expression, a match and a string, and closes a brace
before a parenthesis. -/
def brokenBody : String := "let x = (1 @ ; match x \x7b 1 => \x7b, \x7d if ( \x7d ) \"no end"

/-- A text with a comment and a function that lacks a semicolon. -/
def followingText : String := "// next\nfn h() \x7b y = 2 \x7d"

theorem parseSource_contained_brokenBody :
    ∃ (f : FunctionDef) (inside : List Diagnostic),
      (parseSource (wrapped brokenBody ++ followingText)).file.definitions = .function f ::
        (parseSource followingText).file.definitions.map
          (·.relocate (Position.shift (.over (wrapped brokenBody).toList))) ∧
      f.name.name = "f" ∧
      f.body.span = ⟨Position.start.after "fn f() ".toList,
        Position.start.after ("fn f() \x7b\n" ++ brokenBody ++ "\n\x7d").toList⟩ ∧
      (parseSource (wrapped brokenBody ++ followingText)).syntactic = inside ++
        (parseSource followingText).syntactic.map
          (·.relocate (Position.shift (.over (wrapped brokenBody).toList))) ∧
      ∀ d ∈ inside,
        (Position.start.after "fn f() \x7b".toList).offset ≤ d.span.start.offset ∧
        d.span.start.offset ≤
          (Position.start.after ("fn f() \x7b\n" ++ brokenBody ++ "\n").toList).offset := by
  have hbefore : ∀ us ∈ (tokenize brokenBody).stream.tokens.inits,
      countKind (.symbol .closeCurly) us ≤ countKind (.symbol .openCurly) us := by
    decide +kernel
  refine parseSource_contained brokenBody followingText (fun us hus => ?_) ?_ ?_
  · exact hbefore us ((List.mem_inits us _).mpr hus)
  · decide +kernel
  · decide +kernel

end FrontEnd
