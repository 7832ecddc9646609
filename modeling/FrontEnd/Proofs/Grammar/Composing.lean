/-
Files compose.

A text whose definitions can all be read, and all of whose blocks are closed, can be put in front
of another text.  No decision that is taken in it depends on what comes behind its last
definition: every definition is read up to its last token and not farther, the comments behind it
are handed out only up to the end of the line, and what is left is read as it is on its own.

* `Joined` — a state of the run on the first text, and the same place in the run on both;
* `Joined.definition` — from there a definition is read in the same way;
* `fileFrom_joined` — item after item so is all of the first text, and the second text follows;
* `parseSource_append` — the definitions and the diagnostics of both texts.
-/
import FrontEnd.Proofs.Diagnostic.Sorted
import FrontEnd.Proofs.Grammar.Closing
import FrontEnd.Proofs.Grammar.Joining
import FrontEnd.Proofs.Grammar.Stray
import FrontEnd.Proofs.Token.Problems

namespace FrontEnd

/-! ### Pieces of two lines -/

section

variable (a b : List Char)

/-- The comments of a line are looked up in the same way with another line behind it. -/
theorem comments_before (first : Nat) {last : Nat} (hlast : last ≤ byteLength a) :
    (Trivia.between first last
        (placedTrivia Position.start (lexemes (a ++ '\n' :: b)))).filterMap Comment.ofTrivia? =
      (Trivia.between first last (placedTrivia Position.start (lexemes a))).filterMap
        Comment.ofTrivia? := by
  rw [comments_lines, comments_between (pairwise_placedTrivia _ _)]
  refine List.append_right_eq_self.mpr (List.map_eq_nil_iff.mpr ?_)
  refine List.filter_eq_nil_iff.mpr fun c _ => ?_
  have hbytes := bytes_over_line a
  have hbehind : ¬ c.span.start.offset + (Shift.over (a ++ ['\n'])).bytes < last := by omega
  simp [Span.startsIn, Comment.relocate, hbehind]

end

theorem offset_eof_startOf (a : String) :
    (startOf a).eof.span.start.offset = byteLength a.toList := by
  show (Position.start.after a.toList).offset = _
  rw [Position.offset_after]
  exact Nat.zero_add _

namespace Parser

variable {a b : String} {s s' t t' u u' : State}

/-! ### The same place in both runs -/

/-- A token that was passed in a text, or comes next, starts within the text. -/
theorem Passes.start_le {ts : List Token} (h : Passes (startOf a) ts s) {x : Token}
    (hx : x ∈ ts ++ [s.current]) : x.span.start.offset ≤ byteLength a.toList := by
  have hinside : ∀ y ∈ (startOf a).rest, y.span.start.offset ≤ byteLength a.toList := by
    intro y hy
    obtain ⟨-, hfits, hstop⟩ := (tokensAt_startOf a).of_mem hy
    have hlt := hfits.start_lt_stop
    omega
  rw [h.rest] at hinside
  rcases List.mem_append.mp hx with hx | hx
  · exact hinside x (List.mem_append_left _ hx)
  · rw [List.mem_singleton.mp hx]
    cases hrest : s.rest with
    | nil =>
      rw [current_eq_headD, hrest, h.eof]
      exact Nat.le_of_eq (offset_eof_startOf a)
    | cons y ys =>
      rw [current_of_rest hrest]
      exact hinside y (by simp [hrest])

/-- The first state is reached in the first text, and the second one at the same place of both
texts. -/
structure Joined (a b : String) (s s' : State) : Prop where
  walks : ∃ ts, Walks (startOf a) ts s
  passes' : ∃ ts, Passes (startOf (a ++ "\n" ++ b)) ts s'
  consumed : s'.consumed = s.consumed
  commentsTaken : s'.commentsTaken = s.commentsTaken
  diagnostics : s'.diagnostics.reported = s.diagnostics.reported

theorem joined_startOf (a b : String) : Joined a b (startOf a) (startOf (a ++ "\n" ++ b)) :=
  ⟨⟨[], .refl _⟩, ⟨[], .refl _⟩, rfl, rfl, rfl⟩

namespace Joined

theorem all (h : Joined a b s s') : (startOf a).rest = s.consumed.reverse ++ s.rest := by
  obtain ⟨ts, hwalk⟩ := h.walks
  have hconsumed : s.consumed = ts.reverse := by simpa [startOf] using hwalk.consumed
  rw [hwalk.rest, hconsumed, List.reverse_reverse]

/-- Behind the tokens of the first text that are left come those of the second one. -/
theorem rest (h : Joined a b s s') :
    s'.rest = s.rest ++
      (startOf b).rest.map (·.relocate (Position.shift (.over (a.toList ++ ['\n'])))) := by
  obtain ⟨ts, hpass⟩ := h.passes'
  have hconsumed : s'.consumed = ts.reverse := by simpa [startOf] using hpass.consumed
  have hall := hpass.rest
  rw [rest_startOf_append_line, h.all, List.append_assoc,
    show ts = s.consumed.reverse by rw [← h.consumed, hconsumed, List.reverse_reverse]] at hall
  exact (List.append_cancel_left hall).symm

theorem tokensAt (h : Joined a b s s') :
    TokensAt 0 (s.consumed.reverse ++ s.rest) (byteLength a.toList) :=
  h.all ▸ tokensAt_startOf a

theorem start_le (h : Joined a b s s') {x : Token} (hx : x ∈ s.rest) :
    x.span.start.offset ≤ byteLength a.toList := by
  obtain ⟨-, hfits, hstop⟩ := h.tokensAt.of_mem (List.mem_append_right _ hx)
  have hlt := hfits.start_lt_stop
  omega

theorem kind_ne_eof (h : Joined a b s s') {x : Token} (hx : x ∈ s.rest) : x.kind ≠ .eof := by
  have hmem : x ∈ (startOf a).rest := by
    rw [h.all]
    exact List.mem_append_right _ hx
  exact kind_ne_eof_of_mem_placedTokens hmem

theorem commentsTaken_le (h : Joined a b s s') : s.commentsTaken ≤ byteLength a.toList := by
  obtain ⟨ts, hwalk⟩ := h.walks
  rcases hwalk.commentsTaken with hsame | ⟨x, hx, htaken⟩
  · rw [hsame]
    exact Nat.zero_le _
  · rw [htaken]
    exact hwalk.toPasses.start_le hx

theorem commentsFrom (h : Joined a b s s') : s'.commentsFrom = s.commentsFrom := by
  rw [State.commentsFrom, State.commentsFrom, h.consumed, h.commentsTaken]

theorem commentsFrom_le (h : Joined a b s s') : s'.commentsFrom ≤ byteLength a.toList := by
  refine Parser.commentsFrom_le (fun x hx => ?_) (h.commentsTaken ▸ h.commentsTaken_le)
  exact (h.tokensAt.of_mem (List.mem_append_left _ (List.mem_reverse.mpr (h.consumed ▸ hx)))).2.2

theorem commentsIn (h : Joined a b s s') (first : Nat) {last : Nat}
    (hlast : last ≤ byteLength a.toList) : s'.commentsIn first last = s.commentsIn first last := by
  obtain ⟨_, hwalk⟩ := h.walks
  obtain ⟨_, hpass'⟩ := h.passes'
  unfold State.commentsIn
  rw [hwalk.trivia, hpass'.trivia]
  show (Trivia.between first last (placedTrivia Position.start
    (lexemes (a ++ "\n" ++ b).toList))).filterMap _ = _
  rw [toList_append_line]
  exact comments_before a.toList b.toList first hlast

theorem position_of_nil (h : Joined a b s s') (hrest : s.rest = []) :
    s.position.offset = byteLength a.toList := by
  obtain ⟨_, hwalk⟩ := h.walks
  rw [State.position, current_eq_headD, hrest, hwalk.eof]
  exact offset_eof_startOf a

section

-- The first text is not at its end.
variable {x : Token} {xs : List Token} (hrest : s.rest = x :: xs)

include hrest

theorem position (h : Joined a b s s') : s'.position = s.position := by
  have hrest' := h.rest
  rw [hrest, List.cons_append] at hrest'
  rw [State.position, State.position, current_of_rest hrest, current_of_rest hrest']

theorem comments (h : Joined a b s s') : s'.comments = s.comments := by
  show s'.commentsIn s'.commentsFrom s'.position.offset = _
  rw [h.commentsFrom, h.position hrest]
  refine h.commentsIn _ ?_
  rw [State.position, current_of_rest hrest]
  exact h.start_le (by simp [hrest])

end

/-- The last token of a definition, with what is left of the first text behind it, and with that
and the second text. -/
def lastToken (last : Token) (rest more : List Token) (eof eof' : Token) (bound : Nat)
    (hkind : last.kind = .symbol .closeCurly ∨ last.kind = .symbol .semicolon)
    (hbound : last.span.start.offset ≤ bound) : Comparison where
  placed := true
  rest := last :: rest
  rest' := last :: (rest ++ more)
  eof := eof
  eof' := eof'
  bound := bound
  kind_mem := by rcases hkind with h | h <;> simp [ends, h]
  heads := .inl (.refl _ _)
  nil_iff := by simp
  proper _ := by rcases hkind with h | h <;> simp [h]
  start_le _ := hbound

theorem exact_lastToken (last : Token) (rest more : List Token) (eof eof' : Token) (bound : Nat)
    (hkind : last.kind = .symbol .closeCurly ∨ last.kind = .symbol .semicolon)
    (hbound : last.span.start.offset ≤ bound) :
    (lastToken last rest more eof eof' bound hkind hbound).Exact := .refl _ _

/-- Up to the last token of a definition the same tokens are left. -/
theorem paired (h : Joined a b s s') {us rest : List Token} {last : Token}
    (hrest : s.rest = us ++ last :: rest)
    (hkind : last.kind = .symbol .closeCurly ∨ last.kind = .symbol .semicolon)
    (hshut : last.kind = .symbol .semicolon → Shut us)
    (hbound : last.span.start.offset ≤ byteLength a.toList) :
    Paired (lastToken last rest
        ((startOf b).rest.map (·.relocate (Position.shift (.over (a.toList ++ ['\n'])))))
        s.eof s'.eof (byteLength a.toList) hkind hbound)
      { s.commented with depth := 0 } { s'.commented with depth := 0 } where
  rest := by
    refine ⟨us, us, hrest, ?_, .refl _ _, ⟨hshut, fun _ _ _ => .refl _ _, fun _ x hx => ?_⟩,
      fun _ _ => .refl _ _⟩
    · show s'.rest = us ++ last :: (rest ++ _)
      rw [h.rest, hrest, List.append_assoc, List.cons_append]
    · exact h.start_le (by simp [hrest, hx])
  consumed := ⟨fun _ => h.consumed.symm,
    by rw [show s'.commented.consumed = _ from h.consumed]; rfl⟩
  depth := rfl
  eof := rfl
  eof' := rfl
  commentsTaken _ := by
    obtain ⟨x, xs, hx⟩ := List.exists_cons_of_ne_nil (show s.rest ≠ [] by simp [hrest])
    show s'.commented.commentsTaken = s.commented.commentsTaken
    rw [State.commented, State.commented, h.commentsFrom, h.position hx, h.commentsTaken]
  commentsIn _ first last hlast := h.commentsIn first hlast
  diagnostics := ⟨fun _ => h.diagnostics.symm,
    by rw [show s'.commented.diagnostics.reported = _ from h.diagnostics]; rfl⟩

/-- A definition that is read from the first state on is read from the second one on. -/
theorem definition (h : Joined a b s s') {item : Definition}
    (hrun : Parser.definition Grammar.standard { s.commented with depth := 0 } = .ok item t)
    (hwhole : t.Unbroken) :
    ∃ t', Parser.definition Grammar.standard { s'.commented with depth := 0 } = .ok item t' ∧
      Joined a b t t' := by
  -- Up to its last token the definition is compared, and then what is done with this token.
  obtain ⟨ts, hpass, us, last, rfl, hlast⟩ := definition_sealed hrun hwhole
  have hrest : s.rest = us ++ last :: t.rest := hpass.rest.trans (by simp)
  have hpaired := h.paired hrest (hlast.imp_right And.left)
    (fun hsemi => (hlast.resolve_left (by simp [hsemi])).2) (h.start_le (by simp [hrest]))
  have hexact := exact_lastToken last t.rest
    ((startOf b).rest.map (·.relocate (Position.shift (.over (a.toList ++ ['\n'])))))
    s.eof s'.eof (byteLength a.toList) (hlast.imp_right And.left) (h.start_le (by simp [hrest]))
  obtain ⟨item', t', hrun', halike, hpast⟩ :=
    (closes_definition hexact).run _ _ item t hpaired hrun hwhole ⟨rfl, rfl⟩
  obtain rfl : item = item' := halike.same rfl
  obtain ⟨hconsumed, htaken, hdiagnostics⟩ := hpast.same hexact (by simp [lastToken]) rfl
  refine ⟨t', hrun', ?_, ?_, hconsumed, htaken, hdiagnostics⟩
  · obtain ⟨before, hwalk⟩ := h.walks
    obtain ⟨us, hcross, -⟩ := works_definition.of_ok hrun
    exact ⟨_, (hwalk.append (Walks.refl s).commented).append hcross.toWalks.of_depth⟩
  · obtain ⟨before, hpass'⟩ := h.passes'
    obtain ⟨us, hcross, -⟩ := works_definition.of_ok hrun'
    exact ⟨_, (hpass'.append (Passes.refl s').commented).append hcross.toWalks.of_depth.toPasses⟩

end Joined

/-! ### Item after item -/

theorem Walks.unbroken {ts : List Token} (h : Walks s ts t) (hwhole : t.Unbroken) :
    s.Unbroken := by
  obtain ⟨ds, hds, -⟩ := h.diagnostics
  exact fun d hd => hwhole d (by rw [hds]; exact List.mem_append_left _ hd)

/-- What is left of a file is walked to the end of the input. -/
theorem FileFrom.walks {definitions : List Definition} (h : FileFrom s definitions t) :
    ∃ ts, Walks s ts t := by
  obtain ⟨items, hitems, -⟩ := h
  obtain ⟨items', t', ts, hrun, hwalk, -⟩ := fileItems_total s.commented
  obtain ⟨-, rfl⟩ := EStateM.Result.ok.inj (hitems.symm.trans hrun)
  exact ⟨_, (Walks.refl s).commented.append hwalk⟩

/-- Where the input ends, a file does. -/
theorem fileItems_of_eof (heof : s.current.kind = .eof) :
    manyWhile (· ≠ .eof) (fileItem Grammar.standard) s = .ok [] s :=
  manyWhile_of_not (by simp [heof]) _

theorem fileItems_of_ne_eof (heof : s.current.kind ≠ .eof) :
    manyWhile (· ≠ .eof) (fileItem Grammar.standard) s =
      (fileItem Grammar.standard >>= fun item =>
        guarded s.rest.length (manyWhile (· ≠ .eof) (fileItem Grammar.standard)) >>=
          fun items => pure (item :: items)) s := by
  rw [manyWhile_run, if_pos (decide_eq_true heof)]

/-- The number of open braces does not matter between definitions. -/
theorem FileFrom.of_depth {depth : Nat} {definitions : List Definition}
    (h : FileFrom { s with depth } definitions t) :
    ∃ t', FileFrom s definitions t' ∧ t'.diagnostics = t.diagnostics := by
  obtain ⟨items, hitems, rfl⟩ := h
  set u : State := ({ s with depth } : State).commented with hu
  by_cases heof : s.current.kind = .eof
  · obtain ⟨rfl, rfl⟩ := EStateM.Result.ok.inj ((fileItems_of_eof (s := u) heof).symm.trans hitems)
    exact ⟨s.commented, ⟨[], fileItems_of_eof heof, rfl⟩, rfl⟩
  · -- An item starts with setting the number back.
    rw [fileItems_of_ne_eof (s := u) heof] at hitems
    exact ⟨t, ⟨items, (fileItems_of_ne_eof (s := s.commented) heof).trans hitems, rfl⟩, rfl⟩

/-- Unless nothing is left of a file, there is an item, and then what is left behind it. -/
theorem FileFrom.uncons {definitions : List Definition} (h : FileFrom s definitions t)
    (heof : s.current.kind ≠ .eof) (hvalid : ∀ span, .error span ∉ definitions) :
    ∃ item u definitions', FileFrom u definitions' t ∧
      Parser.definition Grammar.standard { s.commented with depth := 0 } = .ok item u ∧
      definitions = s.comments.map Definition.comment ++ item :: definitions' := by
  obtain ⟨items, hitems, rfl⟩ := h
  rw [fileItems_of_ne_eof (s := s.commented) heof] at hitems
  obtain ⟨first, u, hfirst, hitems⟩ := bind_eq_ok hitems
  obtain ⟨others, u', hothers, hitems⟩ := bind_eq_ok hitems
  obtain ⟨rfl, rfl⟩ := EStateM.Result.ok.inj hitems
  have hmore := (guarded_eq_ok hothers).2
  cases hrun : Parser.definition Grammar.standard { s.commented with depth := 0 } with
  | ok item v =>
    rw [fileItem_of_ok hrun, withFileComments_run] at hfirst
    obtain ⟨rfl, rfl⟩ := EStateM.Result.ok.inj hfirst
    exact ⟨item, v, _, ⟨others, hmore, rfl⟩, rfl, by simp⟩
  | error d v =>
    -- A definition that fails leaves a skipped stretch.
    obtain ⟨ts, n, hcross, hd⟩ := works_definition.of_error hrun
    obtain ⟨w, us, hrecover, -⟩ := recoverDefinition_walks hcross.toWalks.of_depth hd heof
    rw [fileItem_of_error hrun, bind_of_ok hrecover, withFileComments_run] at hfirst
    obtain ⟨rfl, rfl⟩ := EStateM.Result.ok.inj hfirst
    exact absurd (by simp) (hvalid (w.spanFrom s.commented.position))

/-- Where the first text ends, the comments that are left of it are handed out in both runs, and
in the second one the second text follows. -/
theorem Joined.fileFrom_of_nil {definitions : List Definition} (h : Joined a b s s')
    (hrest : s.rest = []) (hfrom : FileFrom s definitions t) :
    ∃ (file : SourceFile) (u t' : State),
      sourceFile Grammar.standard (startOf b) = .ok file u ∧
      FileFrom s' (definitions ++
        file.definitions.map (·.relocate (Position.shift (.over (a.toList ++ ['\n']))))) t' ∧
      t'.diagnostics.reported = t.diagnostics.reported ++
        u.diagnostics.reported.map (·.relocate (Position.shift (.over (a.toList ++ ['\n'])))) := by
  obtain ⟨_, hwalk⟩ := h.walks
  obtain ⟨_, hpass⟩ := h.passes'
  have hrest' : s'.rest = _ := h.rest
  rw [hrest, List.nil_append] at hrest'
  have heof : s.current.kind = .eof := by
    rw [current_eq_headD, hrest]
    exact s.eof_kind
  obtain ⟨items, hitems, rfl⟩ := hfrom
  obtain ⟨rfl, rfl⟩ :=
    EStateM.Result.ok.inj ((fileItems_of_eof (s := s.commented) heof).symm.trans hitems)
  obtain ⟨file, u, t', hfile, hfrom', hdiagnostics⟩ :=
    fileFrom_behind (a := a.toList) (b := b) (t := { s' with depth := 0 }) hrest'
      (hpass.eof.trans (eof_startOf_append_line a b))
      (hpass.trivia.trans (by rw [← toList_append_line]; rfl)) rfl h.commentsFrom_le
  obtain ⟨t'', hfrom'', hsame⟩ := hfrom'.of_depth
  refine ⟨file, u, t'', hfile, ?_, ?_⟩
  · have hcomments : s.comments =
        (Trivia.between s'.commentsFrom (byteLength a.toList)
          (placedTrivia Position.start (lexemes a.toList))).filterMap Comment.ofTrivia? := by
      rw [State.comments, h.commentsFrom, h.position_of_nil hrest, hwalk.trivia]
      rfl
    rw [hcomments, List.flatten_nil, List.append_nil]
    exact hfrom''
  · rw [hsame, hdiagnostics]
    exact congrArg (· ++ _) h.diagnostics

/-- A definition leaves fewer tokens than it started with. -/
theorem length_rest_definition {item : Definition}
    (hrun : definition Grammar.standard s = .ok item t) : t.rest.length < s.rest.length := by
  obtain ⟨ts, hcross, hne, -⟩ := works_definition.of_ok hrun
  exact hcross.toPasses.length_rest_lt (hne rfl)

/-- From the same place on, the definitions of the first text are read in both runs, and in the
second one those of the second text follow. -/
theorem fileFrom_joined {definitions : List Definition} (h : Joined a b s s')
    (hfrom : FileFrom s definitions t) (hwhole : t.Unbroken)
    (hvalid : ∀ span, .error span ∉ definitions) :
    ∃ (file : SourceFile) (u t' : State),
      sourceFile Grammar.standard (startOf b) = .ok file u ∧
      FileFrom s' (definitions ++
        file.definitions.map (·.relocate (Position.shift (.over (a.toList ++ ['\n']))))) t' ∧
      t'.diagnostics.reported = t.diagnostics.reported ++
        u.diagnostics.reported.map (·.relocate (Position.shift (.over (a.toList ++ ['\n'])))) := by
  induction hn : s.rest.length using Nat.strong_induction_on generalizing s s' definitions with
  | _ n ih =>
    cases hrest : s.rest with
    | nil => exact h.fileFrom_of_nil hrest hfrom
    | cons x xs =>
      have heof : s.current.kind ≠ .eof := by
        rw [current_of_rest hrest]
        exact h.kind_ne_eof (by simp [hrest])
      obtain ⟨item, v, definitions', hleft, hrun, rfl⟩ := hfrom.uncons heof hvalid
      obtain ⟨_, hwalk⟩ := hleft.walks
      obtain ⟨v', hrun', hjoined⟩ := h.definition hrun (hwalk.unbroken hwhole)
      have hlt : v.rest.length < s.rest.length :=
        length_rest_definition (s := { s.commented with depth := 0 }) hrun
      obtain ⟨file, u, t', hfile, hfrom', hdiagnostics⟩ :=
        ih v.rest.length (hn ▸ hlt) hjoined hleft
          (fun span hspan => hvalid span (by simp [hspan])) rfl
      refine ⟨file, u, t', hfile, ?_, hdiagnostics⟩
      have hrest' := h.rest
      rw [hrest, List.cons_append] at hrest'
      have heof' : s'.current.kind ≠ .eof := by
        rw [current_of_rest hrest', ← current_of_rest hrest]
        exact heof
      have hall := hfrom'.cons heof' (fileItem_of_ok hrun')
      rw [h.comments hrest] at hall
      simpa using hall

end Parser

/-! ### Whole texts -/

/-- The shift over a line. -/
theorem over_line (a : List Char) :
    Shift.over (a ++ ['\n']) = ⟨byteLength a + 1, a.count '\n' + 1⟩ := by
  rw [Shift.over, byteLength_append, List.count_append]
  rfl

/-- What is wrong with a text starts within the text. -/
theorem start_le_of_mem_diagnostics {a : String} {s : Parser.State} {ts : List Token}
    (hwalk : Parser.Walks (startOf a) ts s) {d : Diagnostic}
    (hd : d ∈ placedProblems Position.start (lexemes a.toList) ++ s.diagnostics.reported) :
    d.span.start.offset ≤ byteLength a.toList := by
  rcases List.mem_append.mp hd with hd | hd
  · have hle := offset_of_mem_placedProblems hd
    rwa [lexemesText_lexemes, Position.offset_after, show Position.start.offset = 0 from rfl,
      Nat.zero_add] at hle
  · obtain ⟨ds, hds, hlocated⟩ := hwalk.diagnostics
    rw [hds] at hd
    obtain ⟨-, ⟨t, ht, hstart⟩, -⟩ := hlocated d (by simpa [startOf] using hd)
    rw [hstart]
    exact hwalk.toPasses.start_le ht

/-- **Files compose.**  If every definition of a text can be read, and no block of it is left
without its closing brace, another text on the next line is read as it is on its own, behind what
the first text gives on its own. -/
theorem parseSource_append (a b : String)
    (hvalid : ∀ span, .error span ∉ (parseSource a).file.definitions)
    (hclosed : ∀ d ∈ (parseSource a).diagnostics, ∀ found,
      d.cause ≠ .missing "block" (.symbol .closeCurly) found) :
    (parseSource (a ++ "\n" ++ b)).file.definitions =
        (parseSource a).file.definitions ++
          (parseSource b).file.definitions.map (·.relocate
            (Position.shift ⟨byteLength a.toList + 1, a.toList.count '\n' + 1⟩)) ∧
      (parseSource (a ++ "\n" ++ b)).diagnostics =
        (parseSource a).diagnostics ++
          (parseSource b).diagnostics.map (·.relocate
            (Position.shift ⟨byteLength a.toList + 1, a.toList.count '\n' + 1⟩)) := by
  obtain ⟨items, s, ts, hitems, hwalk, -⟩ := Parser.fileItems_total (startOf a).commented
  have hfrom : Parser.FileFrom (startOf a) _ s := ⟨items, hitems, rfl⟩
  rw [parseSource_eq hfrom.run] at hvalid hclosed ⊢
  have hwhole : s.Unbroken := fun d hd =>
    hclosed d (Diagnostics.mem_sorted.mpr (List.mem_append_right _ hd))
  obtain ⟨file, u, t, hfile, hjoined, hdiagnostics⟩ :=
    Parser.fileFrom_joined (Parser.joined_startOf a b) hfrom hwhole hvalid
  rw [parseSource_eq hjoined.run, parseSource_eq hfile, ← over_line]
  refine ⟨rfl, ?_⟩
  rw [hdiagnostics, toList_append_line, placedProblems_behind, Diagnostics.sorted_interleaved,
    ← List.map_append, Diagnostics.sorted_shift]
  · exact fun d hd => start_le_of_mem_diagnostics ((Parser.Walks.refl _).commented.append hwalk) hd
  · intro d hd
    rw [← List.map_append] at hd
    obtain ⟨e, -, rfl⟩ := List.mem_map.mp hd
    rw [Diagnostic.relocate, Span.start_relocate, Position.offset_shift, bytes_over_line]
    omega

/-- Two definitions with a literal that does not end, a statement without its semicolon, and
comments. -/
def upperText : String :=
  "use a::b; // first\nfn f(x: [i32; 2]) \x7b g(\"no end\n); y = 1 z = 2; \x7d /* last */"

theorem parseSource_append_upperText :
    (∀ span, .error span ∉ (parseSource upperText).file.definitions) ∧
      (∀ d ∈ (parseSource upperText).diagnostics, ∀ found,
        d.cause ≠ .missing "block" (.symbol .closeCurly) found) ∧
      (parseSource (upperText ++ "\n" ++ looseText)).file.definitions =
        (parseSource upperText).file.definitions ++
          (parseSource looseText).file.definitions.map (·.relocate
            (Position.shift ⟨byteLength upperText.toList + 1, upperText.toList.count '\n' + 1⟩)) ∧
      (parseSource (upperText ++ "\n" ++ looseText)).diagnostics =
        (parseSource upperText).diagnostics ++
          (parseSource looseText).diagnostics.map (·.relocate
            (Position.shift ⟨byteLength upperText.toList + 1, upperText.toList.count '\n' + 1⟩)) := by
  obtain ⟨herrors, hcauses⟩ :
      (parseSource upperText).file.definitions.filterMap Definition.error? = [] ∧
        ((tokenize upperText).diagnostics ++
            (parseTokens (tokenize upperText).stream).2).map (·.cause) =
          [.unterminatedString, .missing "variable_assignment" (.symbol .semicolon) "z"] := by
    decide +kernel
  have hvalid : ∀ span, .error span ∉ (parseSource upperText).file.definitions := by
    intro span hmem
    exact nomatch List.filterMap_eq_nil_iff.mp herrors _ hmem
  have hclosed : ∀ d ∈ (parseSource upperText).diagnostics, ∀ found,
      d.cause ≠ .missing "block" (.symbol .closeCurly) found := by
    intro d hd found hcause
    have hreported : d ∈ (tokenize upperText).diagnostics ++
        (parseTokens (tokenize upperText).stream).2 := Diagnostics.mem_sorted.mp hd
    have hmem := List.mem_map_of_mem (f := (·.cause)) hreported
    rw [hcauses, hcause] at hmem
    simp at hmem
  exact ⟨hvalid, hclosed, parseSource_append upperText looseText hvalid hclosed⟩

end FrontEnd
