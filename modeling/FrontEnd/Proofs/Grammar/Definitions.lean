/-
Definitions and files are read by their productions.

* `works_definition` — reading a definition crosses a spelling of it, unless something is
  recorded;
* `fileItem_total` — in a file a definition is read or skipped, and in both cases at least
  one token is consumed;
* `sourceFile_total` — reading a file never fails and comes to its end.
-/
import FrontEnd.ParsedFile
import FrontEnd.Proofs.Grammar.Blocks
import FrontEnd.Proofs.Literal.Heads

namespace FrontEnd

namespace Parser

variable {α β : Type} {s : State}

/-! ### Members in braces -/

theorem works_takeComments : Works false s takeComments fun _ ts => ts = [] :=
  works_ok (takeComments_run s) (Crosses.refl s).commented (by simp) (fun _ => inRange_nil)
    fun _ => rfl

/-- Something between braces.  What is made of it consumes the closing brace or fails. -/
theorem Works.braced {items : Parser α} {f : α → Parser β} {production : String}
    {A : α → List Token → Prop} {B : β → List Token → Prop}
    (hitems : ∀ s, Works false s items A)
    (hf : ∀ a o ts s', Crosses s (o :: ts) 1 s' →
      (s'.current.kind = .symbol .closeCurly ∧ ∃ b, f a s' = .ok b s'.advance ∧
        (o.kind = .symbol .openCurly → A a ts → B b (o :: (ts ++ [s'.current])))) ∨
      ∃ d, f a s' = .error d s' ∧ Located d (o :: ts) s') :
    Works false s (expect (.symbol .openCurly) production >>= fun _ => items >>= f) B := by
  by_cases hopen : s.current.kind = .symbol .openCurly
  · have hbrace : expect (.symbol .openCurly) production s = .ok s.current s.advance := by
      rw [expect_run, if_pos hopen]
    -- One brace is open while the items are read, also if they fail.
    have hfirst := (Crosses.refl s).step (m := 1) (by rw [hopen]; simp) (by rw [hopen]; rfl)
    have hmark : InRange [s.current] := inRange_of_ne_number (by rw [hopen]; simp)
    cases hrun : items s.advance with
    | error d s' =>
      obtain ⟨ts, n, hcross, hheeds, hd⟩ := (hitems s.advance).heeds_of_error hrun
      refine works_error ?_ (hfirst.append hcross) (fun hquiet => ?_) (hd.append _)
      · rw [bind_of_ok hbrace, bind_of_error hrun]
      · exact (hheeds (hfirst.quiet hcross.toWalks hquiet).2).append hmark
    | ok a s' =>
      obtain ⟨ts, hcross, -, hrange, ha⟩ := (hitems s.advance).inRange_of_ok hrun
      have hinside := hfirst.append hcross
      have hitems : Quiet s s' → InRange (s.current :: ts) := fun hquiet =>
        hmark.append (hrange (hfirst.quiet hcross.toWalks hquiet).2)
      have hgo : (expect (.symbol .openCurly) production >>= fun _ => items >>= f) s = f a s' := by
        rw [bind_of_ok hbrace, bind_of_ok hrun]
      rcases hf a s.current ts s' hinside with ⟨hclose, b, hb, hB⟩ | ⟨d, hd, hlocated⟩
      · have hproper : s'.current.kind ≠ .eof := by
          rw [hclose]
          simp
        have hall := hinside.step (m := 0) hproper (by rw [hclose]; rfl)
        have hlast := (reads_advance hproper).walks
        refine works_ok (hgo.trans hb) hall (by simp) (fun hquiet => ?_) fun hclean => ?_
        · exact (hitems (hinside.quiet hlast hquiet).1).append
            (inRange_of_ne_number (by rw [hclose]; simp))
        · exact hB hopen (ha (hlast.clean hclean))
      · exact works_error (hgo.trans hd) hinside (fun hquiet => (hitems hquiet).heeds d) hlocated
  · exact works_fail (bind_of_error (by rw [expect_run, if_neg hopen])) (located_notFound s _ _ [])

theorem works_membersWhile {wanted : Kind → Bool} {member : Parser α}
    {V : α → List Token → Prop} (hmember : ∀ s, Works false s member V) :
    Works false s (membersWhile wanted member) fun members ts => Each V members.1 ts := by
  refine works_takeComments.bind fun leading _ s₁ _ => ?_
  have hitem : ∀ s : State, wanted s.current.kind →
      Works false s (do let m ← member; return (m, ← takeComments)) fun m ts => V m.1 ts := by
    intro s _
    refine (hmember s).bind fun m ts s₂ _ => ?_
    refine works_takeComments.bind fun comments _ s₃ _ => works_pure ?_
    rintro rfl hm
    simpa using hm
  refine (works_manyWhile hitem s₁).bind fun members ts s₂ _ => works_pure ?_
  rintro hmembers rfl
  simpa using hmembers.map (W := V) fun m ts hm => hm

/-! ### Definitions -/

theorem works_function : Works true s (function Grammar.standard) FunctionDef.SpelledBy := by
  refine (works_expect (by decide)).bind fun word _ s₁ h₁ => ?_
  refine meets_identifier.works.bind fun name _ s₂ h₂ => ?_
  refine meets_genericClause?.works.bind fun generic gs s₃ h₃ => ?_
  refine meets_parameterList.works.bind fun parameters ps s₄ h₄ => ?_
  refine meets_returnType?.works.bind fun returnType rs s₅ h₅ => ?_
  refine (works_block s₅).still.bind fun body bs s₆ h₆ => ?_
  refine works_spanFrom (works_pure ?_)
  rintro hbody hreturn hparameters hgeneric ⟨⟩ ⟨rfl, hword⟩
  have hall := h₁.append (h₂.append (h₃.append (h₄.append (h₅.append h₆))))
  rw [hall.spanFrom (by simp)]
  simpa [covering_cons] using
    FunctionDef.SpelledBy.mk name hword hgeneric hparameters hreturn hbody

/-- The members of a struct: fields and then methods, and the comments between them. -/
def structMembers (g : Grammar) : Parser (List Parameter × List FunctionDef × List Comment) := do
  let (fields, fieldComments) ← membersWhile (· = .identifier) (parameter g)
  let (methods, methodComments) ← membersWhile (· = Keyword.fnKw) (function g)
  return (fields, methods, fieldComments ++ methodComments)

theorem works_structMembers :
    Works false s (structMembers Grammar.standard) fun members ts =>
      ∃ fs ms, ts = fs ++ ms ∧ Each Parameter.SpelledBy members.1 fs ∧
        Each FunctionDef.SpelledBy members.2.1 ms := by
  refine (works_membersWhile fun _ => meets_parameter.works).bind fun fields fs s₁ _ => ?_
  refine (works_membersWhile fun _ => works_function.still).bind fun methods ms s₂ _ => ?_
  refine works_pure fun hmethods hfields => ?_
  exact ⟨fs, ms, by simp, hfields, hmethods⟩

/-- What a struct does behind its members. -/
def closeStruct (start : Position) (name : Identifier) (generic : Option TypeExpr)
    (members : List Parameter × List FunctionDef × List Comment) : Parser StructDef := do
  if (← kind) = Symbol.closeCurly then
    let _ ← advance
    return ⟨name, generic, members.1, members.2.1, members.2.2, ← spanFrom start⟩
  else unexpected "struct_definition" [Keyword.fnKw, Symbol.closeCurly]

theorem closeStruct_run (start : Position) (name : Identifier) (generic : Option TypeExpr)
    (members : List Parameter × List FunctionDef × List Comment) (s : State) :
    closeStruct start name generic members s =
      if s.current.kind = .symbol .closeCurly then
        .ok ⟨name, generic, members.1, members.2.1, members.2.2, s.advance.spanFrom start⟩ s.advance
      else .error (s.unexpected "struct_definition" [.keyword .fnKw, .symbol .closeCurly]) s := by
  show (if s.current.kind = .symbol .closeCurly then _ else _ : Parser StructDef) s = _
  split <;> rfl

theorem structDef_eq (g : Grammar) :
    structDef g = (do
      let word ← expect Keyword.structKw "struct_definition"
      let name ← identifier "struct_definition"
      let generic ← genericClause? g
      let _ ← expect Symbol.openCurly "struct_definition"
      let members ← structMembers g
      closeStruct word.span.start name generic members) := by
  simp only [structDef, structMembers, closeStruct, bind_assoc, pure_bind]

theorem works_structDef : Works true s (structDef Grammar.standard) StructDef.SpelledBy := by
  rw [structDef_eq]
  refine (works_expect (by decide)).bind fun word _ s₁ h₁ => ?_
  refine meets_identifier.works.bind fun name _ s₂ h₂ => ?_
  refine meets_genericClause?.works.bind fun generic gs s₃ h₃ => ?_
  refine Works.braced (fun _ => works_structMembers) fun members o ts s₄ h₄ => ?_
  have hrun := closeStruct_run word.span.start name generic members s₄
  by_cases hclose : s₄.current.kind = .symbol .closeCurly
  · rw [if_pos hclose] at hrun
    refine .inl ⟨hclose, _, hrun, ?_⟩
    rintro ho ⟨fs, ms, rfl, hfields, hmethods⟩ hgeneric ⟨⟩ ⟨rfl, hword⟩
    have hlast := passes_advance (show s₄.current.kind ≠ .eof by rw [hclose]; simp)
    have hall := (h₁.append (h₂.append (h₃.append h₄))).toPasses.append hlast
    rw [hall.spanFrom (by simp)]
    simpa [covering_cons] using
      StructDef.SpelledBy.mk name members.2.2 hword hgeneric ho hfields hmethods hclose
  · rw [if_neg hclose] at hrun
    exact .inr ⟨_, hrun, located_unexpected s₄ _ _ _⟩

theorem works_definition :
    Works true s (definition Grammar.standard) Definition.SpelledBy := by
  refine works_kind ?_
  split
  · exact works_unexpected _ _
  · refine (meets_useStatement.works_of_ne_nil fun _ _ h => by cases h; simp).bind ?_
    exact fun u ts s₁ _ => works_pure fun hu => by simpa using Definition.SpelledBy.use hu
  · refine works_function.bind fun f ts s₁ _ => works_pure fun hf => ?_
    simpa using Definition.SpelledBy.function hf
  · refine (meets_externalFunction.works_of_ne_nil fun _ _ h => by cases h; simp).bind ?_
    exact fun f ts s₁ _ => works_pure fun hf => by simpa using Definition.SpelledBy.external hf
  · refine works_structDef.bind fun d ts s₁ _ => works_pure fun hd => ?_
    simpa using Definition.SpelledBy.struct hd

/-! ### Files -/

theorem skipTokensToDefinition_run (start : Nat) (s : State) :
    skipTokensToDefinition start s =
      if s.current.kind = .eof then .ok () s
      else if s.current.kind = .symbol .semicolon ∧ s.depth = 0 then .ok () s.advance
      else if s.current.kind = .symbol .closeCurly then
        if s.advance.depth = 0 then .ok () s.advance
        else guarded s.rest.length (skipTokensToDefinition start) s.advance
      else if s.current.kind.startsDefinition ∧ s.depth = 0 ∧ start < s.index then .ok () s
      else guarded s.rest.length (skipTokensToDefinition start) s.advance := by
  rw [skipTokensToDefinition, nest_run]
  show (if s.current.kind = .eof then _ else _ : Parser Unit) s = _
  split
  · rfl
  · split
    · rfl
    · split
      · show (if s.advance.depth = 0 then _ else _ : Parser Unit) s.advance = _
        split <;> rfl
      · split <;> rfl

/-- Skipping to a definition only reads. -/
theorem skipTokensToDefinition_reads (start : Nat) (s : State) :
    ∃ ts s', skipTokensToDefinition start s = .ok () s' ∧ Reads s ts s' := by
  induction hlen : s.rest.length using Nat.strong_induction_on generalizing s with
  | _ n ih =>
    rw [skipTokensToDefinition_run]
    by_cases heof : s.current.kind = .eof
    · rw [if_pos heof]
      exact ⟨[], s, rfl, .refl s⟩
    rw [if_neg heof]
    have hread := reads_advance heof
    have hlt := length_rest_advance heof
    have hgo : ∃ ts s', guarded s.rest.length (skipTokensToDefinition start) s.advance =
        .ok () s' ∧ Reads s ts s' := by
      obtain ⟨ts, s', hrun, hread'⟩ := ih _ (hlen ▸ hlt) s.advance rfl
      refine ⟨[s.current] ++ ts, s', ?_, hread.append hread'⟩
      rw [guarded, if_pos hlt]
      exact hrun
    split
    · exact ⟨_, _, rfl, hread⟩
    · split
      · split
        · exact ⟨_, _, rfl, hread⟩
        · exact hgo
      · split
        · exact ⟨[], s, rfl, .refl s⟩
        · exact hgo

/-- Skipping to a definition consumes at least one token from the index `start` on, unless
it starts at the end of the input. -/
theorem skipToDefinition_reads {start : Nat} {s : State} (hstart : start ≤ s.index)
    (heof : start = s.index → s.current.kind ≠ .eof) :
    ∃ ts s', skipToDefinition start s = .ok () s' ∧ Reads s ts s' ∧ start < s'.index := by
  obtain ⟨ts, s', hrun, hread⟩ := skipTokensToDefinition_reads start s
  have hindex := hread.toPasses.index_eq
  have hgo : skipToDefinition start s =
      (if s'.index = start then do let _ ← advance else pure () : Parser Unit) s' :=
    bind_of_ok hrun
  by_cases hsame : s'.index = start
  · -- Nothing was skipped: the token that the definition started with goes.
    have hnil : ts = [] := List.eq_nil_of_length_eq_zero (by omega)
    subst hnil
    have hcurrent := hread.toPasses.current_mem
    rw [List.nil_append, List.mem_singleton] at hcurrent
    have hproper : s'.current.kind ≠ .eof := hcurrent ▸ heof (by omega)
    refine ⟨[] ++ [s'.current], s'.advance, ?_, hread.append (reads_advance hproper), ?_⟩
    · rw [hgo, if_pos hsame]
      rfl
    · rw [index_advance hproper]
      omega
  · refine ⟨ts, s', ?_, hread, by omega⟩
    rw [hgo, if_neg hsame]
    rfl

/-- What a file goes on with after a definition, read or skipped. -/
def withFileComments (item : Definition) : Parser (List Definition) := do
  return item :: (← takeComments).map Definition.comment

/-- What a file does about a definition that fails, which started at `s`. -/
def recoverDefinition (s : State) (d : Diagnostic) : Parser Definition := do
  record d
  skipToDefinition s.index
  return .error (← spanFrom s.position)

theorem fileItem_of_ok {g : Grammar} {s s' : State} {item : Definition}
    (h : definition g { s with depth := 0 } = .ok item s') :
    fileItem g s = withFileComments item s' := by
  show (attempt (definition g) >>= _) { s with depth := 0 } = _
  rw [bind_of_ok (attempt_of_ok h)]
  rfl

theorem fileItem_of_error {g : Grammar} {s s' : State} {d : Diagnostic}
    (h : definition g { s with depth := 0 } = .error d s') :
    fileItem g s = (recoverDefinition s d >>= withFileComments) s' := by
  show (attempt (definition g) >>= _) { s with depth := 0 } = _
  rw [bind_of_ok (attempt_of_error h)]
  simp only [recoverDefinition, withFileComments, bind_assoc, pure_bind]
  rfl

theorem withFileComments_run (item : Definition) (s : State) :
    withFileComments item s = .ok (item :: s.comments.map Definition.comment) s.commented :=
  bind_of_ok (takeComments_run s)

/-- After a failed definition has been recorded, the rest of it is read and goes. -/
theorem recoverDefinition_reads {s s' : State} {ts : List Token} (h : Passes s ts s')
    (heof : s.current.kind ≠ .eof) (d : Diagnostic) :
    ∃ s'' us, recoverDefinition s d s' = .ok (.error (s''.spanFrom s.position)) s'' ∧
      Reads { s' with diagnostics := s'.diagnostics.push d } us s'' ∧ s.index < s''.index := by
  have hindex := h.index_eq
  have hproper : s.index = s'.index → s'.current.kind ≠ .eof := by
    intro hsame
    have hnil : ts = [] := List.eq_nil_of_length_eq_zero (by omega)
    have hcurrent := h.current_mem
    rw [hnil, List.nil_append, List.mem_singleton] at hcurrent
    rwa [← hcurrent]
  have hstart : s.index ≤ ({ s' with diagnostics := s'.diagnostics.push d } : State).index := by
    show s.index ≤ s'.index
    omega
  obtain ⟨us, s'', hrun, hread, hlt⟩ := skipToDefinition_reads hstart hproper
  exact ⟨s'', us, bind_of_ok hrun, hread, hlt⟩

/-- A failed definition is recorded, and the rest of it is skipped. -/
theorem recoverDefinition_walks {s s' : State} {ts : List Token} {d : Diagnostic}
    (h : Walks s ts s') (hd : Located d ts s') (heof : s.current.kind ≠ .eof) :
    ∃ s'' us, recoverDefinition s d s' = .ok (.error (s''.spanFrom s.position)) s'' ∧
      Walks s us s'' ∧ us ≠ [] ∧ ¬ s''.Clean := by
  obtain ⟨s'', us, hrun, hread, hlt⟩ := recoverDefinition_reads h.toPasses heof d
  have hall := (h.note hd).append hread.walks
  refine ⟨s'', ts ++ us, hrun, hall, ?_, ?_⟩
  · intro hnil
    have hlast := hall.toPasses.index_eq
    simp [hnil] at hlast
    omega
  · unfold State.Clean
    rw [hread.diagnostics]
    exact not_clean_push s' d

/-- In a file something is read or skipped, and the file goes on behind it. -/
theorem fileItem_total {s : State} (heof : s.current.kind ≠ .eof) :
    ∃ items s' ts, fileItem Grammar.standard s = .ok items s' ∧ Walks s ts s' ∧ ts ≠ [] ∧
      (s'.Clean → Each Definition.ItemBy items ts) := by
  have hdef : Works true { s with depth := 0 } (definition Grammar.standard)
    Definition.SpelledBy := works_definition
  cases hrun : definition Grammar.standard { s with depth := 0 } with
  | ok item s₁ =>
    obtain ⟨ts, hcross, hne, hspelled⟩ := hdef.of_ok hrun
    have hwalk : Walks s ts s₁ := hcross.toWalks.of_depth
    refine ⟨_, _, ts, (fileItem_of_ok hrun).trans (withFileComments_run item s₁),
      hwalk.commented, hne rfl, fun hclean => ?_⟩
    have hcomments : Each Definition.ItemBy (s₁.comments.map Definition.comment) [] :=
      .of_nil .comment s₁.comments
    have hall := Each.cons (.definition (hspelled hclean)) hcomments
    rwa [List.append_nil] at hall
  | error d s₁ =>
    obtain ⟨ts, n, hcross, hd⟩ := hdef.of_error hrun
    have hwalk : Walks s ts s₁ := hcross.toWalks.of_depth
    obtain ⟨s₂, us, hrecover, hwalk', hne, hdirty⟩ := recoverDefinition_walks hwalk hd heof
    have hitem := (fileItem_of_error hrun).trans
      ((bind_of_ok hrecover).trans (withFileComments_run _ s₂))
    exact ⟨_, _, us, hitem, hwalk'.commented, hne, fun hclean => absurd hclean hdirty⟩

/-- An item of a file consumes at least one token. -/
theorem length_rest_fileItem {s s' : State} {items : List Definition}
    (heof : s.current.kind ≠ .eof) (hrun : fileItem Grammar.standard s = .ok items s') :
    s'.rest.length < s.rest.length := by
  obtain ⟨_, t, ts, htotal, hwalk, hne, -⟩ := fileItem_total heof
  obtain ⟨-, rfl⟩ : _ ∧ s' = t := by simpa using hrun.symm.trans htotal
  have hpos := List.length_pos_iff.mpr hne
  rw [hwalk.rest, List.length_append]
  omega

/-- The items of a file are read to the end of the input. -/
theorem fileItems_total (s : State) :
    ∃ items s' ts, manyWhile (· ≠ .eof) (fileItem Grammar.standard) s = .ok items s' ∧
      Walks s ts s' ∧ s'.current.kind = .eof ∧
      (s'.Clean → Each Definition.ItemBy items.flatten ts) := by
  have hitem : ∀ s : State, True → decide (s.current.kind ≠ .eof) →
      ∃ items s' ts, fileItem Grammar.standard s = .ok items s' ∧ Walks s ts s' ∧ ts ≠ [] ∧
        (decide (s'.current.kind ≠ .eof) → True) ∧
        (s'.Clean → Each Definition.ItemBy items ts) := by
    intro s _ hwanted
    obtain ⟨items, s', ts, hrun, hwalk, hne, hitems⟩ := fileItem_total (of_decide_eq_true hwanted)
    exact ⟨items, s', ts, hrun, hwalk, hne, fun _ => trivial, hitems⟩
  obtain ⟨items, s', ts, hrun, hwalk, hstop, hitems⟩ :=
    manyWhile_total Walks (fun _ => True) (· ≠ .eof) (fun h => h) .refl
      (fun h h' => h.append h') hitem s fun _ => trivial
  exact ⟨items, s', ts, hrun, hwalk, by simpa using hstop, fun hclean => (hitems hclean).flatten⟩

theorem sourceFile_run {g : Grammar} {s s' : State} {items : List (List Definition)}
    (h : manyWhile (· ≠ .eof) (fileItem g) s.commented = .ok items s') :
    sourceFile g s =
      .ok ⟨s.comments.map Definition.comment ++ items.flatten,
        ⟨Position.start, s'.current.span.stop⟩⟩ s' := by
  rw [sourceFile, bind_of_ok (takeComments_run s), bind_of_ok h]
  rfl

/-- Reading a file never fails and comes to the end of the input. -/
theorem sourceFile_total (s : State) :
    ∃ file s' ts, sourceFile Grammar.standard s = .ok file s' ∧ Walks s ts s' ∧
      s'.current.kind = .eof ∧ (s'.Clean → file.SpelledBy ts) := by
  obtain ⟨items, s', ts, hitems, hwalk, heof, hspelled⟩ := fileItems_total s.commented
  have hfirst := (Walks.refl s).commented
  refine ⟨_, s', ts, sourceFile_run hitems, hfirst.append hwalk, heof, fun hclean => ?_⟩
  have hcomments : Each Definition.ItemBy (s.comments.map Definition.comment) [] :=
    .of_nil .comment s.comments
  exact hcomments.append (hspelled hclean)

end Parser

/-! ### Texts -/

/-- A stream that ends with the end of the input is read from its first token on. -/
theorem ofStream_append_eof (ts : List Token) (trivia : List Trivia) (p : Position) :
    Parser.State.ofStream ⟨ts ++ [Token.eofAt p], trivia⟩ =
      { rest := ts, trivia := trivia, eof := Token.eofAt p, eof_kind := rfl } := by
  simp [Parser.State.ofStream, Token.eofAt]

/-- The start of the tokens of a text. -/
def startOf (source : String) : Parser.State :=
  { rest := placedTokens Position.start (lexemes source.toList)
    trivia := placedTrivia Position.start (lexemes source.toList)
    eof := Token.eofAt (Position.start.after source.toList)
    eof_kind := rfl }

theorem ofStream_tokenize (source : String) :
    Parser.State.ofStream (tokenize source).stream = startOf source := by
  rw [tokenize, ofLexemes_eq, ofStream_append_eof, lexemesText_lexemes]
  rfl

/-- Reading the tokens of a text does not break off anywhere. -/
theorem faults_eq_nil_of_passes {source : String} {ts : List Token} {s : Parser.State}
    (h : Parser.Passes (startOf source) ts s) : s.faults = [] := by
  obtain ⟨us, hfaults, hsub, hheadless⟩ := h.faults
  rw [hfaults, show (startOf source).faults = [] from rfl, List.nil_append,
    List.eq_nil_iff_forall_not_mem]
  intro t ht
  have hmem : t ∈ (startOf source).rest := by
    rw [h.rest]
    exact List.mem_append_left _ (hsub.subset ht)
  exact not_headless_of_mem hmem (hheadless t ht)

/-- Reading the tokens of a text gives the tree and the diagnostics that the run ends with. -/
theorem parseTokens?_tokenize {source : String} {file : SourceFile} {s : Parser.State}
    (h : Parser.sourceFile Grammar.standard (startOf source) = .ok file s) :
    parseTokens? (tokenize source).stream = some (file, s.diagnostics.reported) := by
  obtain ⟨file', s', ts, hrun, hwalk, -, -⟩ := Parser.sourceFile_total (startOf source)
  obtain ⟨rfl, rfl⟩ : file = file' ∧ s = s' := by simpa using h.symm.trans hrun
  rw [parseTokens?, ofStream_tokenize, h]
  exact if_pos (faults_eq_nil_of_passes hwalk.toPasses)

theorem parseTokens_tokenize {source : String} {file : SourceFile} {s : Parser.State}
    (h : Parser.sourceFile Grammar.standard (startOf source) = .ok file s) :
    parseTokens (tokenize source).stream = (file, s.diagnostics.reported) := by
  rw [parseTokens, parseTokens?_tokenize h]
  rfl

/-- What parsing a text gives, in terms of what reading its tokens gives. -/
theorem parseSource_eq {source : String} {file : SourceFile} {s : Parser.State}
    (h : Parser.sourceFile Grammar.standard (startOf source) = .ok file s) :
    parseSource source =
      { file := file
        stream := (tokenize source).stream
        diagnostics := Diagnostics.sorted
          ⟨placedProblems Position.start (lexemes source.toList) ++ s.diagnostics.reported⟩ } := by
  have hlexical : (tokenize source).diagnostics =
      placedProblems Position.start (lexemes source.toList) := by
    rw [tokenize, ofLexemes_eq]
  rw [parseSource, parseTokens_tokenize h, hlexical]
  rfl

end FrontEnd
