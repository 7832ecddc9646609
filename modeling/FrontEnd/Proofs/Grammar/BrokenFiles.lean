/-
The same file but for one statement.

A statement in a block lacks its semicolon.  Around the block the definitions are read as they were:

* `breaks_function`, `breaks_structDef` — a function, also one among the methods of a struct;
* `breaks_fileItem` — a definition with the comments behind it;
* `breaks_sourceFile` — a whole file.
-/
import FrontEnd.Proofs.Grammar.Breaking

namespace FrontEnd.Parser

variable {α : Type} {s s' t : State} {x : Stmt} {d : Diagnostic}

/-! ### Parts of a definition -/

theorem tidies_parameterList : Tidies (parameterList Grammar.standard) :=
  tidies_of_meets (fun _ => meets_parameterList) fun _ _ h => h.tidy

theorem tidies_genericClause? : Tidies (genericClause? Grammar.standard) :=
  tidies_of_meets (fun _ => meets_genericClause?) fun _ _ h => tidy_generic h

theorem tidies_returnType? : Tidies (returnType? Grammar.standard) :=
  tidies_of_meets (fun _ => meets_returnType?) fun _ _ h => h.tidy

theorem tidies_membersWhile {wanted : Kind → Bool} {member : Parser α} {V : α → List Token → Prop}
    (hmember : ∀ s, Works false s member V) (hV : ∀ a ts, V a ts → Tidy ts) :
    Tidies (membersWhile wanted member) :=
  tidies_of_works (fun _ => works_membersWhile hmember) fun _ _ h => .each h fun a _ us => hV a us

theorem tidies_closeStruct (start : Position) (name : Identifier) (generic : Option TypeExpr)
    (members : List Parameter × List FunctionDef × List Comment) :
    Tidies (closeStruct start name generic members) := by
  intro s b t hrun
  obtain ⟨hclose, -, rfl⟩ := closeStruct_eq_ok hrun
  have hread := reads_advance (show s.current.kind ≠ .eof by rw [hclose]; simp)
  exact ⟨[s.current], hread.walks, fun _ => tidy_singleton hclose (by decide)⟩

/-- Members of a struct of which the functions may differ. -/
theorem resumes_closeStruct {R : StructDef → StructDef → Prop} {start : Position} {name : Identifier}
    {generic : Option TypeExpr}
    {members members' : List Parameter × List FunctionDef × List Comment}
    (h : ∀ span, R ⟨name, generic, members.1, members.2.1, members.2.2, span⟩
      ⟨name, generic, members'.1, members'.2.1, members'.2.2, span⟩) :
    Resumes d R (closeStruct start name generic members)
      (closeStruct start name generic members') := by
  intro s s' b t hs hrun
  obtain ⟨hclose, rfl, rfl⟩ := closeStruct_eq_ok hrun
  have hadvance := hs.advance (by rw [hclose]; simp)
  refine ⟨⟨name, generic, members'.1, members'.2.1, members'.2.2, s.advance.spanFrom start⟩,
    s'.advance, ?_, h _, hadvance⟩
  rw [closeStruct_run, hs.current, if_pos hclose, hadvance.spanFrom]

/-! ### Definitions -/

section

variable (hform : x.endsWithSemicolon)

include hform

theorem breaks_function (s : State) :
    Breaks x true s (function Grammar.standard) (FunctionDef.Holds x) (FunctionDef.Swaps x) := by
  refine .after (fun _ _ => mirrors_expect _ _) (tidies_expect (by decide) (by decide))
    fun word _ _ _ _ => ?_
  refine .after (fun _ _ => mirrors_identifier _) (tidies_identifier _) fun name _ _ _ _ => ?_
  refine .after (fun _ _ => mirrors_genericClause?) tidies_genericClause? fun generic _ _ _ _ => ?_
  refine .after (fun _ _ => mirrors_parameterList) tidies_parameterList fun parameters _ _ _ _ => ?_
  refine .after (fun _ _ => mirrors_returnType?) tidies_returnType? fun returnType s₅ _ _ _ => ?_
  exact (breaks_block hform s₅).spanned (fun _ _ hx => hx) fun _ _ _ _ h => .mk h

/-- The methods of a struct, each with the comments behind it. -/
theorem breaks_methods (s : State) :
    Breaks x true s
      (manyWhile (· = .keyword .fnKw) do
        let f ← function Grammar.standard
        return (f, ← takeComments))
      (fun methods => ∃ f ∈ methods, f.1.Holds x)
      (fun ys => Altered fun f f' => FunctionDef.Swaps x ys f.1 f'.1 ∧ f.2 = f'.2) := by
  have htidies : Tidies (do
      let f ← function Grammar.standard
      return (f, ← takeComments)) :=
    (tidies_of_works (fun _ => works_function) fun _ _ h => h.tidy).bind fun _ =>
      tidies_takeComments.bind fun _ => tidies_pure _
  have hshifts : ∀ φ : Front, Shifts φ true
      (Prod.map (FunctionDef.relocate φ.move) (List.map (Comment.relocate φ.move)))
      (do
        let f ← function Grammar.standard
        return (f, ← takeComments))
      (do
        let f ← function Grammar.standard
        return (f, ← takeComments)) :=
    fun _ => shifts_function.bind fun _ => shifts_takeComments.bind fun _ => shifts_pure rfl
  refine breaks_manyWhile (I := fun _ => True) (m := fun f : FunctionDef × List Comment => f.1.bare)
    (fun _ _ _ _ _ => trivial) (fun s f t _ _ hrun => ?_) (fun _ hsure => ?_) (by simp)
    (fun s _ _ => ?_) (fun d s s' methods t _ h hrun _ => ?_) s fun _ => trivial
  · obtain ⟨ts, hwalk, htidy⟩ := htidies s f t hrun
    exact ⟨ts, hwalk, htidy, fun _ => trivial⟩
  · refine (mirrors_function hsure).bind fun f f' hf => ?_
    refine (mirrors_takeComments hsure).bind fun comments comments' hcomments => mirrors_pure ?_
    exact ⟨fun hp => by rw [hf.same hp, hcomments.same hp], hf.shown⟩
  · refine (breaks_function hform s).andThen (fun f t item u _ hrun hx => ?_)
      (fun _ => tidies_takeComments.bind fun _ => tidies_pure _) fun d ys f f' h => ?_
    · obtain ⟨comments, v, -, hrun⟩ := bind_eq_ok hrun
      obtain ⟨rfl, -⟩ := EStateM.Result.ok.inj hrun
      exact hx
    · refine resumes_takeComments.bind fun comments _ hcomments => ?_
      subst hcomments
      exact resumes_pure ⟨h, rfl⟩
  · exact Shifts.run_resumed
      (fun f => List.map (Prod.map (FunctionDef.relocate f) (List.map (Comment.relocate f))))
      (fun φ => shifts_manyWhile (hshifts φ)) h hrun

/-- The members of a struct. -/
theorem breaks_structMembers (s : State) :
    Breaks x true s (structMembers Grammar.standard) (fun members => ∃ f ∈ members.2.1, f.Holds x)
      (fun ys members members' => members.1 = members'.1 ∧
        Altered (FunctionDef.Swaps x ys) members.2.1 members'.2.1 ∧ members.2.2 = members'.2.2) := by
  refine .after (fun _ hsure => mirrors_membersWhile hsure mirrors_parameter)
    (tidies_membersWhile (fun _ => meets_parameter.works) fun _ _ h => h.tidy)
    fun fields s₁ _ _ _ => ?_
  have hmethods : Breaks x true s₁ (membersWhile (· = .keyword .fnKw) (function Grammar.standard))
      (fun methods => ∃ f ∈ methods.1, f.Holds x)
      (fun ys methods methods' => Altered (FunctionDef.Swaps x ys) methods.1 methods'.1 ∧
        methods.2 = methods'.2) := by
    refine .after (fun _ hsure => mirrors_takeComments hsure) tidies_takeComments
      fun leading s₂ _ _ _ => ?_
    refine (breaks_methods hform s₂).andThen (fun methods t pair u _ hrun hx => ?_)
      (fun _ => tidies_pure _) fun d ys methods methods' h => resumes_pure ⟨?_, ?_⟩
    · obtain ⟨rfl, -⟩ := EStateM.Result.ok.inj hrun
      obtain ⟨f, hf, hx⟩ := hx
      obtain ⟨item, hitem, rfl⟩ := List.mem_map.mp hf
      exact ⟨item, hitem, hx⟩
    · exact h.map fun _ _ h => h.1
    · rw [h.flatMap_eq fun _ _ h => h.2]
  refine hmethods.andThen (fun methods t members u _ hrun hx => ?_) (fun _ => tidies_pure _)
    fun d ys methods methods' h => resumes_pure ⟨rfl, h.1, ?_⟩
  · obtain ⟨rfl, -⟩ := EStateM.Result.ok.inj hrun
    exact hx
  · rw [h.2]

theorem breaks_structDef (s : State) :
    Breaks x true s (structDef Grammar.standard) (StructDef.Holds x) (StructDef.Swaps x) := by
  rw [structDef_eq]
  refine .after (fun _ _ => mirrors_expect _ _) (tidies_expect (by decide) (by decide))
    fun word _ _ _ _ => ?_
  refine .after (fun _ _ => mirrors_identifier _) (tidies_identifier _) fun name _ _ _ _ => ?_
  refine .after (fun _ _ => mirrors_genericClause?) tidies_genericClause? fun generic _ _ _ _ => ?_
  refine .after (fun _ _ => mirrors_expect _ _) (tidies_expect (by decide) (by decide))
    fun _ s₄ _ _ _ => ?_
  refine (breaks_structMembers hform s₄).andThen (fun members t struct u _ hrun hx => ?_)
    (fun _ => tidies_closeStruct _ _ _ _) fun d ys members members' h => ?_
  · obtain ⟨-, rfl, -⟩ := closeStruct_eq_ok hrun
    exact hx
  · refine resumes_closeStruct fun span => ?_
    obtain ⟨hfields, hmethods, hcomments⟩ := h
    rw [hfields, hcomments]
    exact .mk hmethods

theorem breaks_definition (s : State) :
    Breaks x true s (definition Grammar.standard) (Definition.Holds x) (Definition.Swaps x) := by
  have hwalks : ∀ a t, definition Grammar.standard s = .ok a t → ∃ ts, Walks s ts t := by
    intro a t hrun
    obtain ⟨ts, hcross, -⟩ := works_definition.of_ok hrun
    exact ⟨ts, hcross.toWalks⟩
  have hgo : ∀ f : Kind → Parser Definition, (kind >>= f) s = f s.current.kind s := fun _ => rfl
  cases hstart : Grammar.standard.definition? s.current.kind with
  | none =>
    refine breaks_never hwalks fun a t hrun _ => ?_
    rw [definition, hgo, hstart] at hrun
    cases hrun
  | some form =>
    cases form with
    | use =>
      refine breaks_never hwalks fun a t hrun _ => ?_
      rw [definition, hgo, hstart] at hrun
      obtain ⟨use, u, -, hrun⟩ := bind_eq_ok hrun
      obtain ⟨rfl, -⟩ := EStateM.Result.ok.inj hrun
      exact id
    | external =>
      refine breaks_never hwalks fun a t hrun _ => ?_
      rw [definition, hgo, hstart] at hrun
      obtain ⟨f, u, -, hrun⟩ := bind_eq_ok hrun
      obtain ⟨rfl, -⟩ := EStateM.Result.ok.inj hrun
      exact id
    | function =>
      refine breaks_kind ?_
      rw [hstart]
      refine (breaks_function hform s).andThen (fun f t item u _ hrun hx => ?_)
        (fun _ => tidies_pure _) fun d ys f f' h => resumes_pure (.function h)
      obtain ⟨rfl, -⟩ := EStateM.Result.ok.inj hrun
      exact hx
    | struct =>
      refine breaks_kind ?_
      rw [hstart]
      refine (breaks_structDef hform s).andThen (fun struct t item u _ hrun hx => ?_)
        (fun _ => tidies_pure _) fun d ys struct struct' h => resumes_pure (.struct h)
      obtain ⟨rfl, -⟩ := EStateM.Result.ok.inj hrun
      exact hx

end

/-! ### Files -/

/-- An item of a file of which nothing was recorded is a definition with the comments behind it. -/
theorem fileItem_eq_ok {items : List Definition} (heof : s.current.kind ≠ .eof)
    (hrun : fileItem Grammar.standard s = .ok items t) (hclean : t.Clean) :
    ∃ item u, definition Grammar.standard { s with depth := 0 } = .ok item u ∧ u.Clean ∧
      items = item :: u.comments.map Definition.comment ∧ t = u.commented := by
  cases hdef : definition Grammar.standard { s with depth := 0 } with
  | ok item u =>
    rw [fileItem_of_ok hdef, withFileComments_run] at hrun
    obtain ⟨rfl, rfl⟩ := EStateM.Result.ok.inj hrun
    exact ⟨item, u, rfl, hclean, rfl, rfl⟩
  | error d u =>
    -- A failure is recorded.
    obtain ⟨ts, n, hcross, hd⟩ := works_definition.of_error hdef
    obtain ⟨v, us, hrecover, -, -, hdirty⟩ :=
      recoverDefinition_walks hcross.toWalks.of_depth hd heof
    rw [fileItem_of_error hdef, bind_of_ok hrecover, withFileComments_run] at hrun
    obtain ⟨-, rfl⟩ := EStateM.Result.ok.inj hrun
    exact absurd hclean hdirty

theorem fileItem_tidies {items : List Definition} (heof : s.current.kind ≠ .eof)
    (hrun : fileItem Grammar.standard s = .ok items t) :
    ∃ ts, Walks s ts t ∧ (t.Clean → Tidy ts) := by
  obtain ⟨items', t', ts, htotal, hwalk, -, hspelled⟩ := fileItem_total heof
  obtain ⟨rfl, rfl⟩ := EStateM.Result.ok.inj (htotal.symm.trans hrun)
  exact ⟨ts, hwalk, fun hclean => .each (hspelled hclean) fun _ _ _ h => h.tidy⟩

theorem Visits.of_depth {closed : Bool} {depth : Nat} (h : Visits x closed { s with depth } t) :
    Visits x closed s t := by
  obtain ⟨before, us, semi, after, hpass, h⟩ := h
  exact ⟨before, us, semi, after, hpass.of_aside, h⟩

theorem Facing.setDepth {g : Gap x} (h : Facing g s s') (depth : Nat) :
    Facing g { s with depth } { s' with depth } :=
  ⟨h.paired.setDepth depth, ⟨h.place.all, h.place.arranged⟩, h.trivia, h.comments, h.taken⟩

theorem Definition.exists_holds {comments : List Comment} {definitions : List Definition}
    (h : ∃ d ∈ comments.map Definition.comment ++ definitions, d.Holds x) :
    ∃ d ∈ definitions, d.Holds x := by
  obtain ⟨d, hmem, h⟩ := h
  rcases List.mem_append.mp hmem with hmem | hmem
  · obtain ⟨c, -, rfl⟩ := List.mem_map.mp hmem
    exact absurd h id
  · exact ⟨d, hmem, h⟩

section

variable (hform : x.endsWithSemicolon)

include hform

/-- The statement stands in the definition that is an item of the file. -/
theorem breaks_fileItem (heof : s.current.kind ≠ .eof) :
    Breaks x true s (fileItem Grammar.standard) (fun items => ∃ d ∈ items, d.Holds x)
      (fun ys => Altered (Definition.Swaps x ys)) := by
  have hbreaks := breaks_definition hform { s with depth := 0 }
  refine ⟨fun items t hrun => (fileItem_tidies heof hrun).imp fun _ h => h.1,
    fun items t hrun hclean hx => ?_, fun g s' items t hfacing hrun hclean hx => ?_⟩
  all_goals
    obtain ⟨item, u, hdef, hcleanItem, rfl, rfl⟩ := fileItem_eq_ok heof hrun hclean
    have hx : item.Holds x := by
      obtain ⟨other, hmem, hx⟩ := hx
      rcases List.mem_cons.mp hmem with rfl | hmem
      · exact hx
      · obtain ⟨c, -, rfl⟩ := List.mem_map.mp hmem
        exact absurd hx id
  · exact (hbreaks.place item u hdef hcleanItem hx).commented.of_depth
  · obtain ⟨production, item', u', hdef', hswaps, hu⟩ :=
      hbreaks.run g _ item u (hfacing.setDepth 0) hdef hcleanItem hx
    obtain ⟨comments, t', hcomments, rfl, ht⟩ :=
      resumes_takeComments u u' _ _ hu (takeComments_run u)
    refine ⟨production, item' :: u.comments.map Definition.comment, t', ?_, .head hswaps _, ht⟩
    rw [fileItem_of_ok hdef']
    exact bind_of_ok hcomments

omit hform in
/-- Behind the statement the items of the file are the same. -/
theorem resumed_fileItems {items : List (List Definition)} (h : Resumed d true s s')
    (hrun : manyWhile (· ≠ .eof) (fileItem Grammar.standard) s = .ok items t) :
    ∃ t', manyWhile (· ≠ .eof) (fileItem Grammar.standard) s' = .ok items t' ∧
      Resumed d true t t' := by
  obtain ⟨before, before', s₀, hs, hs', hne⟩ := h
  obtain ⟨items₀, t₀, t₁, hrun₀, hrun₁, ht⟩ := shifted_fileItems hs
  obtain ⟨items₀', t₀', t₁', hrun₀', hrun₁', ht'⟩ := shifted_fileItems hs'
  obtain ⟨rfl, rfl⟩ := EStateM.Result.ok.inj (hrun₀.symm.trans hrun₀')
  obtain ⟨rfl, rfl⟩ := EStateM.Result.ok.inj (hrun.symm.trans hrun₁)
  refine ⟨t₁', hrun₁', before, before', t₀, ht, ht', fun _ => ?_⟩
  obtain ⟨_, _, ts, htotal, hwalk, -⟩ := fileItems_total s₀
  obtain ⟨-, rfl⟩ := EStateM.Result.ok.inj (htotal.symm.trans hrun₀)
  rw [hwalk.consumed]
  simp [hne rfl]

theorem breaks_fileItems (s : State) :
    Breaks x true s (manyWhile (· ≠ .eof) (fileItem Grammar.standard))
      (fun items => ∃ item ∈ items, ∃ d ∈ item, d.Holds x)
      (fun ys => Altered (Altered (Definition.Swaps x ys))) := by
  refine breaks_manyWhile (I := fun _ => True) (m := Definition.bareAll) (fun _ _ _ _ _ => trivial)
    (fun s items t _ hwanted hrun => ?_) (fun _ hsure => mirrors_fileItem hsure) (by simp)
    (fun s _ hwanted => breaks_fileItem hform (of_decide_eq_true hwanted))
    (fun d s s' items t _ h hrun _ => resumed_fileItems h hrun) s fun _ => trivial
  obtain ⟨ts, hwalk, htidy⟩ := fileItem_tidies (of_decide_eq_true hwanted) hrun
  exact ⟨ts, hwalk, htidy, fun _ => trivial⟩

/-- A whole file. -/
theorem breaks_sourceFile (s : State) :
    Breaks x true s (sourceFile Grammar.standard) (SourceFile.Holds x) (SourceFile.Swaps x) := by
  refine .after (fun _ hsure => mirrors_takeComments hsure) tidies_takeComments
    fun leading s₁ _ _ _ => ?_
  refine (breaks_fileItems hform s₁).andThen (fun items t file u _ hrun hx => ?_) (fun items => ?_)
    fun d ys items items' h => ?_
  · obtain ⟨rfl, -⟩ := EStateM.Result.ok.inj hrun
    obtain ⟨d, hmem, hx⟩ := Definition.exists_holds hx
    obtain ⟨item, hitem, hmem⟩ := List.mem_flatten.mp hmem
    exact ⟨item, hitem, d, hmem, hx⟩
  · intro s file t hrun
    obtain ⟨-, rfl⟩ := EStateM.Result.ok.inj hrun
    exact ⟨[], .refl s, fun _ => tidy_nil⟩
  · intro s s' file t hs hrun
    obtain ⟨rfl, rfl⟩ := EStateM.Result.ok.inj hrun
    refine ⟨_, s', rfl, ?_, hs⟩
    rw [hs.current]
    exact .mk (h.flatten.append_left _)

end

end FrontEnd.Parser
