/-
Definitions up to their last token.

A definition ends with a closing brace or with a semicolon, unless a block of it is left without
its closing brace.

* `closes_definition` — a definition is read in the same way up to its last token, whatever
  follows it;
* `definition_sealed` — what its last token is.
-/
import FrontEnd.Proofs.Grammar.MirroredFiles
import FrontEnd.Proofs.Grammar.Recursion
import FrontEnd.Proofs.Grammar.Tidiness
import FrontEnd.Proofs.Parser.Closing

namespace FrontEnd.Parser

variable {c : Comparison} {s t : State}

/-! ### Blocks and structs -/

/-- A block that is closed ends with its closing brace. -/
theorem closeBlock_eq_ok {start : Position} {depth : Nat} {statements : List Stmt} {b : Block}
    (hrun : closeBlock start depth statements s = .ok b t) (hwhole : t.Unbroken) :
    s.current.kind = .symbol .closeCurly ∧ b = ⟨statements, s.advance.spanFrom start⟩ ∧
      t = s.advance := by
  rw [closeBlock_run] at hrun
  split at hrun
  · next hclose =>
    obtain ⟨rfl, rfl⟩ := EStateM.Result.ok.inj hrun
    exact ⟨hclose, rfl, rfl⟩
  · obtain ⟨-, rfl⟩ := EStateM.Result.ok.inj hrun
    exact absurd rfl (hwhole (s.notFound "block" (.symbol .closeCurly))
      (by simp [Diagnostics.push]) s.current.display)

theorem closeStruct_eq_ok {start : Position} {name : Identifier} {generic : Option TypeExpr}
    {members : List Parameter × List FunctionDef × List Comment} {d : StructDef}
    (hrun : closeStruct start name generic members s = .ok d t) :
    s.current.kind = .symbol .closeCurly ∧
      d = ⟨name, generic, members.1, members.2.1, members.2.2, s.advance.spanFrom start⟩ ∧
      t = s.advance := by
  rw [closeStruct_run] at hrun
  split at hrun
  · next hclose =>
    obtain ⟨rfl, rfl⟩ := EStateM.Result.ok.inj hrun
    exact ⟨hclose, rfl, rfl⟩
  · exact nomatch hrun

theorem length_rest_advance_closeCurly (h : s.current.kind = .symbol .closeCurly) :
    s.advance.rest.length < s.rest.length := length_rest_advance (by simp [h])

section

variable (hexact : c.Exact)

include hexact

theorem closes_closeBlock {start start' : Position} (depth : Nat)
    {statements statements' : List Stmt}
    (hstart : Alike c.placed unplaced start start')
    (hstatements : Alike c.placed Stmt.bareAll statements statements') :
    Closes c (Completes c Block.bare) (closeBlock start depth statements)
      (closeBlock start' depth statements') := by
  refine ⟨fun s b t hrun hwhole => ?_, fun s s' b t hs hrun hwhole hend => ?_⟩
  · obtain ⟨hclose, -, rfl⟩ := closeBlock_eq_ok hrun hwhole
    exact length_rest_advance_closeCurly hclose
  · obtain ⟨hclose, rfl, rfl⟩ := closeBlock_eq_ok hrun hwhole
    have hpast : Past c s.advance s'.advance := ⟨s, s', hs, hs.rest_eq hend, rfl, rfl⟩
    have hspan := hpast.spanFrom hexact hend.ne_nil hstart
    rw [closeBlock_run, if_pos ((hs.current (.inr hexact)).kind_eq ▸ hclose)]
    refine hs.completes hend ⟨fun hp => by rw [hstatements.same hp, hspan.same hp], ?_⟩
    rw [Block.bare_mk, Block.bare_mk, hstatements.shown, hspan.shown]

theorem closes_blockBody {start start' : Position} (depth : Nat)
    (hstart : Alike c.placed unplaced start start') :
    Closes c (Completes c Block.bare)
      (blockBody Grammar.standard (block Grammar.standard) start depth)
      (blockBody Grammar.standard (block Grammar.standard) start' depth) := by
  refine (mirrors_takeComments (.inr hexact)).closes fun leading leading' hleading => ?_
  refine (mirrors_manyWhile (.inl (by decide))
    (mirrors_blockItemOf (.inr hexact) (mirrors_block (.inr hexact)) depth)).closes
    fun items items' hitems => closes_closeBlock hexact depth hstart ⟨fun hp => ?_, ?_⟩
  · rw [hleading.same hp, hitems.same hp]
  · rw [Stmt.bareAll_append, Stmt.bareAll_append, Stmt.bareAll_comments, Stmt.bareAll_comments,
      Stmt.bareAll_flatten, Stmt.bareAll_flatten, hitems.shown]

theorem closes_block :
    Closes c (Completes c Block.bare) (block Grammar.standard) (block Grammar.standard) := by
  rw [Recursion.block.eq_body ()]
  refine (mirrors_expect _ _).closes fun brace brace' hbrace => ?_
  refine closes_get hexact fun u u' hu => ?_
  rw [hu.depth]
  exact closes_blockBody hexact u.depth hbrace.start_eq

theorem closes_closeStruct {start start' : Position} {name name' : Identifier}
    {generic generic' : Option TypeExpr}
    {members members' : List Parameter × List FunctionDef × List Comment}
    (hstart : Alike c.placed unplaced start start')
    (hname : Alike c.placed (Identifier.relocate unplaced) name name')
    (hgeneric : Alike c.placed (Option.map (TypeExpr.relocate unplaced)) generic generic')
    (hmembers : Alike c.placed
      (fun members => (members.1.map (Parameter.relocate unplaced), members.2.1.map (·.bare)))
      members members') :
    Closes c (Completes c StructDef.bare) (closeStruct start name generic members)
      (closeStruct start' name' generic' members') := by
  refine ⟨fun s d t hrun _ => ?_, fun s s' d t hs hrun _ hend => ?_⟩
  · obtain ⟨hclose, -, rfl⟩ := closeStruct_eq_ok hrun
    exact length_rest_advance_closeCurly hclose
  · obtain ⟨hclose, rfl, rfl⟩ := closeStruct_eq_ok hrun
    have hpast : Past c s.advance s'.advance := ⟨s, s', hs, hs.rest_eq hend, rfl, rfl⟩
    have hspan := hpast.spanFrom hexact hend.ne_nil hstart
    rw [closeStruct_run, if_pos ((hs.current (.inr hexact)).kind_eq ▸ hclose)]
    refine hs.completes hend ⟨fun hp => ?_, ?_⟩
    · rw [hname.same hp, hgeneric.same hp, hmembers.same hp, hspan.same hp]
    · obtain ⟨hfields, hmethods⟩ := Prod.mk.inj hmembers.shown
      rw [StructDef.bare_mk, StructDef.bare_mk, hname.shown, hgeneric.shown, hfields, hmethods,
        hspan.shown]

/-! ### Definitions -/

theorem closes_useStatement :
    Closes c (Completes c (UseStatement.relocate unplaced)) useStatement useStatement := by
  refine (mirrors_expect _ _).closes fun _ _ hword => ?_
  refine (mirrors_path (.inr hexact)).closes fun _ _ hpath => ?_
  refine (closes_expect hexact (by simp) _).spanned hexact hword.start_eq fun _ _ _ _ _ hspan => ?_
  refine ⟨fun hp => by rw [hpath.same hp, hspan.same hp], ?_⟩
  simp only [UseStatement.relocate, hpath.shown, hspan.shown]

theorem closes_externalFunction :
    Closes c (Completes c (ExternalFunction.relocate unplaced)) (externalFunction Grammar.standard)
      (externalFunction Grammar.standard) := by
  refine (mirrors_expect _ _).closes fun _ _ hword => (mirrors_expect _ _).closes fun _ _ _ => ?_
  refine (mirrors_identifier _).closes fun _ _ hname => ?_
  refine mirrors_parameterList.closes fun _ _ hparameters => ?_
  refine mirrors_returnType?.closes fun _ _ hreturn => ?_
  refine (closes_expect hexact (by simp) _).spanned hexact hword.start_eq fun _ _ _ _ _ hspan => ?_
  refine ⟨fun hp => ?_, ?_⟩
  · rw [hname.same hp, hparameters.same hp, hreturn.same hp, hspan.same hp]
  · simp only [ExternalFunction.relocate, hname.shown, hparameters.shown, hreturn.shown,
      hspan.shown]

theorem closes_function :
    Closes c (Completes c FunctionDef.bare) (function Grammar.standard)
      (function Grammar.standard) := by
  refine (mirrors_expect _ _).closes fun _ _ hword => ?_
  refine (mirrors_identifier _).closes fun _ _ hname => ?_
  refine mirrors_genericClause?.closes fun _ _ hgeneric => ?_
  refine mirrors_parameterList.closes fun _ _ hparameters => ?_
  refine mirrors_returnType?.closes fun _ _ hreturn => ?_
  refine (closes_block hexact).spanned hexact hword.start_eq fun _ _ hbody _ _ hspan => ?_
  refine ⟨fun hp => ?_, ?_⟩
  · rw [hname.same hp, hgeneric.same hp, hparameters.same hp, hreturn.same hp, hbody.same hp,
      hspan.same hp]
  · rw [FunctionDef.bare_mk, FunctionDef.bare_mk, hname.shown, hgeneric.shown, hparameters.shown,
      hreturn.shown, hbody.shown, hspan.shown]

theorem closes_structDef :
    Closes c (Completes c StructDef.bare) (structDef Grammar.standard)
      (structDef Grammar.standard) := by
  rw [structDef_eq]
  refine (mirrors_expect _ _).closes fun _ _ hword => ?_
  refine (mirrors_identifier _).closes fun _ _ hname => ?_
  refine mirrors_genericClause?.closes fun _ _ hgeneric => ?_
  refine (mirrors_expect _ _).closes fun _ _ _ => ?_
  refine (mirrors_structMembers (.inr hexact)).closes fun _ _ hmembers => ?_
  exact closes_closeStruct hexact hword.start_eq hname hgeneric hmembers

/-- A definition is read in the same way up to its last token, whatever follows. -/
theorem closes_definition :
    Closes c (Completes c Definition.bare) (definition Grammar.standard)
      (definition Grammar.standard) := by
  refine closes_get hexact fun u u' hu => ?_
  rw [hu.kind]
  cases Grammar.standard.definition? u.current.kind with
  | none => exact ⟨fun _ _ _ hrun => (nomatch hrun), fun _ _ _ _ _ hrun => (nomatch hrun)⟩
  | some form =>
    cases form with
    | use =>
      exact (closes_useStatement hexact).map fun _ _ h =>
        h.map Definition.use (congrArg Definition.use)
    | function =>
      exact (closes_function hexact).map fun _ _ h =>
        h.map Definition.function (congrArg Definition.function)
    | external =>
      exact (closes_externalFunction hexact).map fun _ _ h =>
        h.map Definition.external (congrArg Definition.external)
    | struct =>
      exact (closes_structDef hexact).map fun _ _ h =>
        h.map Definition.struct (congrArg Definition.struct)

end

/-! ### The last token -/

/-- The last token that was consumed is a closing brace. -/
def State.Closed (t : State) : Prop :=
  ∃ u : State, u.current.kind = .symbol .closeCurly ∧ t = u.advance

theorem block_closed {b : Block} (hrun : block Grammar.standard s = .ok b t)
    (hwhole : t.Unbroken) : t.Closed := by
  rw [Recursion.block.eq_body ()] at hrun
  obtain ⟨brace, s₁, -, hrun⟩ := bind_eq_ok hrun
  have hbody : blockBody Grammar.standard (block Grammar.standard) brace.span.start s₁.depth s₁ =
      .ok b t := hrun
  obtain ⟨leading, s₂, -, hrun⟩ := bind_eq_ok hbody
  obtain ⟨items, s₃, -, hrun⟩ := bind_eq_ok hrun
  obtain ⟨hclose, -, rfl⟩ := closeBlock_eq_ok hrun hwhole
  exact ⟨s₃, hclose, rfl⟩

theorem function_closed {f : FunctionDef} (hrun : function Grammar.standard s = .ok f t)
    (hwhole : t.Unbroken) : t.Closed := by
  obtain ⟨word, s₁, -, hrun⟩ := bind_eq_ok hrun
  obtain ⟨name, s₂, -, hrun⟩ := bind_eq_ok hrun
  obtain ⟨generic, s₃, -, hrun⟩ := bind_eq_ok hrun
  obtain ⟨parameters, s₄, -, hrun⟩ := bind_eq_ok hrun
  obtain ⟨returnType, s₅, -, hrun⟩ := bind_eq_ok hrun
  obtain ⟨body, s₆, hbody, hrun⟩ := bind_eq_ok hrun
  obtain ⟨-, rfl⟩ := EStateM.Result.ok.inj hrun
  exact block_closed hbody hwhole

theorem structDef_closed {d : StructDef} (hrun : structDef Grammar.standard s = .ok d t) :
    t.Closed := by
  rw [structDef_eq] at hrun
  obtain ⟨word, s₁, -, hrun⟩ := bind_eq_ok hrun
  obtain ⟨name, s₂, -, hrun⟩ := bind_eq_ok hrun
  obtain ⟨generic, s₃, -, hrun⟩ := bind_eq_ok hrun
  obtain ⟨brace, s₄, -, hrun⟩ := bind_eq_ok hrun
  obtain ⟨members, s₅, -, hrun⟩ := bind_eq_ok hrun
  obtain ⟨hclose, -, rfl⟩ := closeStruct_eq_ok hrun
  exact ⟨s₅, hclose, rfl⟩

/-- The tokens end with a closing brace, or with a semicolon outside of brackets. -/
def Sealed (ts : List Token) : Prop :=
  ∃ us last, ts = us ++ [last] ∧
    (last.kind = .symbol .closeCurly ∨ last.kind = .symbol .semicolon ∧ Shut us)

theorem Passes.sealed {ts : List Token} (h : Passes s ts t) (hne : ts ≠ []) (hclosed : t.Closed) :
    Sealed ts := by
  obtain ⟨u, hclose, rfl⟩ := hclosed
  obtain ⟨us, last, rfl⟩ := List.eq_nil_or_concat ts |>.resolve_left hne
  rw [List.concat_eq_append] at h ⊢
  have hconsumed := h.consumed
  rw [(passes_advance (by simp [hclose])).consumed] at hconsumed
  simp only [List.reverse_append, List.reverse_cons, List.reverse_nil, List.nil_append,
    List.cons_append, List.cons.injEq] at hconsumed
  exact ⟨us, last, rfl, .inl (hconsumed.1 ▸ hclose)⟩

theorem sealed_useStatement {u : UseStatement} {ts : List Token} (h : u.SpelledBy ts) :
    Sealed ts := by
  obtain ⟨hword, hpath, hsemi⟩ := h
  refine ⟨_ :: _, _, rfl, .inr ⟨hsemi, Tidy.shut ?_⟩⟩
  exact .cons hword (by decide) (.each hpath fun _ _ _ hname => hname.tidy)

theorem sealed_externalFunction {f : ExternalFunction} {ts : List Token}
    (h : f.SpelledBy ts) : Sealed ts := by
  obtain ⟨name, hword, hfn, hparameters, hreturn, hsemi⟩ := h
  rename_i word fn semi parameters ps returnType rs
  refine ⟨word :: fn :: name.token :: (ps ++ rs), semi, by simp, .inr ⟨hsemi, Tidy.shut ?_⟩⟩
  refine .cons hword (by decide) (.cons hfn (by decide) (name.tidy ?_))
  exact hparameters.tidy.append hreturn.tidy

/-- A definition ends with a closing brace, or with a semicolon outside of brackets. -/
theorem definition_sealed {item : Definition} (hrun : definition Grammar.standard s = .ok item t)
    (hwhole : t.Unbroken) : ∃ ts, Passes s ts t ∧ Sealed ts := by
  obtain ⟨ts, hcross, hne, -⟩ := works_definition.of_ok hrun
  have hpass := hcross.toPasses
  have hclosed : t.Closed → ∃ ts, Passes s ts t ∧ Sealed ts := fun h =>
    ⟨ts, hpass, hpass.sealed (hne rfl) h⟩
  have hgo : ∀ f : Kind → Parser Definition, (kind >>= f) s = f s.current.kind s := fun _ => rfl
  rw [definition, hgo] at hrun
  cases hform : Grammar.standard.definition? s.current.kind with
  | none =>
    rw [hform] at hrun
    exact nomatch hrun
  | some form =>
    rw [hform] at hrun
    cases form with
    | use =>
      obtain ⟨u, s₁, hu, hrun⟩ := bind_eq_ok hrun
      obtain ⟨-, rfl⟩ := EStateM.Result.ok.inj hrun
      have hmeets : Meets [] s useStatement UseStatement.SpelledBy := meets_useStatement
      obtain ⟨us, hread, -, hspelled⟩ := hmeets.of_ok hu
      exact ⟨us, hread.toPasses, sealed_useStatement hspelled⟩
    | function =>
      obtain ⟨f, s₁, hf, hrun⟩ := bind_eq_ok hrun
      obtain ⟨-, rfl⟩ := EStateM.Result.ok.inj hrun
      exact hclosed (function_closed hf hwhole)
    | external =>
      obtain ⟨f, s₁, hf, hrun⟩ := bind_eq_ok hrun
      obtain ⟨-, rfl⟩ := EStateM.Result.ok.inj hrun
      have hmeets : Meets [] s (externalFunction Grammar.standard) ExternalFunction.SpelledBy :=
        meets_externalFunction
      obtain ⟨us, hread, -, hspelled⟩ := hmeets.of_ok hf
      exact ⟨us, hread.toPasses, sealed_externalFunction hspelled⟩
    | struct =>
      obtain ⟨d, s₁, hd, hrun⟩ := bind_eq_ok hrun
      obtain ⟨-, rfl⟩ := EStateM.Result.ok.inj hrun
      exact hclosed (structDef_closed hd)

end FrontEnd.Parser
