/-
Definitions and files, read from a template.

* `echoes_pathItem`, `echoes_parameter` — behind a name of a path, a parameter and a field there
  may be a mark;
* `echoes_definition` — every definition is repeated, and behind all but the use of a module
  anything may stand;
* `echoes_sourceFile` — a file of which nothing is recorded is repeated, up to its end.
-/
import FrontEnd.Proofs.Grammar.EchoedBlocks

namespace FrontEnd.Parser

variable {α β γ : Type} {next shape : List Cell → Prop} {s : State}

/-! ### Paths -/

/-- A name of a path, and the mark behind it. -/
def pathItem : Parser Identifier := do
  let name ← identifier "use_statement"
  match ← kind with
  | .symbol .colonColon | .symbol .dot =>
    let _ ← advance
    return name
  | _ => return name

theorem pathItem_eq : pathItem = ended .path (identifier "use_statement") := by
  have hmark : ∀ (name : Identifier) (u : State), (do
      match ← kind with
      | .symbol .colonColon | .symbol .dot =>
        let _ ← advance
        return name
      | _ => return name : Parser Identifier) u =
        (dropMark .path >>= fun _ => pure name) u := by
    intro name u
    rw [kind_bind_run, bind_run, dropMark]
    show _ = EStateM.Result.ok name (if _ then _ else _)
    have hkinds : ∀ k, k ∈ Separator.path.kinds ↔ k = .symbol .colonColon ∨ k = .symbol .dot := by
      simp [Separator.kinds, Separator.marks]
    simp only [hkinds]
    generalize hk : u.current.kind = k
    cases k with
    | symbol mark =>
      cases mark <;> rfl
    | _ => rfl
  exact bind_congr fun name => funext (hmark name)

theorem echoes_pathItem :
    Echoes (Begins (· ∈ Separator.path.followers)) (Begins (· = .identifier))
      ((View.same Identifier).ended .path (·.span.stop.offset)) [] s pathItem pathItem := by
  have hname : Echoes Anywhere (Begins (· = .identifier)) (.same Identifier) [] s
      (identifier "use_statement") (identifier "use_statement") :=
    (echoes_identifier _).mono (fun _ h => h) fun _ h => h.begins
  rw [pathItem_eq]
  refine hname.ended (fun _ _ _ => trivial) fun name s₁ t _ hrun ht => ?_
  have hmeets : Meets [] s (identifier "use_statement") Identifier.SpelledBy := meets_identifier
  obtain ⟨ts, hread, -, hname⟩ := hmeets.of_ok hrun
  cases hname
  rw [hread.consumed] at ht
  obtain rfl := Option.some.inj ht
  exact ⟨rfl, rfl⟩

theorem echoes_useStatement :
    Echoes next (Begins (· = .keyword .useKw))
      ⟨UseStatement.relocate unplaced, fun u => u.toNode.slots⟩ [] s useStatement useStatement := by
  have hpath : ∀ s : State, Echoes (Begins (· = .symbol .semicolon)) _ _ [] s
      (manyWhile (· = .identifier) pathItem) (manyWhile (· = .identifier) pathItem) :=
    echoes_manyWhile (fun s _ => echoes_pathItem)
      (fun fs h => ⟨h.firm, h.mono fun k hk => by simp [hk, Separator.followers]⟩)
      fun fs h => h.mono fun k hk => by simp [hk, Separator.followers]
  refine (echoes_expect (by simp) _).then fun word s₁ _ => (hpath s₁).go
    (fun path path' _ _ hpath => (echoes_expect (by simp) _).then fun _ _ _ =>
      echoes_spanFrom _ _ fun span span' => echoes_return ?_ fun x => ?_) begins_of_begins
  · obtain rfl : path = path' := by simpa [View.list, View.ended, View.same] using hpath
    rfl
  · simp [UseStatement.slots_toNode, View.list, View.ended, View.same, eq_comm]

/-! ### Parameters -/

/-- A parameter without the comma behind it. -/
def plainParameter (g : Grammar) : Parser Parameter := do
  let name ← identifier "parameter"
  let _ ← expect Symbol.colon "parameter"
  let mutability ← mutMarker?
  let type ← typeExpr g
  return ⟨name, mutability, type, ← spanFrom name.span.start⟩

theorem parameter_eq (g : Grammar) : parameter g = ended .comma (plainParameter g) := by
  have hskip := skip?_ended .comma rfl (plainParameter g) pure
  rw [bind_pure] at hskip
  rw [← hskip]
  simp only [parameter, plainParameter, bind_assoc, pure_bind]

theorem meets_plainParameter :
    Meets [] s (plainParameter Grammar.standard) fun p ts => ts ≠ [] ∧ p.span = covering ts := by
  refine meets_identifier.bind ?_
  rintro name _ s₁ h₁ ⟨⟩
  refine (meets_expect (by decide)).bind ?_
  rintro colon _ s₂ h₂ ⟨rfl, -⟩
  refine meets_mutMarker?.bind fun mutability ms s₃ h₃ _ => ?_
  refine meets_typeExpr.bind fun type ts s₄ h₄ _ => ?_
  refine meets_spanFrom ?_
  rw [(h₁.append (h₂.append (h₃.append h₄))).spanFrom (by simp)]
  exact meets_pure ⟨by simp, by simp [covering_cons]⟩

theorem echoes_plainParameter :
    Echoes next (Begins (· = .identifier)) ⟨Parameter.relocate unplaced, fun _ => []⟩ [] s
      (plainParameter Grammar.standard) (plainParameter Grammar.standard) :=
  (echoes_identifier _).then fun name _ _ => (echoes_expect (by simp) _).then fun _ _ _ =>
    echoes_mutMarker?.and fun mutability _ _ => echoes_typeExpr.and fun type _ _ =>
      echoes_spanFrom _ _ fun span span' => echoes_return rfl fun _ => Iff.rfl

/-- What is compared of a parameter, and the place in it. -/
def parameterView : View Parameter Parameter :=
  ⟨Parameter.relocate unplaced, fun p => p.toNode.slots⟩

theorem echoes_parameter :
    Echoes (Begins (· ∈ Separator.comma.followers)) (Begins (· = .identifier)) parameterView [] s
      (parameter Grammar.standard) (parameter Grammar.standard) := by
  have hplain : Echoes Anywhere (Begins (· = .identifier))
      ⟨Parameter.relocate unplaced, fun _ => []⟩ [] s (plainParameter Grammar.standard)
      (plainParameter Grammar.standard) := echoes_plainParameter
  have hview : parameterView = View.ended ⟨Parameter.relocate unplaced, fun _ => []⟩ .comma
      fun p => p.span.stop.offset := by
    unfold parameterView View.ended
    congr
    funext p
    exact p.slots_toNode
  rw [parameter_eq, hview]
  refine hplain.ended (fun _ _ _ => trivial) fun p s₁ t hT hrun ht => ?_
  have hmeets : Meets [] s (plainParameter Grammar.standard) fun p ts =>
      ts ≠ [] ∧ p.span = covering ts := meets_plainParameter
  obtain ⟨ts, hread, -, hne, hspan⟩ := hmeets.of_ok hrun
  obtain ⟨T, hT⟩ := hT
  have hlast := (hread.toPasses.getLast?_eq hne).trans ht
  rw [hspan, (hT.tokensAt hread.toPasses).covering_stop hlast]
  exact ⟨rfl, trivial⟩

theorem echoes_parameterList :
    Echoes Anywhere (Begins (· = .symbol .openParen)) parameterView.list [] s
      (parameterList Grammar.standard) (parameterList Grammar.standard) := by
  have hparameters : ∀ s : State, Echoes (Begins (· = .symbol .closeParen)) _ _ [] s
      (manyWhile (fun k => k ≠ Symbol.closeParen && k ≠ .eof) (parameter Grammar.standard))
      (manyWhile (fun k => k ≠ Symbol.closeParen && k ≠ .eof) (parameter Grammar.standard)) :=
    echoes_manyWhile (fun s _ => echoes_parameter)
      (fun fs h => ⟨h.firm, h.mono fun k hk => by simp [hk, Separator.followers]⟩)
      fun fs h => h.mono fun k hk => by simp [hk, Separator.followers]
  exact (echoes_expect (by simp) _).then fun _ s₁ _ => (hparameters s₁).go
    (fun parameters parameters' _ _ h => (echoes_expect (by simp) _).then fun _ _ _ =>
      echoes_return h fun x => by simp) begins_of_begins

theorem echoes_returnType? :
    Echoes next Anywhere (.same (Option TypeExpr)) [] s (returnType? Grammar.standard)
      (returnType? Grammar.standard) := by
  refine (echoes_skip? (by decide) (by decide)).and fun found _ _ =>
    (?_ : Echoes _ Anywhere _ _ _ _ _)
  cases found with
  | true =>
    exact (echoes_typeExpr.map (v := .same (Option TypeExpr)) (fun _ _ h => congrArg some h)
      fun _ => rfl).mono (fun _ h => h) fun _ _ => trivial
  | false => exact echoes_return rfl fun _ => Iff.rfl

/-! ### Definitions -/

/-- What is compared of a function, and the places in it. -/
def functionView : View FunctionDef FunctionDef := ⟨FunctionDef.bare, fun f => f.toNode.slots⟩

theorem echoes_function :
    Echoes next (Begins (· = .keyword .fnKw)) functionView [] s (function Grammar.standard)
      (function Grammar.standard) := by
  have hblock : ∀ s : State, Echoes Anywhere (Begins (· = .symbol .openCurly)) blockView [] s
      (block Grammar.standard) (block Grammar.standard) := fun _ => echoes_block
  refine (echoes_expect (by simp) _).then fun word _ _ => (echoes_identifier _).then fun name _ _ =>
    echoes_genericClause?.and fun generic _ _ => echoes_parameterList.go
      (fun parameters parameters' _ _ hparameters => echoes_returnType?.and fun returnType _ _ =>
        (hblock _).go (fun body body' _ _ hbody => echoes_spanFrom _ _ fun span span' =>
          echoes_return ?_ fun x => ?_) fun _ _ _ _ _ => trivial) fun _ _ _ _ _ => trivial
  · have hparameters : parameters.map (Parameter.relocate unplaced) =
      parameters'.map (Parameter.relocate unplaced) := hparameters
    have hbody : body.bare = body'.bare := hbody
    show FunctionDef.bare _ = FunctionDef.bare _
    rw [FunctionDef.bare_mk, FunctionDef.bare_mk, hparameters, hbody]
    rfl
  · simp [functionView, FunctionDef.toNode, Node.ownSlots, View.list, parameterView, blockView,
      List.flatMap_map]

theorem echoes_externalFunction :
    Echoes next (Begins (· = .keyword .externKw))
      ⟨ExternalFunction.relocate unplaced, fun f => f.toNode.slots⟩ [] s
      (externalFunction Grammar.standard) (externalFunction Grammar.standard) := by
  refine (echoes_expect (by simp) _).then fun word _ _ => (echoes_expect (by simp) _).then
    fun _ _ _ => (echoes_identifier _).then fun name _ _ => echoes_parameterList.go
      (fun parameters parameters' _ _ hparameters => echoes_returnType?.and fun returnType _ _ =>
        (echoes_expect (by simp) _).then fun _ _ _ => echoes_spanFrom _ _ fun span span' =>
          echoes_return ?_ fun x => ?_) fun _ _ _ _ _ => trivial
  · have hparameters : parameters.map (Parameter.relocate unplaced) =
      parameters'.map (Parameter.relocate unplaced) := hparameters
    simp only [ExternalFunction.relocate, hparameters]
    rfl
  · simp [ExternalFunction.toNode, Node.ownSlots, View.list, parameterView, List.flatMap_map]

/-- What is compared of the members of a struct: all but the comments. -/
def View.members (w : View α γ) : View (List α × List Comment) (List γ) :=
  ⟨fun members => w.list.shown members.1, fun members => w.list.slots members.1⟩

theorem echoes_membersWhile {w : View α γ} {wanted : Kind → Bool} {member member' : Parser α}
    {nextItem : List Cell → Prop} {K : Kind → Prop}
    (hmember : ∀ s : State, wanted s.current.kind →
      Echoes nextItem (Begins K) w [] s member member')
    (hnext : ∀ fs, next fs → Firm fs ∧ nextItem fs) (hmore : ∀ fs, Begins K fs → nextItem fs) :
    Echoes next (fun es => es = [] ∨ Begins K es) w.members [] s (membersWhile wanted member)
      (membersWhile wanted member') := by
  have hitem : ∀ s : State, wanted s.current.kind →
      Echoes nextItem (Begins K) ⟨fun m => w.shown m.1, fun m => w.slots m.1⟩ [] s
        (do let m ← member; return (m, ← takeComments))
        (do let m ← member'; return (m, ← takeComments)) := fun s hs =>
    (hmember s hs).rest fun m m' s₁ _ hm => echoes_takeComments
      (echoes_pure rfl hm fun x => by simp)
  refine echoes_takeComments ((echoes_manyWhile hitem hnext hmore _).rest
    fun members members' s₁ _ hmembers => echoes_pure rfl ?_ fun x => ?_)
  · have hmembers : members.map (fun m => w.shown m.1) = members'.map fun m => w.shown m.1 :=
      hmembers
    simpa [View.members, View.list, Function.comp_def] using hmembers
  · simp [View.members, View.list, List.flatMap_map]

theorem echoes_structMembers :
    Echoes (Begins (· = .symbol .closeCurly)) Anywhere
      ⟨fun members => (members.1.map (Parameter.relocate unplaced), members.2.1.map (·.bare)),
        fun members => parameterView.list.slots members.1 ++ functionView.list.slots members.2.1⟩
      [] s (structMembers Grammar.standard) (structMembers Grammar.standard) := by
  have hfields : ∀ s : State, Echoes (Begins fun k => k = .keyword .fnKw ∨ k = .symbol .closeCurly)
      _ parameterView.members [] s (membersWhile (· = .identifier) (parameter Grammar.standard))
      (membersWhile (· = .identifier) (parameter Grammar.standard)) := fun s =>
    echoes_membersWhile (fun s _ => echoes_parameter)
      (fun fs h => ⟨h.firm, h.mono fun k hk => by rcases hk with rfl | rfl <;> decide⟩)
      fun fs h => h.mono fun k hk => by simp [hk, Separator.followers]
  have hmethod : ∀ s : State, decide (s.current.kind = .keyword .fnKw) →
      Echoes Anywhere (Begins (· = .keyword .fnKw)) functionView [] s (function Grammar.standard)
        (function Grammar.standard) := fun s _ => echoes_function
  have hmethods : ∀ s : State, Echoes (Begins (· = .symbol .closeCurly)) _ functionView.members []
      s (membersWhile (· = Keyword.fnKw) (function Grammar.standard))
      (membersWhile (· = Keyword.fnKw) (function Grammar.standard)) := fun s =>
    echoes_membersWhile hmethod (fun fs h => ⟨h.firm, trivial⟩) fun fs _ => trivial
  refine (hfields s).go (fun fields fields' s₁ _ hfields => (hmethods s₁).rest
    fun methods methods' s₂ _ hmethods => echoes_pure rfl ?_ fun x => ?_) ?_
  · exact Prod.ext hfields hmethods
  · rw [List.nil_append]
    exact Iff.rfl
  · rintro es fs - (rfl | hes) hfs
    · exact hfs.mono fun _ hk => .inr hk
    · exact (hes.append fs).mono fun _ hk => .inl hk

theorem echoes_closeStruct {start start' : Position} {name : Identifier} {generic : Option TypeExpr}
    {members members' : List Parameter × List FunctionDef × List Comment} {seen : List Slot}
    (hfields : members.1.map (Parameter.relocate unplaced) =
      members'.1.map (Parameter.relocate unplaced))
    (hmethods : members.2.1.map (·.bare) = members'.2.1.map (·.bare))
    (hseen : ∀ x, x ∈ seen ↔ x ∈ members.1.flatMap (·.toNode.slots) ∨
      x ∈ members.2.1.flatMap (·.toNode.slots)) :
    Echoes next (Begins (· = .symbol .closeCurly)) ⟨StructDef.bare, fun d => d.toNode.slots⟩ seen s
      (closeStruct start name generic members) (closeStruct start' name generic members') := by
  refine echoes_kind firm_of_begins ?_
  split
  · next hkind =>
    refine (echoes_advance (by simp) hkind).then fun _ _ _ => echoes_spanFrom _ _
      fun span span' => echoes_return ?_ fun x => (hseen x).trans ?_
    · show StructDef.bare _ = StructDef.bare _
      rw [StructDef.bare_mk, StructDef.bare_mk, hfields, hmethods]
      rfl
    · exact (StructDef.mem_slots_toNode
        ⟨name, generic, members.1, members.2.1, members.2.2, span⟩ x).symm
  · exact echoes_unexpected

theorem echoes_structDef :
    Echoes next (Begins (· = .keyword .structKw)) ⟨StructDef.bare, fun d => d.toNode.slots⟩ [] s
      (structDef Grammar.standard) (structDef Grammar.standard) := by
  rw [structDef_eq]
  refine (echoes_expect (by simp) _).then fun word _ _ => (echoes_identifier _).then fun name _ _ =>
    echoes_genericClause?.and fun generic _ _ => (echoes_expect (by simp) _).then fun _ _ _ =>
      echoes_structMembers.go (fun members members' _ _ hmembers => ?_) begins_of_begins
  obtain ⟨hfields, hmethods⟩ := Prod.mk.inj hmembers
  refine echoes_closeStruct hfields hmethods fun x => ?_
  rw [List.nil_append, List.mem_append]
  exact Iff.rfl

/-- What is compared of a definition, and the places in it. -/
def definitionView : View Definition Definition := ⟨Definition.bare, fun d => d.toNode.slots⟩

/-- What starts with its own word is a definition as it stands. -/
theorem Echoes.wrapped {w : View α γ} {K : Kind → Prop} {q : Parser α} {g : α → Definition}
    (hq : Echoes next (Begins K) w [] s q q)
    (hg : ∀ a b, w.shown a = w.shown b → (g a).bare = (g b).bare)
    (hslots : ∀ a, (g a).toNode.slots = w.slots a) :
    Echoes next Moves definitionView [] s (do return g (← q)) (do return g (← q)) := by
  refine (hq.rest fun a b _ _ hab => echoes_pure rfl (hg a b hab) fun x => ?_).mono
    (fun _ h => h) fun _ h => h.mono fun _ _ => trivial
  rw [List.nil_append, ← hslots a]
  exact Iff.rfl

theorem echoes_definition :
    Echoes next Moves definitionView [] s (definition Grammar.standard)
      (definition Grammar.standard) := by
  refine echoes_kind firm_of_begins ?_
  split
  · exact echoes_unexpected
  · exact echoes_useStatement.wrapped (fun _ _ h => congrArg Definition.use h) fun _ => rfl
  · exact echoes_function.wrapped (fun _ _ h => congrArg Definition.function h) fun _ => rfl
  · exact echoes_externalFunction.wrapped (fun _ _ h => congrArg Definition.external h) fun _ => rfl
  · exact echoes_structDef.wrapped (fun _ _ h => congrArg Definition.struct h) fun _ => rfl

/-! ### Files -/

/-- What is compared of definitions, and the places in them. -/
def definitionsView : View (List Definition) (List Definition) :=
  ⟨Definition.bareAll, fun ds => ds.flatMap (·.toNode.slots)⟩

/-- A definition that is skipped is recorded, so that none is. -/
theorem echoes_fileItem (hs : s.current.kind ≠ .eof) :
    Echoes next Moves definitionsView [] s (fileItem Grammar.standard)
      (fileItem Grammar.standard) := by
  have hitem : Echoes next Moves definitionsView [] s
      (setDepth 0 >>= fun _ => definition Grammar.standard >>= withFileComments)
      (setDepth 0 >>= fun _ => definition Grammar.standard >>= withFileComments) := by
    refine echoes_setDepth 0 (echoes_definition.rest fun item item' s₁ _ hitem =>
      echoes_takeComments (echoes_pure rfl ?_ fun x => ?_))
    · have hitem : item.bare = item'.bare := hitem
      show Definition.bareAll _ = Definition.bareAll _
      rw [Definition.bareAll_cons, Definition.bareAll_cons, Definition.bareAll_comments,
        Definition.bareAll_comments, hitem]
    · simp [definitionsView, definitionView, Definition.toNode, List.flatMap_map]
  refine hitem.of_ok (fun items s' hrun hclean => ?_) fun u items u' hrun => ?_
  · obtain ⟨item, s₁, rfl, rfl, -, -, hdef⟩ := part_fileItem hs hrun
    have hdef : definition Grammar.standard { s with depth := 0 } = .ok item s₁ := hdef hclean
    show (definition Grammar.standard >>= withFileComments) { s with depth := 0 } = _
    rw [bind_of_ok hdef, withFileComments_run]
  · have hrun : (definition Grammar.standard >>= withFileComments) { u with depth := 0 } =
      .ok items u' := hrun
    obtain ⟨item, u₁, hdef, hrest⟩ := bind_eq_ok hrun
    rw [fileItem_of_ok hdef, hrest]

/-- A file is read to its end. -/
theorem echoes_sourceFile :
    Echoes (· = []) Anywhere ⟨SourceFile.bare, fun f => f.toNode.slots⟩ [] s
      (sourceFile Grammar.standard) (sourceFile Grammar.standard) := by
  have hitem : ∀ s : State, decide (s.current.kind ≠ .eof) →
      Echoes Anywhere Moves definitionsView [] s (fileItem Grammar.standard)
        (fileItem Grammar.standard) := fun s hs => echoes_fileItem (of_decide_eq_true hs)
  have hitems : ∀ s : State, Echoes (· = []) (fun es => es = [] ∨ Moves es) definitionsView.list []
      s (manyWhile (· ≠ .eof) (fileItem Grammar.standard))
      (manyWhile (· ≠ .eof) (fileItem Grammar.standard)) := by
    refine echoes_manyWhile hitem ?_ fun _ _ => trivial
    rintro fs rfl
    exact ⟨firm_nil, trivial⟩
  refine echoes_takeComments ((hitems _).go (fun items items' s₁ _ hitems =>
    (?_ : Echoes _ (· = []) _ _ _ _ _)) ?_)
  · refine echoes_seen rfl (fun es fs u p _ hes hfs _ hs hu => ⟨_, rfl, ?_⟩)
      (echoes_pure rfl ?_ fun x => ?_)
    · subst hes hfs
      rw [hu.current_eq hs firm_nil]
    · have hitems : items.map Definition.bareAll = items'.map Definition.bareAll := hitems
      show SourceFile.bare _ = SourceFile.bare _
      simp only [SourceFile.bare, Definition.bareAll_append, Definition.bareAll_comments,
        Definition.bareAll_flatten, hitems]
    · have hflat : items.flatten.flatMap (·.toNode.slots) =
          items.flatMap fun item => item.flatMap (·.toNode.slots) := by
        rw [← List.flatMap_id, List.flatMap_assoc]
        rfl
      have hcomments : (s.comments.map Definition.comment).flatMap (·.toNode.slots) = [] := by
        simp [List.flatMap_map, Definition.toNode]
      show _ ↔ x ∈ (SourceFile.toNode _).slots
      rw [SourceFile.toNode, Node.slots_mk, List.flatMap_map, List.flatMap_append, hcomments, hflat]
      exact Iff.rfl
  · rintro es fs - rfl hfs
    exact hfs

end FrontEnd.Parser
