/-
What every tree is made of.

A text without diagnostics is a spelling of its tree.  The tree of any other text is made of
its tokens all the same, but for three things: a block or a file may hold skipped stretches,
which cover the tokens they skip, a block may lack its closing brace, and comments are handed
out between the tokens.

* `Stmt.MadeOf`, `Block.MadeOf`, `Definition.MadeOf` — the productions with these three added;
* `parseSource_made` — the tree of every text is made of all tokens of the text, and its
  comments are comments of the text.

What only reads has its spelling, so the productions of types, expressions and statements
without blocks are those of the grammar.  A fact about all trees follows from one lemma for
each production here, with no look at the parser.
-/
import FrontEnd.Proofs.Grammar.Spans

namespace FrontEnd

/-! ### The productions -/

section

variable (C : Comment → Prop)

mutual

/-- What a block is made of, item by item; `C` holds of the comments. -/
inductive Stmt.MadeOf : Stmt → List Token → Prop
  | flat {stmt : Stmt} {ts : List Token} (h : stmt.SpelledBy ts)
    (hflat : stmt.holdsBlock = false) : Stmt.MadeOf stmt ts
  | conditional {word : Token} {condition : Expr} {cs : List Token} {ifBlock : Block}
    {bs : List Token} {elseBlock : Option Block} {es : List Token}
    (hword : word.kind = .keyword .ifKw) (hcondition : condition.SpelledBy cs)
    (hif : ifBlock.MadeOf bs)
    (helse : Perhaps (Behind (.keyword .elseKw) Block.MadeOf) elseBlock es) :
    Stmt.MadeOf
      (.conditional condition ifBlock elseBlock (covering (word :: (cs ++ (bs ++ es)))))
      (word :: (cs ++ (bs ++ es)))
  | whileLoop {word : Token} {condition : Expr} {cs : List Token} {body : Block}
    {bs : List Token} (hword : word.kind = .keyword .whileKw)
    (hcondition : condition.SpelledBy cs) (hbody : body.MadeOf bs) :
    Stmt.MadeOf (.whileLoop condition body (covering (word :: (cs ++ bs)))) (word :: (cs ++ bs))
  | forLoop (binding : Identifier) {word inside : Token} {hasLet : Bool} {ls : List Token}
    {iterable : Expr} {is : List Token} {body : Block} {bs : List Token}
    (hword : word.kind = .keyword .forKw) (hlet : Optional (.keyword .letKw) hasLet ls)
    (hinside : inside.kind = .keyword .inKw) (hiterable : IterableBy iterable is)
    (hbody : body.MadeOf bs) :
    Stmt.MadeOf
      (.forLoop hasLet binding iterable body
        (covering (word :: (ls ++ binding.token :: inside :: (is ++ bs)))))
      (word :: (ls ++ binding.token :: inside :: (is ++ bs)))
  | skipped {ts : List Token} (hne : ts ≠ []) : Stmt.MadeOf (.error (covering ts)) ts
  | comment {c : Comment} (hc : C c) : Stmt.MadeOf (.comment c) []

/-- An opening brace, items, and a closing brace unless it is missing. -/
inductive Block.MadeOf : Block → List Token → Prop
  | mk {o : Token} {statements : List Stmt} {ts closing : List Token} {closed : Bool}
    (ho : o.kind = .symbol .openCurly) (hstatements : Each Stmt.MadeOf statements ts)
    (hclosing : Optional (.symbol .closeCurly) closed closing) :
    Block.MadeOf ⟨statements, covering (o :: (ts ++ closing))⟩ (o :: (ts ++ closing))

end

/-- A function whose body is made of tokens. -/
inductive FunctionDef.MadeOf : FunctionDef → List Token → Prop
  | mk (name : Identifier) {word : Token} {generic : Option TypeExpr} {gs : List Token}
    {parameters : List Parameter} {ps : List Token} {returnType : Option TypeExpr}
    {rs : List Token} {body : Block} {bs : List Token} (hword : word.kind = .keyword .fnKw)
    (hgeneric : Perhaps GenericClause generic gs) (hparameters : ParameterList parameters ps)
    (hreturn : ReturnTypeBy returnType rs) (hbody : body.MadeOf C bs) :
    FunctionDef.MadeOf
      ⟨name, generic, parameters, returnType, body,
        covering (word :: name.token :: (gs ++ (ps ++ (rs ++ bs))))⟩
      (word :: name.token :: (gs ++ (ps ++ (rs ++ bs))))

/-- A struct whose methods are made of tokens. -/
inductive StructDef.MadeOf : StructDef → List Token → Prop
  | mk (name : Identifier) {comments : List Comment} {word o c : Token}
    {generic : Option TypeExpr} {gs : List Token} {fields : List Parameter} {fs : List Token}
    {methods : List FunctionDef} {ms : List Token} (hword : word.kind = .keyword .structKw)
    (hgeneric : Perhaps GenericClause generic gs) (ho : o.kind = .symbol .openCurly)
    (hfields : Each Parameter.SpelledBy fields fs)
    (hmethods : Each (FunctionDef.MadeOf C) methods ms) (hc : c.kind = .symbol .closeCurly)
    (hcomments : ∀ comment ∈ comments, C comment) :
    StructDef.MadeOf
      ⟨name, generic, fields, methods, comments,
        covering (word :: name.token :: (gs ++ o :: (fs ++ (ms ++ [c]))))⟩
      (word :: name.token :: (gs ++ o :: (fs ++ (ms ++ [c]))))

/-- What a file is made of, item by item. -/
inductive Definition.MadeOf : Definition → List Token → Prop
  | function {f : FunctionDef} {ts : List Token} (h : f.MadeOf C ts) :
    Definition.MadeOf (.function f) ts
  | external {f : ExternalFunction} {ts : List Token} (h : f.SpelledBy ts) :
    Definition.MadeOf (.external f) ts
  | struct {d : StructDef} {ts : List Token} (h : d.MadeOf C ts) : Definition.MadeOf (.struct d) ts
  | use {u : UseStatement} {ts : List Token} (h : u.SpelledBy ts) : Definition.MadeOf (.use u) ts
  | skipped {ts : List Token} (hne : ts ≠ []) : Definition.MadeOf (.error (covering ts)) ts
  | comment {c : Comment} (hc : C c) : Definition.MadeOf (.comment c) []

end

namespace Parser

variable {α β : Type} {T : List Token} {s s' : State} {ts : List Token}

/-! ### Comments of a text -/

/-- The comment is one of the trivia. -/
def State.Holds (s : State) (c : Comment) : Prop := ∃ x ∈ s.trivia, Comment.ofTrivia? x = some c

theorem Passes.holds (h : Passes s ts s') : s'.Holds = s.Holds := by
  unfold State.Holds
  rw [h.trivia]

/-- Comments that are handed out are comments of the text. -/
theorem holds_of_mem_comments {c : Comment} (h : c ∈ s.comments) : s.Holds c := by
  obtain ⟨x, hx, hc⟩ := List.mem_filterMap.mp h
  unfold Trivia.between at hx
  exact ⟨x, (List.dropWhile_sublist _).mem ((List.takeWhile_prefix _).mem hx), hc⟩

/-- What is made further on is made of the same text. -/
theorem Lays.made {p : Parser α} {V : (Comment → Prop) → α → List Token → Prop}
    (hpass : Passes s ts s') (h : Lays T s' p fun a us _ => V s'.Holds a us) :
    Lays T s' p fun a us _ => V s.Holds a us := by
  rwa [hpass.holds] at h

/-- Repetition: each item is a list of values, and all of them are made of the tokens passed. -/
theorem lays_each {V : α → List Token → Prop} {wanted : Kind → Bool} {item : Parser β}
    {view : β → List α} (hpass : Passes s ts s')
    (hitem : ∀ us s₁, Passes s us s₁ → wanted s₁.current.kind →
      Lays T s₁ item fun b vs _ => Each V (view b) vs) :
    Lays T s' (manyWhile wanted item) fun bs us _ => Each V (bs.flatMap view) us := by
  induction hn : s'.rest.length using Nat.strong_induction_on generalizing s' ts with
  | _ n ih =>
    refine Lays.congr (manyWhile_run wanted item s') ?_
    split
    · next hw =>
      refine (hitem ts s' hpass hw).bind fun b us s₁ h₁ hb => ?_
      have hmore := lays_guarded fun hlt => ih _ (hn ▸ hlt) (hpass.append h₁) rfl
      refine hmore.bind fun bs vs s₂ _ hbs => lays_pure ?_
      simpa using hb.append hbs
    · exact lays_pure .nil

/-! ### Statements -/

/-- A statement that starts with another word than those with blocks. -/
theorem makes_flat {p : Parser Stmt} {form : StatementForm} (h : Meets [] s p Stmt.SpelledBy)
    (hform : Grammar.standard.statement? s.current.kind = some form)
    (hflat : form ≠ .conditional ∧ form ≠ .whileLoop ∧ form ≠ .forLoop) :
    Lays T s p fun stmt ts _ => stmt.MadeOf s.Holds ts := by
  intro _ stmt s' hrun
  obtain ⟨ts, hread, -, hspelled⟩ := h.of_ok hrun
  exact ⟨ts, hread.toPasses, .flat hspelled (holdsBlock_eq_false hread.toPasses hspelled hform hflat)⟩

section

-- The blocks inside a statement are made of their tokens.
variable {inner : Parser Block}
  (hmakes : ∀ s, Lays T s inner fun b ts _ => b.MadeOf s.Holds ts)

include hmakes

theorem makes_ifStmtOf (s : State) :
    Lays T s (ifStmtOf Grammar.standard inner) fun stmt ts _ => stmt.MadeOf s.Holds ts := by
  refine (lays_expect (by decide)).bind fun word _ s₁ h₁ hword => ?_
  obtain ⟨rfl, hword⟩ := hword
  refine meets_expression.lays.bind fun condition cs s₂ h₂ hcondition => ?_
  have hto := h₁.append h₂
  refine ((hmakes s₂).made hto).bind fun ifBlock bs s₃ h₃ hif => ?_
  have helses : ∀ us s', Passes s₃ us s' → Lays T s' inner fun b vs _ => b.MadeOf s.Holds vs :=
    fun us s' h => (hmakes s').made ((hto.append h₃).append h)
  refine lays_skipThen (by decide) helses fun elseBlock es s₄ h₄ helse => ?_
  refine lays_spanFrom (lays_pure ?_)
  have hall := h₁.append (h₂.append (h₃.append h₄))
  rw [hall.spanFrom (by simp)]
  simpa [covering_cons] using Stmt.MadeOf.conditional hword hcondition hif helse

theorem makes_whileStmtOf (s : State) :
    Lays T s (whileStmtOf Grammar.standard inner) fun stmt ts _ => stmt.MadeOf s.Holds ts := by
  refine (lays_expect (by decide)).bind fun word _ s₁ h₁ hword => ?_
  obtain ⟨rfl, hword⟩ := hword
  refine meets_expression.lays.bind fun condition cs s₂ h₂ hcondition => ?_
  refine ((hmakes s₂).made (h₁.append h₂)).bind fun body bs s₃ h₃ hbody => ?_
  refine lays_spanFrom (lays_pure ?_)
  have hall := h₁.append (h₂.append h₃)
  rw [hall.spanFrom (by simp)]
  simpa [covering_cons] using Stmt.MadeOf.whileLoop hword hcondition hbody

theorem makes_forStmtOf (s : State) :
    Lays T s (forStmtOf Grammar.standard inner) fun stmt ts _ => stmt.MadeOf s.Holds ts := by
  refine (lays_expect (by decide)).bind fun word _ s₁ h₁ hword => ?_
  obtain ⟨rfl, hword⟩ := hword
  refine (meets_skip? (by decide)).lays.bind fun hasLet ls s₂ h₂ hlet => ?_
  refine meets_identifier.lays.bind fun binding _ s₃ h₃ hbinding => ?_
  cases hbinding
  refine (lays_expect (by decide)).bind fun inside _ s₄ h₄ hinside => ?_
  obtain ⟨rfl, hinside⟩ := hinside
  refine meets_iterable.lays.bind fun values vs s₅ h₅ hiterable => ?_
  have hto := h₁.append (h₂.append (h₃.append (h₄.append h₅)))
  refine ((hmakes s₅).made hto).bind fun body bs s₆ h₆ hbody => ?_
  refine lays_spanFrom (lays_pure ?_)
  rw [(hto.append h₆).spanFrom (by simp)]
  simpa [covering_cons] using
    Stmt.MadeOf.forLoop binding hword hlet hinside hiterable hbody

theorem makes_statementOf (s : State) :
    Lays T s (statementOf Grammar.standard inner) fun stmt ts _ => stmt.MadeOf s.Holds ts := by
  refine lays_kind ?_
  split
  · exact lays_error rfl
  · next hform => exact makes_flat meets_returnStmt hform (by decide)
  · next hform => exact makes_flat meets_declarationStmt hform (by decide)
  · exact makes_ifStmtOf hmakes s
  · exact makes_whileStmtOf hmakes s
  · exact makes_forStmtOf hmakes s
  · next hform => exact makes_flat meets_breakStmt hform (by decide)
  · next hform => exact makes_flat meets_continueStmt hform (by decide)
  · next hform => exact makes_flat meets_matchStmt hform (by decide)
  · next hform => exact makes_flat meets_namedStmt hform (by decide)

/-! ### Blocks -/

omit hmakes in
/-- Comments that are handed out as items of a block. -/
theorem each_comments {C : Comment → Prop} {cs : List Comment} (h : ∀ c ∈ cs, C c) :
    Each (Stmt.MadeOf C) (cs.map Stmt.comment) [] := by
  induction cs with
  | nil => exact .nil
  | cons c cs ih =>
    exact .cons (.comment (h c (by simp))) (ih fun d hd => h d (by simp [hd]))

-- Besides, they balance their braces.
variable (hinner : ∀ s, Settles s inner)

include hinner

/-- An item of a block, read or skipped, and the comments behind it. -/
theorem makes_blockItemOf (depth : Nat) (hin : inBlock s.current.kind) :
    Lays T s (blockItemOf Grammar.standard inner depth) fun items ts _ =>
      Each (Stmt.MadeOf s.Holds) items ts := by
  intro hs items s' hrun
  obtain ⟨stmt, s₁, ts, hitem, hpass, hmade⟩ : ∃ stmt s₁ ts,
      blockItemOf Grammar.standard inner depth s = withComments stmt s₁ ∧
        Passes s ts s₁ ∧ stmt.MadeOf s.Holds ts := by
    cases hstmt : statementOf Grammar.standard inner s with
    | ok stmt s₁ =>
      obtain ⟨ts, hpass, hmade⟩ := makes_statementOf hmakes s hs stmt s₁ hstmt
      exact ⟨stmt, s₁, ts, blockItemOf_of_ok hstmt, hpass, hmade⟩
    | error d s₁ =>
      obtain ⟨hclose, heof⟩ := ne_of_inBlock hin
      obtain ⟨-, us, n, hcount⟩ := (settles_statementOf hinner s).of_error hstmt
      obtain ⟨ts, s₂, hrecover, hpass, hne⟩ :=
        recoverStatement_passes hcount.toPasses heof hclose d depth
      refine ⟨_, s₂, ts, (blockItemOf_of_error hstmt).trans (bind_of_ok hrecover), hpass, ?_⟩
      rw [hpass.covering hne]
      exact .skipped hne
  rw [hitem, withComments_run] at hrun
  obtain ⟨rfl, rfl⟩ := EStateM.Result.ok.inj hrun
  refine ⟨ts, hpass.commented, ?_⟩
  have hcomments : ∀ c ∈ s₁.comments, s.Holds c := fun c hc => by
    rw [← hpass.holds]
    exact holds_of_mem_comments hc
  simpa using Each.cons hmade (each_comments hcomments)

theorem makes_blockOf (s : State) :
    Lays T s (blockOf Grammar.standard inner) fun b ts _ => b.MadeOf s.Holds ts := by
  by_cases hopen : s.current.kind = .symbol .openCurly
  · intro hs b s' hrun
    rw [blockOf_run hopen] at hrun
    have hproper : s.current.kind ≠ .eof := by
      rw [hopen]
      simp
    have hfirst : Passes s [s.current] s.advance := passes_advance hproper
    have hleading : ∀ c ∈ s.advance.comments, s.Holds c := fun c hc => by
      rw [← hfirst.holds]
      exact holds_of_mem_comments hc
    have hitems : Lays T s.advance.commented
        (manyWhile inBlock (blockItemOf Grammar.standard inner (s.depth + 1))) fun items us _ =>
          Each (Stmt.MadeOf s.Holds) (items.flatMap id) us := by
      refine lays_each hfirst.commented fun us s₁ h₁ hin => ?_
      have hitem := makes_blockItemOf (T := T) hmakes hinner (s.depth + 1) hin
      exact hitem.made (V := fun C items us => Each (Stmt.MadeOf C) items us) h₁
    cases hmany : manyWhile inBlock (blockItemOf Grammar.standard inner (s.depth + 1))
        s.advance.commented with
    | error d s₁ => simp [hmany, Outcome.andThen] at hrun
    | ok items s₁ =>
      rw [hmany] at hrun
      simp only [Outcome.andThen, closeBlock_run] at hrun
      obtain ⟨ts, hpass, heach⟩ := hitems (hs.passes hfirst.commented) items s₁ hmany
      have hstatements := (each_comments hleading).append heach
      rw [List.nil_append, List.flatMap_id] at hstatements
      have hbefore := hfirst.commented.append hpass
      split at hrun
      · next hclose =>
        obtain ⟨rfl, rfl⟩ := EStateM.Result.ok.inj hrun
        have hall := hbefore.append (passes_advance (by rw [hclose]; simp))
        have hspan : s₁.advance.spanFrom s.current.span.start = _ := hall.covering (by simp)
        refine ⟨_, hall, ?_⟩
        rw [hspan]
        exact .mk hopen hstatements (.present hclose)
      · obtain ⟨rfl, rfl⟩ := EStateM.Result.ok.inj hrun
        have hall : Passes s (s.current :: (ts ++ [])) s₁ := by simpa using hbefore
        have hspan : s₁.spanFrom s.current.span.start = _ := hall.covering (by simp)
        refine ⟨_, hall.aside, ?_⟩
        rw [hspan]
        exact .mk hopen hstatements .absent
  · exact lays_error (bind_of_error (by rw [expect_run, if_neg hopen]))

end

/-- A block is made of its tokens. -/
theorem makes_block (s : State) :
    Lays T s (block Grammar.standard) fun b ts _ => b.MadeOf s.Holds ts := by
  induction hn : s.rest.length using Nat.strong_induction_on generalizing s with
  | _ n ih =>
    refine Lays.congr (nest_run _ s) (makes_blockOf (fun s' => ?_) (fun s' => ?_) s)
    · exact lays_guarded fun hlt => ih _ (hn ▸ hlt) s' rfl
    · exact settles_guarded fun _ => settles_block s'

/-! ### Definitions -/

theorem makes_function (s : State) :
    Lays T s (function Grammar.standard) fun f ts _ => f.MadeOf s.Holds ts := by
  refine (lays_expect (by decide)).bind fun word _ s₁ h₁ hword => ?_
  obtain ⟨rfl, hword⟩ := hword
  refine meets_identifier.lays.bind fun name _ s₂ h₂ hname => ?_
  cases hname
  refine meets_genericClause?.lays.bind fun generic gs s₃ h₃ hgeneric => ?_
  refine meets_parameterList.lays.bind fun parameters ps s₄ h₄ hparameters => ?_
  refine meets_returnType?.lays.bind fun returnType rs s₅ h₅ hreturn => ?_
  have hto := h₁.append (h₂.append (h₃.append (h₄.append h₅)))
  refine ((makes_block s₅).made hto).bind fun body bs s₆ h₆ hbody => ?_
  refine lays_spanFrom (lays_pure ?_)
  rw [(hto.append h₆).spanFrom (by simp)]
  simpa [covering_cons] using
    FunctionDef.MadeOf.mk name hword hgeneric hparameters hreturn hbody

/-- Members of a struct, and the comments before, between and behind them. -/
theorem makes_membersWhile {wanted : Kind → Bool} {member : Parser α}
    {V : (Comment → Prop) → α → List Token → Prop}
    (hmember : ∀ s, Lays T s member fun m ts _ => V s.Holds m ts) (s : State) :
    Lays T s (membersWhile wanted member) fun members ts _ =>
      Each (V s.Holds) members.1 ts ∧ ∀ c ∈ members.2, s.Holds c := by
  refine lays_takeComments.bind fun leading _ s₁ h₁ hleading => ?_
  obtain ⟨rfl, rfl, rfl⟩ := hleading
  have hitem : ∀ us s₂, Passes s us s₂ → wanted s₂.current.kind →
      Lays T s₂ (do let m ← member; return (m, ← takeComments)) fun m ts _ =>
        Each (fun (m : α × List Comment) ts => V s.Holds m.1 ts ∧ ∀ c ∈ m.2, s.Holds c) [m] ts := by
    intro us s₂ h₂ _
    refine ((hmember s₂).made h₂).bind fun m ts s₃ h₃ hm => ?_
    refine lays_takeComments.bind fun comments _ s₄ _ hcomments => lays_pure ?_
    obtain ⟨rfl, rfl, rfl⟩ := hcomments
    have hheld : ∀ c ∈ s₃.comments, s.Holds c := fun c hc => by
      rw [← (h₂.append h₃).holds]
      exact holds_of_mem_comments hc
    simpa using Each.cons (V := fun (m : α × List Comment) ts =>
      V s.Holds m.1 ts ∧ ∀ c ∈ m.2, s.Holds c) ⟨hm, hheld⟩ .nil
  refine (lays_each h₁ hitem).bind fun members ts s₂ _ hmembers => lays_pure ?_
  rw [List.flatMap_singleton'] at hmembers
  refine ⟨?_, fun c hc => ?_⟩
  · simpa using hmembers.map (g := Prod.fst) fun _ _ h => h.1
  · rcases List.mem_append.mp hc with hc | hc
    · exact holds_of_mem_comments hc
    · obtain ⟨m, hm, hcm⟩ := List.mem_flatMap.mp hc
      obtain ⟨us, -, -, hheld⟩ := hmembers.of_mem hm
      exact hheld c hcm

theorem makes_structDef (s : State) :
    Lays T s (structDef Grammar.standard) fun d ts _ => d.MadeOf s.Holds ts := by
  rw [structDef_eq]
  refine (lays_expect (by decide)).bind fun word _ s₁ h₁ hword => ?_
  obtain ⟨rfl, hword⟩ := hword
  refine meets_identifier.lays.bind fun name _ s₂ h₂ hname => ?_
  cases hname
  refine meets_genericClause?.lays.bind fun generic gs s₃ h₃ hgeneric => ?_
  refine (lays_expect (by decide)).bind fun o _ s₄ h₄ ho => ?_
  obtain ⟨rfl, ho⟩ := ho
  have hhead := h₁.append (h₂.append (h₃.append h₄))
  have hmembers : Lays T s₄ (structMembers Grammar.standard) fun members ts _ => ∃ fs ms,
      ts = fs ++ ms ∧ Each Parameter.SpelledBy members.1 fs ∧
        Each (FunctionDef.MadeOf s.Holds) members.2.1 ms ∧ ∀ c ∈ members.2.2, s.Holds c := by
    refine (makes_membersWhile (V := fun _ => Parameter.SpelledBy)
      (fun _ => meets_parameter.lays) s₄).bind fun fields fs s₅ h₅ hfields => ?_
    refine (makes_membersWhile (V := FunctionDef.MadeOf) makes_function s₅).bind
      fun methods ms s₆ _ hmethods => lays_pure ?_
    rw [(hhead.append h₅).holds] at hmethods
    rw [hhead.holds] at hfields
    refine ⟨fs, ms, by simp, hfields.1, hmethods.1, fun c hc => ?_⟩
    exact (List.mem_append.mp hc).elim (hfields.2 c) (hmethods.2 c)
  refine hmembers.bind fun members ts s₅ h₅ hmembers => ?_
  obtain ⟨fs, ms, rfl, hfields, hmethods, hcomments⟩ := hmembers
  by_cases hclose : s₅.current.kind = .symbol .closeCurly
  · have hlast := passes_advance (show s₅.current.kind ≠ .eof by rw [hclose]; simp)
    refine lays_ok (by rw [closeStruct_run, if_pos hclose]) hlast fun _ => ?_
    have hall := hhead.append (h₅.append hlast)
    rw [hall.spanFrom (by simp)]
    simpa [covering_cons] using
      StructDef.MadeOf.mk name hword hgeneric ho hfields hmethods hclose hcomments
  · exact lays_error (by rw [closeStruct_run, if_neg hclose])

theorem makes_definition (s : State) :
    Lays T s (definition Grammar.standard) fun d ts _ => d.MadeOf s.Holds ts := by
  refine lays_kind ?_
  split
  · exact lays_error rfl
  · refine meets_useStatement.lays.bind fun u ts s₁ _ hu => lays_pure ?_
    simpa using Definition.MadeOf.use hu
  · refine (makes_function s).bind fun f ts s₁ _ hf => lays_pure ?_
    simpa using Definition.MadeOf.function hf
  · refine meets_externalFunction.lays.bind fun f ts s₁ _ hf => lays_pure ?_
    simpa using Definition.MadeOf.external hf
  · refine (makes_structDef s).bind fun d ts s₁ _ hd => lays_pure ?_
    simpa using Definition.MadeOf.struct hd

/-! ### Files -/

theorem each_fileComments {C : Comment → Prop} {cs : List Comment} (h : ∀ c ∈ cs, C c) :
    Each (Definition.MadeOf C) (cs.map Definition.comment) [] := by
  induction cs with
  | nil => exact .nil
  | cons c cs ih =>
    exact .cons (.comment (h c (by simp))) (ih fun d hd => h d (by simp [hd]))

/-- An item of a file, read or skipped, and the comments behind it. -/
theorem makes_fileItem (heof : s.current.kind ≠ .eof) :
    Lays T s (fileItem Grammar.standard) fun items ts _ =>
      Each (Definition.MadeOf s.Holds) items ts := by
  intro hs items s' hrun
  obtain ⟨item, s₁, ts, hitem, hpass, hmade⟩ : ∃ item s₁ ts,
      fileItem Grammar.standard s = withFileComments item s₁ ∧ Passes s ts s₁ ∧
        item.MadeOf s.Holds ts := by
    have hzero : Passes s [] { s with depth := 0 } := (Passes.refl s).aside
    have hdef : Works true { s with depth := 0 } (definition Grammar.standard)
      Definition.SpelledBy := works_definition
    cases hdefinition : definition Grammar.standard { s with depth := 0 } with
    | ok item s₁ =>
      obtain ⟨ts, hpass, hmade⟩ := makes_definition _ (hs.passes hzero) item s₁ hdefinition
      exact ⟨item, s₁, ts, fileItem_of_ok hdefinition, hzero.append hpass, hmade⟩
    | error d s₁ =>
      obtain ⟨us, n, hcross, hd⟩ := hdef.of_error hdefinition
      obtain ⟨s₂, ts, hrecover, hwalk, hne, -⟩ :=
        recoverDefinition_walks hcross.toWalks.of_depth hd heof
      refine ⟨_, s₂, ts, (fileItem_of_error hdefinition).trans (bind_of_ok hrecover),
        hwalk.toPasses, ?_⟩
      rw [hwalk.toPasses.covering hne]
      exact .skipped hne
  rw [hitem, withFileComments_run] at hrun
  obtain ⟨rfl, rfl⟩ := EStateM.Result.ok.inj hrun
  refine ⟨ts, hpass.commented, ?_⟩
  have hcomments : ∀ c ∈ s₁.comments, s.Holds c := fun c hc => by
    rw [← hpass.holds]
    exact holds_of_mem_comments hc
  simpa using Each.cons hmade (each_fileComments hcomments)

end Parser

/-- The definitions of a file are made of all tokens of its text, and the comments among them
are comments of the text.  The file starts with the text and ends with it. -/
theorem parseSource_made (source : String) :
    Each (Definition.MadeOf (startOf source).Holds) (parseSource source).file.definitions
        (startOf source).rest ∧
      (parseSource source).file.span = ⟨Position.start, Position.start.after source.toList⟩ := by
  obtain ⟨items, s, hitems, hfill, hcurrent⟩ := fileItems_fill source
  have hplace := inPlace_startOf source
  have hstart : Parser.Passes (startOf source) [] (startOf source).commented :=
    (Parser.Passes.refl _).commented
  have hmade : Parser.Lays (startOf source).rest (startOf source).commented
      (Parser.manyWhile (· ≠ .eof) (Parser.fileItem Grammar.standard)) fun items us _ =>
        Each (Definition.MadeOf (startOf source).Holds) (items.flatMap id) us := by
    refine Parser.lays_each hstart fun us s₁ h₁ heof => ?_
    have hitem := Parser.makes_fileItem (T := (startOf source).rest) (of_decide_eq_true heof)
    exact hitem.made (V := fun C items us => Each (Definition.MadeOf C) items us) h₁
  obtain ⟨ts, hpass, heach⟩ := hmade (hplace.passes hstart) items s hitems
  obtain rfl : (startOf source).rest = ts := hfill.passes.unique hpass
  have hleading := Parser.each_fileComments fun c hc =>
    Parser.holds_of_mem_comments (s := startOf source) (c := c) hc
  rw [parseSource_eq (Parser.sourceFile_run hitems), hcurrent]
  refine ⟨?_, rfl⟩
  have hall := hleading.append heach
  rwa [List.nil_append, List.flatMap_id] at hall

end FrontEnd
