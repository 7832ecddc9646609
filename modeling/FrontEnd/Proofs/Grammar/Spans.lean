/-
Spans nest, and no token is left out.

Whatever a text is, the tree that is made of it covers it without gaps:

* `lays_block` — a block covers its tokens, and all tokens between its braces lie inside its
  statements;
* `lays_structDef` — the members of a struct, sorted by where they start, stand as in the text;
* `lays_fileItem` — so does what stands in a file, read or skipped;
* `spans_nest` — the nodes of every tree nest;
* `tokens_covered` — every token lies inside just one definition, and every token of a block
  inside just one of its statements.

What only reads lies where its tokens lie by its spelling.  A block may hold skipped stretches
and has no spelling then, so statements with blocks and all that holds them are followed here
once more, with the nodes in place of the spelling.  A skipped stretch covers all tokens from
where the failed construct started, those that it consumed before it failed included.
-/
import FrontEnd.Proofs.Grammar.Depth
import FrontEnd.Proofs.Grammar.Layout
import FrontEnd.Proofs.Parser.InPlace
import FrontEnd.Proofs.Tree.Remarks

namespace FrontEnd

theorem Stmt.toNodes_eq_map (stmts : List Stmt) : Stmt.toNodes stmts = stmts.map (·.toNode) := by
  induction stmts with
  | nil => rw [Stmt.toNodes, List.map_nil]
  | cons stmt stmts ih => rw [Stmt.toNodes, ih, List.map_cons]

theorem Stmt.map_toNode_comment (cs : List Comment) :
    (cs.map Stmt.comment).map (·.toNode) = cs.map (·.toNode) := by
  rw [List.map_map]
  exact List.map_congr_left fun c _ => by rw [Function.comp_apply, Stmt.toNode]

/-- A statement with blocks starts with its word. -/
theorem Stmt.SpelledBy.word_of_holdsBlock {stmt : Stmt} {ts : List Token}
    (h : stmt.SpelledBy ts) (hblock : stmt.holdsBlock) :
    ∃ t us, ts = t :: us ∧ (t.kind = .keyword .ifKw ∨ t.kind = .keyword .whileKw ∨
      t.kind = .keyword .forKw) := by
  cases h with
  | conditional hword => exact ⟨_, _, rfl, .inl hword⟩
  | whileLoop hword => exact ⟨_, _, rfl, .inr (.inl hword)⟩
  | forLoop binding hword => exact ⟨_, _, rfl, .inr (.inr hword)⟩
  | _ => simp [Stmt.holdsBlock] at hblock

namespace Parser

variable {α : Type} {T : List Token} {s s' : State} {ts : List Token}

theorem lays_expect {expected : Kind} {production : String} (hk : expected ≠ .eof) :
    Lays T s (expect expected production) fun t ts _ => ts = [t] ∧ t.kind = expected := by
  by_cases h : s.current.kind = expected
  · exact lays_ok (by rw [expect_run, if_pos h]) (passes_advance (h ▸ hk)) fun _ => ⟨rfl, h⟩
  · exact lays_error (by rw [expect_run, if_neg h])

theorem lays_takeComments :
    Lays T s takeComments fun cs ts s' => ts = [] ∧ cs = s.comments ∧ s' = s.commented :=
  lays_ok (takeComments_run s) (Passes.refl s).commented fun _ => ⟨rfl, rfl, rfl⟩

/-! ### Statements -/

/-- A statement that starts with another word than those with blocks holds none. -/
theorem holdsBlock_eq_false {stmt : Stmt} {form : StatementForm} (hpass : Passes s ts s')
    (hspelled : stmt.SpelledBy ts)
    (hform : Grammar.standard.statement? s.current.kind = some form)
    (hflat : form ≠ .conditional ∧ form ≠ .whileLoop ∧ form ≠ .forLoop) :
    stmt.holdsBlock = false := by
  by_contra hblock
  obtain ⟨t, us, rfl, hword⟩ := hspelled.word_of_holdsBlock (by simpa using hblock)
  rw [current_of_rest hpass.rest] at hform
  rcases hword with hword | hword | hword
  · rw [hword] at hform
    exact hflat.1 (Option.some.inj hform).symm
  · rw [hword] at hform
    exact hflat.2.1 (Option.some.inj hform).symm
  · rw [hword] at hform
    exact hflat.2.2 (Option.some.inj hform).symm

theorem lays_flat {p : Parser Stmt} {form : StatementForm} (h : Meets [] s p Stmt.SpelledBy)
    (hform : Grammar.standard.statement? s.current.kind = some form)
    (hflat : form ≠ .conditional ∧ form ≠ .whileLoop ∧ form ≠ .forLoop) :
    Lays T s p fun stmt ts _ => Laid T stmt.toNode ts := by
  intro _ stmt s' hrun
  obtain ⟨ts, hread, -, hspelled⟩ := h.of_ok hrun
  have hpass := hread.toPasses
  exact ⟨ts, hpass, (hspelled.covered (holdsBlock_eq_false hpass hspelled hform hflat)).laid⟩

/-- Where a block goes on, there is a token that does not close it. -/
theorem ne_of_inBlock {k : Kind} (h : inBlock k) : k ≠ .symbol .closeCurly ∧ k ≠ .eof := by
  obtain ⟨hclose, hends⟩ := inBlock_iff.mp h
  refine ⟨hclose, fun heof => ?_⟩
  simp [heof, Kind.endsBlocks] at hends

/-- A stretch of skipped tokens covers them. -/
theorem laid_error (hpass : Passes s ts s') (hne : ts ≠ []) :
    Laid T (errorNode (s'.spanFrom s.position)) ts := by
  rw [hpass.covering hne]
  exact .cover .tokens hne rfl (by simp [errorNode]) (by simp [errorNode])

section

-- The blocks inside a statement cover their tokens.
variable {inner : Parser Block} (hlays : ∀ s, Lays T s inner fun b ts _ => Laid T b.toNode ts)

include hlays

theorem lays_ifStmtOf (s : State) :
    Lays T s (ifStmtOf Grammar.standard inner) fun stmt ts _ => Laid T stmt.toNode ts := by
  refine (lays_expect (by decide)).bind fun word _ s₁ h₁ hword => ?_
  obtain ⟨rfl, -⟩ := hword
  refine meets_expression.lays.bind fun condition cs s₂ h₂ hcondition => ?_
  refine (hlays s₂).bind fun ifBlock bs s₃ h₃ hif => ?_
  refine lays_skipThen (by decide) (fun _ s' _ => hlays s') fun elseBlock es s₄ h₄ helse => ?_
  refine lays_spanFrom (lays_pure ?_)
  have hall := h₁.append (h₂.append (h₃.append h₄))
  rw [hall.spanFrom (by simp)]
  cases helse with
  | none =>
    rw [Stmt.toNode]
    refine .cover ?_ (by simp) (by simp [covering_cons]) (by simp) (by simp)
    simpa using (hcondition.grows.spread.append (hif.spread.labelled _)).token
  | some hbehind =>
    obtain @⟨mark, _, _, hmark, hblock⟩ := hbehind
    rw [Stmt.toNode]
    refine .cover ?_ (by simp) (by simp [covering_cons]) (by simp) (by simp)
    have helse' := (hblock.spread.labelled .elseBlock).token (t := mark)
    simpa using (hcondition.grows.spread.append ((hif.spread.labelled _).append helse')).token

theorem lays_whileStmtOf (s : State) :
    Lays T s (whileStmtOf Grammar.standard inner) fun stmt ts _ => Laid T stmt.toNode ts := by
  refine (lays_expect (by decide)).bind fun word _ s₁ h₁ hword => ?_
  obtain ⟨rfl, -⟩ := hword
  refine meets_expression.lays.bind fun condition cs s₂ h₂ hcondition => ?_
  refine (hlays s₂).bind fun body bs s₃ h₃ hbody => ?_
  refine lays_spanFrom (lays_pure ?_)
  have hall := h₁.append (h₂.append h₃)
  rw [hall.spanFrom (by simp), Stmt.toNode]
  refine .cover ?_ (by simp) (by simp [covering_cons]) (by simp) (by simp)
  simpa using (hcondition.grows.spread.append hbody.spread).token

theorem lays_forStmtOf (s : State) :
    Lays T s (forStmtOf Grammar.standard inner) fun stmt ts _ => Laid T stmt.toNode ts := by
  refine (lays_expect (by decide)).bind fun word _ s₁ h₁ hword => ?_
  obtain ⟨rfl, -⟩ := hword
  refine (meets_skip? (by decide)).lays.bind fun hasLet ls s₂ h₂ _ => ?_
  refine meets_identifier.lays.bind fun binding _ s₃ h₃ hbinding => ?_
  cases hbinding
  refine (lays_expect (by decide)).bind fun inside _ s₄ h₄ hinside => ?_
  obtain ⟨rfl, -⟩ := hinside
  refine meets_iterable.lays.bind fun values vs s₅ h₅ hiterable => ?_
  refine (hlays s₅).bind fun body bs s₆ h₆ hbody => ?_
  refine lays_spanFrom (lays_pure ?_)
  have hall := h₁.append (h₂.append (h₃.append (h₄.append (h₅.append h₆))))
  rw [hall.spanFrom (by simp), Stmt.toNode]
  refine .cover ?_ (by simp) (by simp [covering_cons]) (by simp) (by simp)
  have hrest : Spread T (binding.token :: inside :: (vs ++ bs))
      [binding.toNode, values.toNode, body.toNode] :=
    .append binding.grows.spread (.token (hiterable.grows.spread.append hbody.spread))
  have hmark : Spread T ls [] := .tokens
  simpa using (hmark.append hrest).token

theorem lays_statementOf (s : State) :
    Lays T s (statementOf Grammar.standard inner) fun stmt ts _ => Laid T stmt.toNode ts := by
  refine lays_kind ?_
  split
  · exact lays_error rfl
  · next hform => exact lays_flat meets_returnStmt hform (by decide)
  · next hform => exact lays_flat meets_declarationStmt hform (by decide)
  · exact lays_ifStmtOf hlays s
  · exact lays_whileStmtOf hlays s
  · exact lays_forStmtOf hlays s
  · next hform => exact lays_flat meets_breakStmt hform (by decide)
  · next hform => exact lays_flat meets_continueStmt hform (by decide)
  · next hform => exact lays_flat meets_matchStmt hform (by decide)
  · next hform => exact lays_flat meets_namedStmt hform (by decide)

/-! ### Blocks -/

-- Besides, they balance their braces.
variable (hinner : ∀ s, Settles s inner)

include hinner

/-- An item of a block, read or skipped, covers its tokens. -/
theorem blockItemOf_laid (depth : Nat) (hin : inBlock s.current.kind) (hs : s.InPlace T) :
    ∃ stmt s' ts, blockItemOf Grammar.standard inner depth s = withComments stmt s' ∧
      Passes s ts s' ∧ Laid T stmt.toNode ts := by
  cases hstmt : statementOf Grammar.standard inner s with
  | ok stmt s₁ =>
    obtain ⟨ts, hpass, hlaid⟩ := lays_statementOf hlays s hs stmt s₁ hstmt
    exact ⟨stmt, s₁, ts, blockItemOf_of_ok hstmt, hpass, hlaid⟩
  | error d s₁ =>
    obtain ⟨hclose, heof⟩ := ne_of_inBlock hin
    obtain ⟨-, us, n, hcount⟩ := (settles_statementOf hinner s).of_error hstmt
    obtain ⟨ts, s₂, hrecover, hpass, hne⟩ :=
      recoverStatement_passes hcount.toPasses heof hclose d depth
    refine ⟨_, s₂, ts, (blockItemOf_of_error hstmt).trans (bind_of_ok hrecover), hpass, ?_⟩
    rw [Stmt.toNode]
    exact laid_error hpass hne

theorem lays_blockItemOf (depth : Nat) (s : State) (hin : inBlock s.current.kind) :
    Lays T s (blockItemOf Grammar.standard inner depth) fun items ts s' =>
      Fills T (Laid T) s (items.map (·.toNode)) ts s' := by
  intro hs items s' hrun
  obtain ⟨stmt, s₁, ts, hitem, hpass, hlaid⟩ := blockItemOf_laid hlays hinner depth hin hs
  rw [hitem, withComments_run] at hrun
  obtain ⟨rfl, rfl⟩ := EStateM.Result.ok.inj hrun
  have hfill := Fills.item hs hpass hlaid.heads hlaid
  rw [← Stmt.map_toNode_comment, ← List.map_cons] at hfill
  exact ⟨ts, hpass.commented, hfill⟩

omit hlays hinner in
/-- A block covers its tokens if its statements cover those between its braces. -/
theorem laid_block {o : Token} {closing : List Token} {statements : List Stmt} {hi : Nat}
    (hs : s.InPlace T) (hpass : Passes s (o :: (ts ++ closing)) s')
    (ho : o.kind = .symbol .openCurly)
    (hclosing : closing = [] ∨
      ∃ c, closing = [c] ∧ c.kind = .symbol .closeCurly ∧ Balanced ts)
    (hnodes : NodesAt T o.span.stop.offset (statements.map (·.toNode)) hi)
    (hrow : Each (InRow (Laid T)) (statements.map (·.toNode)) ts) :
    Laid T (Block.toNode ⟨statements, covering (o :: (ts ++ closing))⟩)
      (o :: (ts ++ closing)) := by
  rw [Block.toNode, Stmt.toNodes_eq_map]
  have htokens := hs.tokensAt hpass
  obtain ⟨hstart, hfits, hrest⟩ := (htokens.covering (by simp)).2.1
  obtain ⟨mid, hinside, hbehind⟩ := hrest.split
  refine .of_everywhere (.mk
    { nested := { ordered := ?_, inside := ?_, apart := hnodes.pairwise }
      covers := fun _ => ?_ } ?_) (by simp) rfl (by simp)
  · exact Nat.le_of_lt (htokens.covering_lt (by simp))
  · intro n hn hcomment
    obtain ⟨hfirst, hlast⟩ := hrow.within hinside hn hcomment
    have hlt := hfits.start_lt_stop
    exact Span.contains_iff.mpr ⟨Nat.le_trans hstart (Nat.le_trans (Nat.le_of_lt hlt) hfirst),
      Nat.le_trans hlast hbehind.le⟩
  · exact ⟨o, ts, closing, hs.filter_covering hpass (by simp), ho, hclosing,
      fun t ht => hrow.holding_eq_one hinside ht⟩
  · exact fun n hn => (hnodes.of_mem hn).2.1

/-- The comments behind the opening brace of a block and its items, up to where these end. -/
theorem blockItems_laid {s₁ : State} {items : List (List Stmt)}
    (hopen : s.current.kind = .symbol .openCurly) (hs : s.InPlace T)
    (hitems : manyWhile inBlock (blockItemOf Grammar.standard inner (s.depth + 1))
      s.advance.commented = .ok items s₁) :
    ∃ ts, Passes s (s.current :: ts) s₁ ∧
      (s₁.current.kind = .symbol .closeCurly → Balanced ts) ∧
      NodesAt T s.current.span.stop.offset
        ((s.advance.comments.map Stmt.comment ++ items.flatten).map (·.toNode))
        s₁.position.offset ∧
      Each (InRow (Laid T))
        ((s.advance.comments.map Stmt.comment ++ items.flatten).map (·.toNode)) ts := by
  have hproper : s.current.kind ≠ .eof := by
    rw [hopen]
    simp
  have hfirst : Passes s [s.current] s.advance.commented := (passes_advance hproper).commented
  obtain ⟨ts, hpass, hfill⟩ := lays_manyWhile (lays_blockItemOf hlays hinner (s.depth + 1)) _
    (hs.passes hfirst) items s₁ hitems
  obtain ⟨hnodes, hrow⟩ := hfill.led (hs.passes (passes_advance hproper))
  rw [reached_advance hproper] at hnodes
  rw [List.map_append, Stmt.map_toNode_comment, List.map_flatten, ← List.flatMap_def]
  refine ⟨ts, hfirst.append hpass, fun hclose => ?_, hnodes, hrow⟩
  have hdepth : s.advance.commented.depth = s.depth + 1 :=
    depth_advance hproper (by rw [hopen]; rfl)
  rw [← hdepth] at hitems
  have hturn := (manyWhile_turns hitems).1.atTurn hinner
  obtain ⟨us, hus⟩ := hturn.counts_of_closeCurly hclose
  obtain rfl := hus.toPasses.unique hpass
  exact hus.braces

theorem lays_blockOf (s : State) :
    Lays T s (blockOf Grammar.standard inner) fun b ts _ => Laid T b.toNode ts := by
  by_cases hopen : s.current.kind = .symbol .openCurly
  · intro hs b s' hrun
    rw [blockOf_run hopen] at hrun
    cases hitems : manyWhile inBlock (blockItemOf Grammar.standard inner (s.depth + 1))
        s.advance.commented with
    | error d s₁ => simp [hitems, Outcome.andThen] at hrun
    | ok items s₁ =>
      rw [hitems] at hrun
      simp only [Outcome.andThen, closeBlock_run] at hrun
      obtain ⟨ts, hpass, hbalanced, hnodes, hrow⟩ := blockItems_laid hlays hinner hopen hs hitems
      split at hrun
      · next hclose =>
        obtain ⟨rfl, rfl⟩ := EStateM.Result.ok.inj hrun
        have hall := hpass.append (passes_advance (by rw [hclose]; simp))
        have hspan : s₁.advance.spanFrom s.current.span.start = _ := hall.covering (by simp)
        refine ⟨_, hall, ?_⟩
        rw [hspan]
        exact laid_block hs hall hopen (.inr ⟨_, rfl, hclose, hbalanced hclose⟩) hnodes hrow
      · obtain ⟨rfl, rfl⟩ := EStateM.Result.ok.inj hrun
        have hall : Passes s (s.current :: (ts ++ [])) s₁ := by simpa using hpass
        have hspan : s₁.spanFrom s.current.span.start = _ := hall.covering (by simp)
        refine ⟨_, hall.aside, ?_⟩
        rw [hspan]
        exact laid_block hs hall hopen (.inl rfl) hnodes hrow
  · exact lays_error (bind_of_error (by rw [expect_run, if_neg hopen]))

end

/-- A block covers its tokens. -/
theorem lays_block (s : State) :
    Lays T s (block Grammar.standard) fun b ts _ => Laid T b.toNode ts := by
  induction hn : s.rest.length using Nat.strong_induction_on generalizing s with
  | _ n ih =>
    refine Lays.congr (nest_run _ s) (lays_blockOf (fun s' => ?_) (fun s' => ?_) s)
    · exact lays_guarded fun hlt => ih _ (hn ▸ hlt) s' rfl
    · exact settles_guarded fun _ => settles_block s'

/-! ### Definitions -/

theorem lays_function (s : State) :
    Lays T s (function Grammar.standard) fun f ts _ => Laid T f.toNode ts := by
  refine (lays_expect (by decide)).bind fun word _ s₁ h₁ hword => ?_
  obtain ⟨rfl, -⟩ := hword
  refine meets_identifier.lays.bind fun name _ s₂ h₂ hname => ?_
  cases hname
  refine meets_genericClause?.lays.bind fun generic gs s₃ h₃ hgeneric => ?_
  refine meets_parameterList.lays.bind fun parameters ps s₄ h₄ hparameters => ?_
  refine meets_returnType?.lays.bind fun returnType rs s₅ h₅ hreturn => ?_
  refine (lays_block s₅).bind fun body bs s₆ h₆ hbody => ?_
  refine lays_spanFrom (lays_pure ?_)
  have hall := h₁.append (h₂.append (h₃.append (h₄.append (h₅.append h₆))))
  rw [hall.spanFrom (by simp)]
  refine .cover ?_ (by simp) (by simp [FunctionDef.toNode, covering_cons])
    (by simp [FunctionDef.toNode]) (by simp [FunctionDef.toNode])
  have hrest : Spread T (name.token :: (gs ++ (ps ++ (rs ++ bs))))
      (name.toNode.labelled .name :: (genericNodes generic ++ (parameters.map (·.toNode) ++
        (returnTypeNodes returnType ++ [body.toNode.labelled .funcBlock])))) :=
    .append (name.grows.spread.labelled _) (.append (grows_genericNodes hgeneric).spread
      (.append hparameters.grows.spread (.append hreturn.grows.spread (hbody.spread.labelled _))))
  simpa [FunctionDef.toNode] using hrest.token

/-- Reads a member and takes the comments behind it. -/
def noted (member : Parser α) : Parser (α × List Comment) := do
  let m ← member
  return (m, ← takeComments)

theorem membersWhile_eq_ok {wanted : Kind → Bool} {member : Parser α}
    {members : List α × List Comment} (hrun : membersWhile wanted member s = .ok members s') :
    ∃ items, manyWhile wanted (noted member) s.commented = .ok items s' ∧
      members = (items.map (·.1), s.comments ++ items.flatMap (·.2)) := by
  obtain ⟨leading, s₁, hleading, hrun⟩ := bind_eq_ok hrun
  obtain ⟨rfl, rfl⟩ := EStateM.Result.ok.inj ((takeComments_run s).symm.trans hleading)
  obtain ⟨items, s₂, hitems, hrun⟩ := bind_eq_ok hrun
  obtain ⟨rfl, rfl⟩ := EStateM.Result.ok.inj hrun
  exact ⟨items, hitems, rfl⟩

/-- Members stand in a row with the comments behind each of them. -/
theorem lays_noted {wanted : Kind → Bool} {member : Parser α} {wrap : α → Member}
    (hmember : ∀ s, Lays T s member fun m ts _ => Heads T (wrap m).toNode ts) (s : State) :
    Lays T s (manyWhile wanted (noted member)) fun items ts s' =>
      Fills T (Heads T) s ((memberRow wrap items).map (·.toNode)) ts s' := by
  have hitem : ∀ s : State, wanted s.current.kind → Lays T s (noted member) fun m ts s' =>
      Fills T (Heads T) s ((wrap m.1 :: m.2.map Member.comment).map (·.toNode)) ts s' := by
    intro s _ hs
    refine Lays.bind (hmember s) (fun m ts s₁ h₁ hm => ?_) hs
    refine lays_takeComments.bind fun comments _ s₂ h₂ hcomments => lays_pure ?_
    obtain ⟨rfl, rfl, rfl⟩ := hcomments
    simpa [Function.comp_def, Member.toNode] using Fills.item hs h₁ hm hm
  refine (lays_manyWhile hitem s).mono fun items ts s' hfill => ?_
  rwa [memberRow, List.map_flatMap]

/-- What is read between the braces of a struct: fields and then methods, with the comments before
and behind each of them. -/
theorem structMembers_eq_ok {members : List Parameter × List FunctionDef × List Comment}
    (hrun : structMembers Grammar.standard s = .ok members s') :
    ∃ fields methods s₁,
      manyWhile (· = .identifier) (noted (parameter Grammar.standard)) s.commented =
        .ok fields s₁ ∧
      manyWhile (· = .keyword .fnKw) (noted (function Grammar.standard)) s₁.commented =
        .ok methods s' ∧
      members = (fields.map (·.1), methods.map (·.1),
        s.comments ++ fields.flatMap (·.2) ++ (s₁.comments ++ methods.flatMap (·.2))) := by
  obtain ⟨first, s₁, hfirst, hrun⟩ := bind_eq_ok hrun
  obtain ⟨second, s₂, hsecond, hrun⟩ := bind_eq_ok hrun
  obtain ⟨rfl, rfl⟩ := EStateM.Result.ok.inj hrun
  obtain ⟨fields, hfields, rfl⟩ := membersWhile_eq_ok hfirst
  obtain ⟨methods, hmethods, rfl⟩ := membersWhile_eq_ok hsecond
  exact ⟨fields, methods, s₁, hfields, hmethods, rfl⟩

/-- What is read between the braces of a struct: rows of fields and of methods, none of them
empty, with all comments where they stand. -/
theorem structMembers_rows {members : List Parameter × List FunctionDef × List Comment}
    (hs : s.InPlace T) (hrun : structMembers Grammar.standard s = .ok members s') :
    ∃ fields methods s₁ ts,
      manyWhile (· = .identifier) (noted (parameter Grammar.standard)) s.commented =
        .ok fields s₁ ∧
      manyWhile (· = .keyword .fnKw) (noted (function Grammar.standard)) s₁.commented =
        .ok methods s' ∧
      s₁.comments = [] ∧ Passes s ts s' ∧
      members = (fields.map (·.1), methods.map (·.1),
        s.comments ++ fields.flatMap (·.2) ++ methods.flatMap (·.2)) ∧
      NodesAt T s.reached ((structRow s.comments fields methods).map (·.toNode))
        s'.position.offset ∧
      ∀ n ∈ (structRow s.comments fields methods).map (·.toNode),
        n.span.start.offset < n.span.stop.offset := by
  have hparameter : ∀ s, Lays T s (parameter Grammar.standard) fun p ts _ =>
      Heads T (Member.field p).toNode ts :=
    fun s => meets_parameter.lays.mono fun p ts _ hspelled => hspelled.heads
  have hfunction : ∀ s, Lays T s (function Grammar.standard) fun f ts _ =>
      Heads T (Member.method f).toNode ts :=
    fun s => (lays_function s).mono fun f ts _ hlaid => hlaid.heads
  obtain ⟨fields, methods, s₁, hfields, hmethods, rfl⟩ := structMembers_eq_ok hrun
  have hplace := hs.passes (Passes.refl s).commented
  obtain ⟨fs, hpass, hfill⟩ := lays_noted hparameter _ hplace fields s₁ hfields
  have hplace' := (hplace.passes hpass).passes (Passes.refl s₁).commented
  obtain ⟨ms, hpass', hfill'⟩ := lays_noted hfunction _ hplace' methods s' hmethods
  -- The comments before the first method are handed out with the fields.
  have hnone : s₁.comments = [] := hfill.comments (comments_commented s)
  refine ⟨fields, methods, s₁, fs ++ ms, hfields, hmethods, hnone, ?_, ?_, ?_, ?_⟩
  · exact (Passes.refl s).commented.append (hpass.commented.append hpass')
  · rw [hnone, List.nil_append]
  · rw [structRow, List.map_append, List.map_append, List.map_map]
    exact (hfill.led hs).1.append hfill'.nodes
  · intro n hn
    rw [structRow, List.map_append, List.map_append] at hn
    rcases List.mem_append.mp hn with hn | hn
    · rcases List.mem_append.mp hn with hcomment | hn
      · obtain ⟨_, hmem, rfl⟩ := List.mem_map.mp hcomment
        obtain ⟨c, hc, rfl⟩ := List.mem_map.mp hmem
        exact (hs.offset_of_mem_comments hc).2.1
      · exact hfill.solid n hn
    · exact hfill'.solid n hn

/-- The members of a struct and all comments between them stand in order behind its opening
brace, none of them empty. -/
theorem lays_structMembers (s : State) :
    Lays T s (structMembers Grammar.standard) fun members _ s' => ∃ ns,
      (members.1.map (·.toNode) ++ members.2.1.map (·.toNode) ++
        members.2.2.map (·.toNode)).Perm ns ∧
      NodesAt T s.reached ns s'.position.offset ∧
      ∀ n ∈ ns, n.span.start.offset < n.span.stop.offset := by
  intro hs members s' hrun
  obtain ⟨fields, methods, s₁, ts, -, -, -, hpass, rfl, hnodes, hsolid⟩ :=
    structMembers_rows hs hrun
  refine ⟨ts, hpass, _, ?_, hnodes, hsolid⟩
  have hperm := (perm_structRow s.comments fields methods).map (·.toNode)
  simpa [Function.comp_def, Member.toNode] using hperm

/-- A struct covers its tokens if its members stand in order between its braces. -/
theorem laid_struct {d : StructDef} {s₁ : State} {us : List Token} {c : Token} {ns : List Node}
    (hs : s.InPlace T) (hhead : Passes s us s₁) (hne : us ≠ [])
    (hname : Spread T us (d.name.toNode.labelled .name :: genericNodes d.generic))
    (hinside : Passes s₁ (ts ++ [c]) s') (hspan : d.span = covering (us ++ (ts ++ [c])))
    (hperm : (d.fields.map (·.toNode) ++ d.methods.map (·.toNode) ++
      d.comments.map (·.toNode)).Perm ns)
    (hnodes : NodesAt T s₁.reached ns c.span.start.offset)
    (hsolid : ∀ n ∈ ns, n.span.start.offset < n.span.stop.offset) :
    Laid T d.toNode (us ++ (ts ++ [c])) := by
  have hall := hhead.append hinside
  have htokens := hs.tokensAt_position hall (by simp)
  have hchildren : d.toNode.children =
      (d.name.toNode.labelled .name :: genericNodes d.generic) ++ ns := by
    rw [StructDef.toNode, hnodes.mergeSort_eq hsolid hperm, List.cons_append]
  have hin := (hname _ _ (hs.tokensAt_position hhead hne)).append hnodes
  rw [← hchildren] at hin
  have hstart : d.span.start = s.position := by
    rw [hspan, ← hall.covering (by simp), hall.spanFrom (by simp), spanning_start]
  refine .of_everywhere (hin.everywhere ?_ ?_ (by simp [StructDef.toNode])) (by simp) hspan
    (by simp [StructDef.toNode])
  · exact Nat.le_of_eq (congrArg Position.offset hstart)
  · have hc : c ∈ us ++ (ts ++ [c]) := by simp
    obtain ⟨-, hstop⟩ := Span.contains_iff.mp (htokens.contains_of_mem hc)
    have hlt := (htokens.of_mem hc).2.1.start_lt_stop
    show _ ≤ d.span.stop.offset
    rw [hspan]
    omega

theorem lays_structDef (s : State) :
    Lays T s (structDef Grammar.standard) fun d ts _ => Laid T d.toNode ts := by
  rw [structDef_eq]
  intro hs
  refine Lays.bind (lays_expect (by decide)) (fun word _ s₁ h₁ hword => ?_) hs
  obtain ⟨rfl, -⟩ := hword
  refine meets_identifier.lays.bind fun name _ s₂ h₂ hname => ?_
  cases hname
  refine meets_genericClause?.lays.bind fun generic gs s₃ h₃ hgeneric => ?_
  refine (lays_expect (by decide)).bind fun o _ s₄ h₄ ho => ?_
  obtain ⟨rfl, -⟩ := ho
  refine (lays_structMembers s₄).bind fun members ts s₅ h₅ hmembers => ?_
  obtain ⟨ns, hperm, hnodes, hsolid⟩ := hmembers
  by_cases hclose : s₅.current.kind = .symbol .closeCurly
  · have hlast := passes_advance (show s₅.current.kind ≠ .eof by rw [hclose]; simp)
    refine lays_ok (by rw [closeStruct_run, if_pos hclose]) hlast fun _ => ?_
    have hhead := h₁.append (h₂.append (h₃.append h₄))
    have hall := hhead.append (h₅.append hlast)
    have hspread : Spread T (word :: name.token :: (gs ++ [o]))
        (name.toNode.labelled .name :: genericNodes generic) :=
      .token (.append (name.grows.spread.labelled _) (grows_genericNodes hgeneric).spread.tokens_behind)
    have hlaid := laid_struct (d := ⟨name, generic, members.1, members.2.1, members.2.2,
      s₅.advance.spanFrom word.span.start⟩) hs hhead (by simp) hspread (h₅.append hlast)
      (by rw [hall.spanFrom (by simp)]; rfl) hperm hnodes hsolid
    simpa using hlaid
  · exact lays_error (by rw [closeStruct_run, if_neg hclose])

theorem lays_definition (s : State) :
    Lays T s (definition Grammar.standard) fun d ts _ => Laid T d.toNode ts := by
  refine lays_kind ?_
  split
  · exact lays_error rfl
  · refine meets_useStatement.lays.bind fun u ts s₁ _ hu => lays_pure ?_
    simpa [Definition.toNode] using hu.covered.laid
  · refine (lays_function s).bind fun f ts s₁ _ hf => lays_pure ?_
    simpa [Definition.toNode] using hf
  · refine meets_externalFunction.lays.bind fun f ts s₁ _ hf => lays_pure ?_
    simpa [Definition.toNode] using hf.covered.laid
  · refine (lays_structDef s).bind fun d ts s₁ _ hd => lays_pure ?_
    simpa [Definition.toNode] using hd

/-! ### Files -/

/-- An item of a file, read or skipped, covers its tokens. -/
theorem fileItem_laid (heof : s.current.kind ≠ .eof) (hs : s.InPlace T) :
    ∃ item s' ts, fileItem Grammar.standard s = withFileComments item s' ∧
      Passes s ts s' ∧ Laid T item.toNode ts := by
  have hzero : Passes s [] { s with depth := 0 } := (Passes.refl s).aside
  have hdef : Works true { s with depth := 0 } (definition Grammar.standard)
    Definition.SpelledBy := works_definition
  cases hrun : definition Grammar.standard { s with depth := 0 } with
  | ok item s₁ =>
    obtain ⟨ts, hpass, hlaid⟩ := lays_definition _ (hs.passes hzero) item s₁ hrun
    exact ⟨item, s₁, ts, fileItem_of_ok hrun, hzero.append hpass, hlaid⟩
  | error d s₁ =>
    obtain ⟨us, n, hcross, hd⟩ := hdef.of_error hrun
    obtain ⟨s₂, ts, hrecover, hwalk, hne, -⟩ :=
      recoverDefinition_walks hcross.toWalks.of_depth hd heof
    refine ⟨_, s₂, ts, (fileItem_of_error hrun).trans (bind_of_ok hrecover), hwalk.toPasses, ?_⟩
    exact laid_error hwalk.toPasses hne

theorem lays_fileItem (s : State) (hwanted : decide (s.current.kind ≠ .eof)) :
    Lays T s (fileItem Grammar.standard) fun items ts s' =>
      Fills T (Laid T) s (items.map (·.toNode)) ts s' := by
  intro hs items s' hrun
  obtain ⟨item, s₁, ts, hitem, hpass, hlaid⟩ := fileItem_laid (of_decide_eq_true hwanted) hs
  rw [hitem, withFileComments_run] at hrun
  obtain ⟨rfl, rfl⟩ := EStateM.Result.ok.inj hrun
  refine ⟨ts, hpass.commented, ?_⟩
  simpa [Definition.toNode, Function.comp_def] using Fills.item hs hpass hlaid.heads hlaid

/-- Where the next token is the end of the input, no token is left. -/
theorem rest_eq_nil (hproper : ∀ t ∈ T, t.kind ≠ .eof) (hs : s.InPlace T)
    (heof : s.current.kind = .eof) : s.rest = [] := by
  cases hrest : s.rest with
  | nil => rfl
  | cons t rest =>
    rw [current_of_rest hrest] at heof
    exact absurd heof (hproper t (by simp [← hs.all, hrest]))

end Parser

/-! ### Texts -/

theorem inPlace_startOf (source : String) :
    (startOf source).InPlace (startOf source).rest :=
  ⟨rfl, arranged_text source.toList⟩

/-- The items of a file are made of all tokens of its text, and end where it ends. -/
theorem fileItems_fill (source : String) :
    ∃ items s, Parser.manyWhile (· ≠ .eof) (Parser.fileItem Grammar.standard)
        (startOf source).commented = .ok items s ∧
      Parser.Fills (startOf source).rest (Laid (startOf source).rest) (startOf source).commented
        (items.flatMap (List.map (·.toNode))) (startOf source).rest s ∧
      s.current = Token.eofAt (Position.start.after source.toList) := by
  have hplace := (inPlace_startOf source).passes (Parser.Passes.refl _).commented
  obtain ⟨items, s, -, hitems, -, heof, -⟩ := Parser.fileItems_total (startOf source).commented
  obtain ⟨ts, hpass, hfill⟩ := Parser.lays_manyWhile Parser.lays_fileItem _ hplace items s hitems
  have hrest : s.rest = [] :=
    Parser.rest_eq_nil (fun t ht => kind_ne_eof_of_mem_placedTokens ht) (hplace.passes hpass) heof
  have hts : (startOf source).rest = ts := by
    have hall : (startOf source).rest = ts ++ s.rest := hpass.rest
    rw [hall, hrest, List.append_nil]
  have hcurrent : s.current = s.eof := by
    rw [Parser.State.current, Parser.State.peek, hrest]
    rfl
  refine ⟨items, s, hitems, ?_, hcurrent.trans hpass.eof⟩
  rw [← hts] at hfill
  exact hfill

/-- The definitions of a file stand in order in its text, and they are made of all of its
tokens. -/
theorem parseSource_laid (source : String) :
    NodesAt (startOf source).rest 0 (parseSource source).file.toNode.children
      (byteLength source.toList) ∧
    Each (InRow (Laid (startOf source).rest)) (parseSource source).file.toNode.children
      (startOf source).rest ∧
    (parseSource source).file.span.start.offset = 0 ∧
    (parseSource source).file.span.stop.offset = byteLength source.toList := by
  obtain ⟨items, s, hitems, hfill, hcurrent⟩ := fileItems_fill source
  obtain ⟨hnodes, hrow⟩ := hfill.led (inPlace_startOf source)
  rw [Parser.State.position, hcurrent] at hnodes
  have hend : (Position.start.after source.toList).offset = byteLength source.toList := by
    rw [Position.offset_after]
    exact Nat.zero_add _
  have hchildren : (parseSource source).file.toNode.children =
      (startOf source).comments.map (·.toNode) ++ items.flatMap (List.map (·.toNode)) := by
    rw [parseSource_eq (Parser.sourceFile_run hitems)]
    simp [SourceFile.toNode, Definition.toNode, Function.comp_def, List.map_flatten,
      List.flatMap_def]
  rw [hchildren]
  refine ⟨?_, hrow, ?_, ?_⟩
  · rw [← hend]
    exact hnodes
  · rw [parseSource_eq (Parser.sourceFile_run hitems)]
    rfl
  · rw [parseSource_eq (Parser.sourceFile_run hitems), hcurrent]
    exact hend

/-- The tokens of a stream, without the end of the input. -/
def TokenStream.proper (s : TokenStream) : List Token := s.tokens.filter (·.kind ≠ .eof)

theorem proper_parseSource (source : String) :
    (parseSource source).stream.proper = (startOf source).rest := by
  have hkept : (startOf source).rest.filter (·.kind ≠ .eof) = (startOf source).rest :=
    List.filter_eq_self.mpr fun t ht => by simpa using kind_ne_eof_of_mem_placedTokens ht
  have hend : [Token.eofAt (Position.start.after source.toList)].filter (·.kind ≠ .eof) = [] := by
    simp [Token.eofAt]
  show (tokenize source).stream.tokens.filter (·.kind ≠ .eof) = _
  rw [tokens_tokenize, List.filter_append, hend, List.append_nil]
  exact hkept

/-- Every node of the tree of a text is sound. -/
theorem everywhere_parseSource (source : String) :
    (parseSource source).file.toNode.Everywhere (Node.Sound (startOf source).rest) := by
  obtain ⟨hnodes, -, hstart, hstop⟩ := parseSource_laid source
  exact hnodes.everywhere (Nat.le_of_eq hstart) (Nat.le_of_eq hstop.symm)
    (by simp [SourceFile.toNode])

/-- Spans nest.  In the tree of every text, however broken it is, no node ends before it
starts, the children of a node that are no comments lie inside it, and all of its children
stand one after the other; the whole tree covers the text from its first byte to its last. -/
theorem spans_nest (source : String) :
    (∀ entry ∈ (parseSource source).file.toNode.preorder 0, entry.2.Nested) ∧
    (parseSource source).file.toNode.span.start.offset = 0 ∧
    (parseSource source).file.toNode.span.stop.offset = byteLength source.toList := by
  obtain ⟨-, -, hstart, hstop⟩ := parseSource_laid source
  refine ⟨fun entry hentry => ?_, hstart, hstop⟩
  exact ((everywhere_parseSource source).of_mem_preorder hentry).nested

/-- A function with a statement that lacks its value and a call without an end, a brace too
many, a struct with a comment between its members, and a function that the text ends in. -/
def strayText : String :=
  "fn f() \x7b if x \x7b y = ; \x7d z( \x7d \x7d " ++
    "struct S \x7b a: &&u8, // note\n b: u8 \x7d fn g() \x7b x = 1;"

theorem spans_nest_strayText :
    (∃ entry ∈ (parseSource strayText).file.toNode.preorder 0,
      entry.2.kind = .structDefinition ∧ entry.2.Nested) ∧
    (parseSource strayText).file.toNode.span.stop.offset = 83 := by
  obtain ⟨hnested, -, hstop⟩ := spans_nest strayText
  obtain ⟨entry, hentry, hkind⟩ : ∃ entry ∈ (parseSource strayText).file.toNode.preorder 0,
      entry.2.kind = .structDefinition := by
    decide +kernel
  refine ⟨⟨entry, hentry, hkind, hnested entry hentry⟩, ?_⟩
  rw [hstop]
  decide +kernel

/-- No token is left out.  Every token of a text lies inside just one of its definitions, the
skipped stretches among them, and every token inside a block, its own braces apart, lies inside
just one of its statements, the skipped stretches among them. -/
theorem tokens_covered (source : String) :
    (∀ t ∈ (parseSource source).stream.proper,
      Node.holding t (parseSource source).file.toNode.children = 1) ∧
    ∀ entry ∈ (parseSource source).file.toNode.preorder 0, entry.2.kind = .block →
      entry.2.Covers (parseSource source).stream.proper := by
  rw [proper_parseSource]
  obtain ⟨-, hrow, -, -⟩ := parseSource_laid source
  refine ⟨fun t ht => ?_, fun entry hentry hblock => ?_⟩
  · exact hrow.holding_eq_one (inPlace_startOf source).rest ht
  · exact ((everywhere_parseSource source).of_mem_preorder hentry).covers hblock

theorem tokens_covered_strayText :
    (∃ t ∈ (parseSource strayText).stream.proper, t.kind = .symbol .closeCurly ∧
      Node.holding t (parseSource strayText).file.toNode.children = 1) ∧
    ∃ entry ∈ (parseSource strayText).file.toNode.preorder 0, entry.2.kind = .block ∧
      entry.2.Covers (parseSource strayText).stream.proper := by
  obtain ⟨htokens, hblocks⟩ := tokens_covered strayText
  obtain ⟨t, ht, hclose⟩ : ∃ t ∈ (parseSource strayText).stream.proper,
      t.kind = .symbol .closeCurly := by
    decide +kernel
  obtain ⟨entry, hentry, hblock⟩ : ∃ entry ∈ (parseSource strayText).file.toNode.preorder 0,
      entry.2.kind = .block := by
    decide +kernel
  exact ⟨⟨t, ht, hclose, htokens t ht⟩, entry, hentry, hblock, hblocks entry hentry hblock⟩

end FrontEnd
