/-
What is skipped, what is recorded and what is handed out.

Whatever a text is, the comments and skipped stretches in its tree are just what the run that
reads it leaves:

* `tracks_statementOf`, `tracks_block` — so are those in a statement and in a block;
* `tracks_structDef` — so are those in a struct, although its tree is sorted only afterwards;
* `sourceFile_trail` — so are those in a file;
* `errors_accounted` — there are not more skipped stretches than failures, and where there is
  none, nothing is wrong but blocks that do not close;
* `comments_kept_once` — the comments in a tree are some of those in its text, in order.

The last two are the two facts about runs, read off the whole run.  Both speak of all nodes of a
tree at any depth, and the grammar is followed just once for both.
-/
import FrontEnd.Proofs.Grammar.Containment
import FrontEnd.Proofs.Grammar.Spans
import FrontEnd.Proofs.Parser.Trail

namespace FrontEnd

/-- A statement without blocks that has a spelling holds no remarks. -/
theorem Stmt.SpelledBy.remarks_eq_nil {stmt : Stmt} {ts : List Token} (h : stmt.SpelledBy ts)
    (hflat : stmt.holdsBlock = false) : stmt.remarks = [] := by
  cases h with
  | conditional | whileLoop | forLoop => simp [Stmt.holdsBlock] at hflat
  | _ => rw [Stmt.remarks]

theorem Stmt.remarks_conditional (condition : Expr) (ifBlock : Block) (elseBlock : Option Block)
    (span : Span) :
    (Stmt.conditional condition ifBlock elseBlock span).remarks =
      ifBlock.remarks ++ (elseBlock.map (·.remarks)).getD [] := by
  cases elseBlock <;> simp [Stmt.remarks]

theorem Block.remarks_mk (statements : List Stmt) (span : Span) :
    (Block.mk statements span).remarks = statements.flatMap (·.remarks) := by
  rw [Block.remarks, Stmt.remarksOf_eq_flatMap]

/-- Comments that stand as parts of something are the remarks in these parts. -/
theorem flatMap_remarks_comments {α : Type} {remarks : α → List Remark} {part : Comment → α}
    (h : ∀ c, remarks (part c) = [.comment c]) (cs : List Comment) :
    (cs.map part).flatMap remarks = cs.map .comment := by
  rw [List.flatMap_map, List.map_eq_flatMap]
  simp only [h]

theorem flatMap_remarks_memberRow {α : Type} (wrap : α → Member)
    (items : List (α × List Comment)) :
    (memberRow wrap items).flatMap (·.remarks) =
      items.flatMap fun m => (wrap m.1).remarks ++ m.2.map .comment := by
  rw [memberRow, List.flatMap_assoc]
  simp only [List.flatMap_cons, flatMap_remarks_comments Member.remarks_comment]

namespace Parser

variable {α : Type} {T : List Token} {s s' : State}

/-! ### Statements -/

theorem tracks_flat {p : Parser Stmt} {form : StatementForm} (h : Meets [] s p Stmt.SpelledBy)
    (hform : Grammar.standard.statement? s.current.kind = some form)
    (hflat : form ≠ .conditional ∧ form ≠ .whileLoop ∧ form ≠ .forLoop) :
    Tracks T s p fun stmt rs => rs = stmt.remarks := by
  intro _ stmt s' hrun
  obtain ⟨ts, hread, -, hspelled⟩ := h.of_ok hrun
  have hno := holdsBlock_eq_false hread.toPasses hspelled hform hflat
  exact ⟨[], (Leaves.read hread).trail, (hspelled.remarks_eq_nil hno).symm⟩

section

-- The blocks inside a statement leave the remarks in them.
variable {inner : Parser Block} (htracks : ∀ s, Tracks T s inner fun b rs => rs = b.remarks)

include htracks

theorem tracks_ifStmtOf (s : State) :
    Tracks T s (ifStmtOf Grammar.standard inner) fun stmt rs => rs = stmt.remarks := by
  refine (tracks_expect (by decide)).bind fun word _ s₁ hword => ?_
  refine meets_expression.tracks.bind fun condition _ s₂ hcondition => ?_
  refine (htracks s₂).bind fun ifBlock rs s₃ hif => ?_
  refine tracks_skipThen (by decide) htracks fun elseBlock s₄ => ?_
  refine tracks_spanFrom (tracks_pure ?_)
  rw [hword, hcondition, hif, Stmt.remarks_conditional]
  simp

theorem tracks_whileStmtOf (s : State) :
    Tracks T s (whileStmtOf Grammar.standard inner) fun stmt rs => rs = stmt.remarks := by
  refine (tracks_expect (by decide)).bind fun word _ s₁ hword => ?_
  refine meets_expression.tracks.bind fun condition _ s₂ hcondition => ?_
  refine (htracks s₂).bind fun body rs s₃ hbody => ?_
  refine tracks_spanFrom (tracks_pure ?_)
  rw [hword, hcondition, hbody, Stmt.remarks]
  simp

theorem tracks_forStmtOf (s : State) :
    Tracks T s (forStmtOf Grammar.standard inner) fun stmt rs => rs = stmt.remarks := by
  refine (tracks_expect (by decide)).bind fun word _ s₁ hword => ?_
  refine (meets_skip? (by decide)).tracks.bind fun hasLet _ s₂ hlet => ?_
  refine meets_identifier.tracks.bind fun binding _ s₃ hbinding => ?_
  refine (tracks_expect (by decide)).bind fun inside _ s₄ hinside => ?_
  refine meets_iterable.tracks.bind fun values _ s₅ hiterable => ?_
  refine (htracks s₅).bind fun body rs s₆ hbody => ?_
  refine tracks_spanFrom (tracks_pure ?_)
  rw [hword, hlet, hbinding, hinside, hiterable, hbody, Stmt.remarks]
  simp

theorem tracks_statementOf (s : State) :
    Tracks T s (statementOf Grammar.standard inner) fun stmt rs => rs = stmt.remarks := by
  refine tracks_kind ?_
  split
  · exact tracks_error rfl
  · next hform => exact tracks_flat meets_returnStmt hform (by decide)
  · next hform => exact tracks_flat meets_declarationStmt hform (by decide)
  · exact tracks_ifStmtOf htracks s
  · exact tracks_whileStmtOf htracks s
  · exact tracks_forStmtOf htracks s
  · next hform => exact tracks_flat meets_breakStmt hform (by decide)
  · next hform => exact tracks_flat meets_continueStmt hform (by decide)
  · next hform => exact tracks_flat meets_matchStmt hform (by decide)
  · next hform => exact tracks_flat meets_namedStmt hform (by decide)

/-! ### Blocks -/

-- Besides, they fail somewhere in what they have passed, and never for want of a brace.
variable (hworks : ∀ s, Works true s inner Block.SpelledBy) (hspares : Spares inner)

include hworks hspares

/-- A statement of a block, or the stretch that is skipped in its place. -/
theorem blockItemOf_trail (depth : Nat) (s : State) (hs : s.InPlace T) :
    ∃ stmt s', blockItemOf Grammar.standard inner depth s = withComments stmt s' ∧
      Trail s stmt.remarks s' := by
  cases hstmt : statementOf Grammar.standard inner s with
  | ok stmt s₁ =>
    obtain ⟨rs, htrail, rfl⟩ := tracks_statementOf htracks s hs stmt s₁ hstmt
    exact ⟨stmt, s₁, blockItemOf_of_ok hstmt, htrail⟩
  | error d s₁ =>
    obtain ⟨ts, n, hcross, hd⟩ := (works_statementOf hworks s).of_error hstmt
    have hcause := spares_statementOf Grammar.standard hspares s d s₁ hstmt
    obtain ⟨us, s₂, hrecover, hread, -⟩ := recoverStatement_reads d depth s.index s.position s₁
    refine ⟨_, s₂, (blockItemOf_of_error hstmt).trans (bind_of_ok hrecover), ?_⟩
    rw [Stmt.remarks]
    exact (Leaves.skip _ hcross.toWalks hd hcause hread).trail

theorem tracks_blockItemOf (depth : Nat) (s : State) :
    Tracks T s (blockItemOf Grammar.standard inner depth) fun items rs =>
      rs = items.flatMap (·.remarks) := by
  intro hs items s' hrun
  obtain ⟨stmt, s₁, hitem, htrail⟩ := blockItemOf_trail htracks hworks hspares depth s hs
  rw [hitem, withComments_run] at hrun
  obtain ⟨rfl, rfl⟩ := EStateM.Result.ok.inj hrun
  refine ⟨_, htrail.append (Leaves.comments s₁).trail, ?_⟩
  show _ = (stmt :: s₁.comments.map Stmt.comment).flatMap (·.remarks)
  rw [List.flatMap_cons, flatMap_remarks_comments Stmt.remarks_comment]

omit htracks hworks hspares in
/-- The end of a block leaves nothing, also if it is missing. -/
theorem tracks_closeBlock {start : Position} {depth : Nat} {statements : List Stmt}
    {V : Block → List Remark → Prop} (h : ∀ span, V ⟨statements, span⟩ []) :
    Tracks T s (closeBlock start depth statements) V := by
  by_cases hclose : s.current.kind = .symbol .closeCurly
  · have hread := reads_advance (show s.current.kind ≠ .eof by rw [hclose]; simp)
    exact tracks_ok (by rw [closeBlock_run, if_pos hclose]) (Leaves.read hread).trail (h _)
  · exact tracks_ok (by rw [closeBlock_run, if_neg hclose]) (Leaves.unclosed s _).trail (h _)

theorem tracks_blockOf (s : State) :
    Tracks T s (blockOf Grammar.standard inner) fun b rs => rs = b.remarks := by
  by_cases hopen : s.current.kind = .symbol .openCurly
  · have hbrace : Trail s [] s.advance := (Leaves.read (reads_advance (by rw [hopen]; simp))).trail
    have hitem := tracks_blockItemOf htracks hworks hspares (s.depth + 1)
    refine Tracks.after (hbrace.append (Leaves.comments s.advance).trail)
      ((blockOf_run hopen).trans (bind_run _ _ _).symm) ?_
    refine (tracks_manyWhile (fun s _ => hitem s) _).bind fun items rs s₁ hitems => ?_
    refine tracks_closeBlock fun span => ?_
    rw [hitems, Block.remarks_mk, List.flatMap_append, flatMap_remarks_comments Stmt.remarks_comment,
      ← List.flatMap_id, List.flatMap_assoc, List.append_nil]
    rfl
  · exact tracks_error (bind_of_error (by rw [expect_run, if_neg hopen]))

end

/-- The remarks in a block are those that reading it leaves. -/
theorem tracks_block (s : State) :
    Tracks T s (block Grammar.standard) fun b rs => rs = b.remarks := by
  induction hn : s.rest.length using Nat.strong_induction_on generalizing s with
  | _ n ih =>
    refine Tracks.congr (nest_run _ s) (tracks_blockOf (fun s' => ?_) (fun s' => ?_) ?_ s)
    · exact tracks_guarded fun hlt => ih _ (hn ▸ hlt) s' rfl
    · exact works_guarded fun _ => works_block s'
    · exact spares_guarded fun s' d s'' _ hrun => spares_block Grammar.standard s' d s'' hrun

/-! ### Definitions -/

theorem tracks_function (s : State) :
    Tracks T s (function Grammar.standard) fun f rs => rs = f.remarks := by
  refine (tracks_expect (by decide)).bind fun word _ s₁ hword => ?_
  refine meets_identifier.tracks.bind fun name _ s₂ hname => ?_
  refine meets_genericClause?.tracks.bind fun generic _ s₃ hgeneric => ?_
  refine meets_parameterList.tracks.bind fun parameters _ s₄ hparameters => ?_
  refine meets_returnType?.tracks.bind fun returnType _ s₅ hreturn => ?_
  refine (tracks_block s₅).bind fun body rs s₆ hbody => ?_
  refine tracks_spanFrom (tracks_pure ?_)
  rw [hword, hname, hgeneric, hparameters, hreturn, hbody, FunctionDef.remarks]
  simp

/-- Members leave the remarks in them, each before the comments behind it. -/
theorem tracks_noted {wanted : Kind → Bool} {member : Parser α} (wrap : α → Member)
    (hmember : ∀ s, Tracks T s member fun m rs => rs = (wrap m).remarks) (s : State) :
    Tracks T s (manyWhile wanted (noted member)) fun items rs =>
      rs = (memberRow wrap items).flatMap (·.remarks) := by
  have hitem : ∀ s : State, wanted s.current.kind → Tracks T s (noted member) fun m rs =>
      rs = (wrap m.1).remarks ++ m.2.map .comment := by
    intro s _
    refine (hmember s).bind fun m rs s₁ hm => ?_
    refine tracks_ok (bind_of_ok (takeComments_run s₁)) (Leaves.comments s₁).trail ?_
    rw [hm]
  intro hs items s' hrun
  obtain ⟨rs, htrail, hrs⟩ := tracks_manyWhile hitem s hs items s' hrun
  exact ⟨rs, htrail, hrs.trans (flatMap_remarks_memberRow wrap items).symm⟩

/-- Sorting puts the members of a struct back in the order in which they were read. -/
theorem members_eq_structRow {leading : List Comment} {fields : List (Parameter × List Comment)}
    {methods : List (FunctionDef × List Comment)} {lo hi : Nat} {d : StructDef}
    (hd : (d.fields, d.methods, d.comments) = (fields.map (·.1), methods.map (·.1),
      leading ++ fields.flatMap (·.2) ++ methods.flatMap (·.2)))
    (hnodes : NodesAt T lo ((structRow leading fields methods).map (·.toNode)) hi)
    (hsolid : ∀ n ∈ (structRow leading fields methods).map (·.toNode),
      n.span.start.offset < n.span.stop.offset) :
    d.members = structRow leading fields methods := by
  have hstarts : (structRow leading fields methods).Pairwise fun a b => a.start < b.start := by
    have hviews := hnodes.pairwise_start hsolid
    rwa [List.pairwise_map] at hviews
  obtain ⟨hfields, hmethods, hcomments⟩ : d.fields = _ ∧ d.methods = _ ∧ d.comments = _ := by
    simpa only [Prod.mk.injEq] using hd
  rw [StructDef.members, hfields, hmethods, hcomments]
  exact mergeSort_eq_of_perm hstarts (perm_structRow leading fields methods)

/-- The remarks among the members of a struct are left in the order that sorting finds again. -/
theorem tracks_structMembers (s : State) :
    Tracks T s (structMembers Grammar.standard) fun members rs =>
      ∀ d : StructDef, (d.fields, d.methods, d.comments) = members → rs = d.remarks := by
  intro hs members s' hrun
  obtain ⟨fields, methods, s₁, ts, hfields, hmethods, hnone, -, rfl, hnodes, hsolid⟩ :=
    structMembers_rows hs hrun
  have hleading := (Leaves.comments s).trail
  obtain ⟨_, hfirst, rfl⟩ := tracks_noted .field (fun _ => meets_parameter.tracks) _
    (hleading.inPlace hs) fields s₁ hfields
  have hbetween := (hleading.append hfirst).append (Leaves.comments s₁).trail
  obtain ⟨_, hsecond, rfl⟩ := tracks_noted .method tracks_function _
    (hbetween.inPlace hs) methods s' hmethods
  refine ⟨_, hbetween.append hsecond, fun d hd => ?_⟩
  rw [StructDef.remarks, members_eq_structRow hd hnodes hsolid, structRow, hnone,
    List.flatMap_append, List.flatMap_append, flatMap_remarks_comments Member.remarks_comment,
    List.map_nil, List.append_nil]

/-- The remarks in a struct are those that reading it leaves, in the same order. -/
theorem tracks_structDef (s : State) :
    Tracks T s (structDef Grammar.standard) fun d rs => rs = d.remarks := by
  rw [structDef_eq]
  refine (tracks_expect (by decide)).bind fun word _ s₁ hword => ?_
  refine meets_identifier.tracks.bind fun name _ s₂ hname => ?_
  refine meets_genericClause?.tracks.bind fun generic _ s₃ hgeneric => ?_
  refine (tracks_expect (by decide)).bind fun o _ s₄ ho => ?_
  refine (tracks_structMembers s₄).bind fun members rs s₅ hmembers => ?_
  by_cases hclose : s₅.current.kind = .symbol .closeCurly
  · have hread := reads_advance (show s₅.current.kind ≠ .eof by rw [hclose]; simp)
    refine tracks_ok (by rw [closeStruct_run, if_pos hclose]) (Leaves.read hread).trail ?_
    rw [hword, hname, hgeneric, ho]
    simpa using hmembers _ rfl
  · exact tracks_error (by rw [closeStruct_run, if_neg hclose])

theorem tracks_definition (s : State) :
    Tracks T s (definition Grammar.standard) fun d rs => rs = d.remarks := by
  refine tracks_kind ?_
  split
  · exact tracks_error rfl
  · refine meets_useStatement.tracks.bind fun u _ s₁ hu => tracks_pure ?_
    rw [hu]
    rfl
  · refine (tracks_function s).bind fun f rs s₁ hf => tracks_pure ?_
    rw [hf, List.append_nil]
    rfl
  · refine meets_externalFunction.tracks.bind fun f _ s₁ hf => tracks_pure ?_
    rw [hf]
    rfl
  · refine (tracks_structDef s).bind fun d rs s₁ hd => tracks_pure ?_
    rw [hd, List.append_nil]
    rfl

/-! ### Files -/

/-- A definition of a file, or the stretch that is skipped in its place. -/
theorem fileItem_trail (heof : s.current.kind ≠ .eof) (hs : s.InPlace T) :
    ∃ item s', fileItem Grammar.standard s = withFileComments item s' ∧
      Trail s item.remarks s' := by
  have hzero := (Leaves.outside s).trail
  cases hdef : definition Grammar.standard { s with depth := 0 } with
  | ok item s₁ =>
    obtain ⟨rs, htrail, rfl⟩ := tracks_definition _ (hzero.inPlace hs) item s₁ hdef
    exact ⟨item, s₁, fileItem_of_ok hdef, hzero.append htrail⟩
  | error d s₁ =>
    obtain ⟨ts, n, hcross, hd⟩ := works_definition.of_error hdef
    have hwalk : Walks s ts s₁ := hcross.toWalks.of_depth
    have hcause := spares_definition Grammar.standard _ d s₁ hdef
    obtain ⟨s₂, us, hrecover, hread, -⟩ := recoverDefinition_reads hwalk.toPasses heof d
    refine ⟨_, s₂, (fileItem_of_error hdef).trans (bind_of_ok hrecover), ?_⟩
    exact (Leaves.skip _ hwalk hd hcause hread).trail

theorem tracks_fileItem (s : State) (hwanted : decide (s.current.kind ≠ .eof)) :
    Tracks T s (fileItem Grammar.standard) fun items rs => rs = items.flatMap (·.remarks) := by
  intro hs items s' hrun
  obtain ⟨item, s₁, hitem, htrail⟩ := fileItem_trail (of_decide_eq_true hwanted) hs
  rw [hitem, withFileComments_run] at hrun
  obtain ⟨rfl, rfl⟩ := EStateM.Result.ok.inj hrun
  refine ⟨_, htrail.append (Leaves.comments s₁).trail, ?_⟩
  show _ = (item :: s₁.comments.map Definition.comment).flatMap (·.remarks)
  rw [List.flatMap_cons, flatMap_remarks_comments Definition.remarks_comment]

end Parser

/-- The remarks in a file are those that reading its text leaves. -/
theorem sourceFile_trail (source : String) :
    ∃ file s, Parser.sourceFile Grammar.standard (startOf source) = .ok file s ∧
      Parser.Trail (startOf source) file.remarks s := by
  have hleading := (Parser.Leaves.comments (startOf source)).trail
  have hplace := hleading.inPlace (inPlace_startOf source)
  obtain ⟨items, s, -, hitems, -⟩ := Parser.fileItems_total (startOf source).commented
  obtain ⟨_, htrail, rfl⟩ :=
    Parser.tracks_manyWhile Parser.tracks_fileItem _ hplace items s hitems
  refine ⟨_, s, Parser.sourceFile_run hitems, ?_⟩
  rw [SourceFile.remarks, List.flatMap_append, flatMap_remarks_comments Definition.remarks_comment,
    ← List.flatMap_id, List.flatMap_assoc]
  exact hleading.append htrail

/-! ### Errors -/

/-- What is skipped and what is recorded account for each other.  In the tree of every text there
are not more error nodes than diagnostics about syntax, those left out that are about a block
without its closing brace; and there is no error node just if all diagnostics about syntax are of
this kind. -/
theorem errors_accounted (source : String) :
    (parseSource source).file.toNode.nodes.countP (·.kind = .error) ≤
      (parseSource source).syntactic.countP (fun d => !d.cause.isOpenBlock) ∧
    ((∀ n ∈ (parseSource source).file.toNode.nodes, n.kind ≠ .error) ↔
      ∀ d ∈ (parseSource source).syntactic, d.cause.isOpenBlock) := by
  obtain ⟨file, s, hrun, htrail⟩ := sourceFile_trail source
  obtain ⟨ds, hds, haccounts⟩ := htrail.accounts
  have hreported : s.diagnostics.reported = ds := hds
  have hfile : (parseSource source).file = file := by rw [parseSource_eq hrun]
  have hskipped : file.toNode.nodes.countP (·.kind = .error) = Parser.skipped file.remarks :=
    file.countP_errors
  have hfailures : (parseSource source).syntactic.countP (fun d => !d.cause.isOpenBlock) =
      Parser.failures ds := by
    rw [syntactic_parseSource hrun, hreported, Diagnostics.sorted_eq]
    exact (List.mergeSort_perm _ _).countP_eq _
  have hnodes : (∀ n ∈ file.toNode.nodes, n.kind ≠ .error) ↔ Parser.skipped file.remarks = 0 := by
    rw [← hskipped, List.countP_eq_zero]
    simp
  have hsyntactic : (∀ d ∈ (parseSource source).syntactic, d.cause.isOpenBlock) ↔
      Parser.failures ds = 0 := by
    rw [← hfailures, List.countP_eq_zero]
    simp
  rw [hfile, hskipped, hfailures, hnodes, hsyntactic]
  refine ⟨haccounts.le, haccounts.none, fun hnone => ?_⟩
  have hle := haccounts.le
  omega

/-- Two blocks that do not close, with a comment between them. -/
def openText : String := "fn f() \x7b // first\n while x \x7b y = 1;"

theorem errors_accounted_openText :
    (∀ n ∈ (parseSource openText).file.toNode.nodes, n.kind ≠ .error) ∧
    ∃ d ∈ (parseSource openText).syntactic, d.cause.isOpenBlock := by
  have hnone : ∀ n ∈ (parseSource openText).file.toNode.nodes, n.kind ≠ .error := by
    decide +kernel
  obtain ⟨d, hd, hcategory⟩ : ∃ d ∈ (tokenize openText).diagnostics ++
      (parseTokens (tokenize openText).stream).2, d.cause.category = .syntactic := by
    decide +kernel
  have hsyntactic : d ∈ (parseSource openText).syntactic :=
    List.mem_filter.mpr ⟨Diagnostics.mem_sorted.mpr hd, decide_eq_true hcategory⟩
  exact ⟨hnone, d, hsyntactic, (errors_accounted openText).2.mp hnone d hsyntactic⟩

-- The statement that fails in the method is thrown away with the whole struct: two failures are
-- recorded, and one stretch is skipped.
example :
    let parsed := parseTokens
      (tokenize "struct S \x7b fn m() \x7b x = ; \x7d y \x7d").stream
    parsed.1.toNode.nodes.countP (·.kind = .error) = 1 ∧ Parser.failures parsed.2 = 2 := by
  decide +kernel

/-! ### Comments -/

theorem Parser.commentsIn_sublist (s : Parser.State) (first last : Nat) :
    (s.commentsIn first last).Sublist (s.trivia.filterMap Comment.ofTrivia?) :=
  ((List.takeWhile_sublist _).trans (List.dropWhile_sublist _)).filterMap _

theorem trivia_parseSource (source : String) :
    (parseSource source).stream.trivia = (startOf source).trivia := by
  show (tokenize source).stream.trivia = _
  rw [tokenize, ofLexemes_eq]
  rfl

/-- The comments of a text, read as their form, their text and their span. -/
theorem comments_parseSource (source : String) :
    ((parseSource source).stream.comments.map fun x => (x.kind.comment?, x.text, x.span)) =
      ((startOf source).trivia.filterMap Comment.ofTrivia?).map
        fun c => (some c.kind, c.text, c.span) := by
  rw [TokenStream.comments, trivia_parseSource]
  induction (startOf source).trivia with
  | nil => rfl
  | cons x trivia ih =>
    cases hkind : x.kind.comment? with
    | none =>
      have hno : Comment.ofTrivia? x = none := by simp [Comment.ofTrivia?, hkind]
      rw [List.filter_cons_of_neg (by simp [hkind]), List.filterMap_cons_none hno, ih]
    | some kind =>
      have hsome : Comment.ofTrivia? x = some ⟨kind, x.text, x.span⟩ := by
        simp [Comment.ofTrivia?, hkind]
      rw [List.filter_cons_of_pos (by simp [hkind]), List.filterMap_cons_some hsome, List.map_cons,
        List.map_cons, ih, hkind]

/-- The comments in a tree are kept once and in order.  Those that a walk over the tree of a text
visits, read as their form, their text and their span, are a subsequence of the comments of the
text. -/
theorem comments_kept_once (source : String) :
    (parseSource source).file.toNode.nodes.filter (·.kind = .comment) =
      (parseSource source).file.comments.map (·.toNode) ∧
    ((parseSource source).file.comments.map fun c => (some c.kind, c.text, c.span)).Sublist
      ((parseSource source).stream.comments.map fun x => (x.kind.comment?, x.text, x.span)) := by
  obtain ⟨file, s, hrun, htrail⟩ := sourceFile_trail source
  obtain ⟨-, hsome⟩ := htrail.comments_sublist (inPlace_startOf source) (Nat.zero_le _)
  refine ⟨SourceFile.comments_toNode _, ?_⟩
  have hfile : (parseSource source).file.comments = Parser.commentsOf file.remarks := by
    rw [parseSource_eq hrun]
    rfl
  rw [hfile, comments_parseSource]
  exact (hsome.trans (Parser.commentsIn_sublist _ _ _)).map _

end FrontEnd
