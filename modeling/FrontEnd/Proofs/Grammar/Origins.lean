/-
Where the nodes of a tree come from.

Only blocks, structs and files have comments among their children.  Every block and every struct
in the tree of a text comes from a run that reads it, and that run is part of the run that reads
the text.

* `Leads` — one state comes before another in a run;
* `Origin` — what a node comes from, if it was made between two states;
* `blockOf_eq_ok`, `structDef_eq_ok` — what a run does that reads a block or a struct;
* `parseSource_origins` — the nodes of the tree of every text come from the run that reads it.

What stands among the children of a block or a struct can then be told from its own run, without
a look at what is around it.  Of what is around, only that the run goes on is left.
-/
import FrontEnd.Proofs.Grammar.Accounting
import FrontEnd.Proofs.Grammar.Closing
import FrontEnd.Proofs.Parser.Breaking

namespace FrontEnd

theorem Block.children_toNode (b : Block) :
    b.toNode.children = b.statements.map (·.toNode) := by
  obtain ⟨statements, span⟩ := b
  rw [Block.toNode, Stmt.toNodes_eq_map]

theorem Block.kind_toNode (b : Block) : b.toNode.kind = .block := by
  obtain ⟨statements, span⟩ := b
  rw [Block.toNode]

theorem Block.span_toNode (b : Block) : b.toNode.span = b.span := by
  obtain ⟨statements, span⟩ := b
  rw [Block.toNode]

/-- A statement without blocks that has a spelling is a phrase. -/
theorem Stmt.SpelledBy.isPhrase {stmt : Stmt} {ts : List Token} (h : stmt.SpelledBy ts)
    (hflat : stmt.holdsBlock = false) : stmt.isPhrase := by
  cases h with
  | conditional | whileLoop | forLoop => exact nomatch hflat
  | _ => rfl

namespace Parser

variable {α : Type} {T : List Token} {s s' s₁ : State}

/-! ### Runs -/

/-- The second state is reached from the first. -/
def Leads (s s' : State) : Prop := ∃ ts, Walks s ts s'

namespace Leads

theorem refl (s : State) : Leads s s := ⟨[], .refl s⟩

theorem trans {s'' : State} (h : Leads s s') (h' : Leads s' s'') : Leads s s'' := by
  obtain ⟨ts, hwalk⟩ := h
  obtain ⟨us, hwalk'⟩ := h'
  exact ⟨ts ++ us, hwalk.append hwalk'⟩

theorem commented (h : Leads s s') : Leads s s'.commented := by
  obtain ⟨ts, hwalk⟩ := h
  exact ⟨ts, hwalk.commented⟩

theorem inPlace (h : Leads s s') (hs : s.InPlace T) : s'.InPlace T := by
  obtain ⟨ts, hwalk⟩ := h
  exact hs.passes hwalk.toPasses

theorem eof (h : Leads s s') : s'.eof = s.eof := by
  obtain ⟨ts, hwalk⟩ := h
  exact hwalk.eof

theorem trivia (h : Leads s s') : s'.trivia = s.trivia := by
  obtain ⟨ts, hwalk⟩ := h
  exact hwalk.trivia

theorem clean (h : Leads s s') (hclean : s'.Clean) : s.Clean := by
  obtain ⟨ts, hwalk⟩ := h
  exact hwalk.clean hclean

theorem handed (h : Leads s s') (hs : s.InPlace T) (hhanded : s.Handed) : s'.Handed := by
  obtain ⟨ts, hwalk⟩ := h
  exact (hwalk.handed hs hhanded).1

/-- What has been recorded stays. -/
theorem reported (h : Leads s s') {d : Diagnostic} (hd : d ∈ s.diagnostics.reported) :
    d ∈ s'.diagnostics.reported := by
  obtain ⟨ts, hwalk⟩ := h
  obtain ⟨ds, hds, -⟩ := hwalk.diagnostics
  rw [hds]
  exact List.mem_append_left _ hd

end Leads

theorem leads_advance (h : s.current.kind ≠ .eof) : Leads s s.advance :=
  ⟨_, (reads_advance h).walks⟩

section

variable {p : Parser α} {V : α → List Token → Prop} {a : α}

theorem Works.leads {moves : Bool} (h : Works moves s p V) (hrun : p s = .ok a s') :
    Leads s s' := by
  obtain ⟨ts, hcross, -⟩ := h.of_ok hrun
  exact ⟨ts, hcross.toWalks⟩

theorem Meets.reads (h : Meets [] s p V) (hrun : p s = .ok a s') : ∃ ts, Reads s ts s' := by
  obtain ⟨ts, hread, -⟩ := h.of_ok hrun
  exact ⟨ts, hread⟩

theorem Meets.leads (h : Meets [] s p V) (hrun : p s = .ok a s') : Leads s s' :=
  h.works.leads hrun

end

/-- What holds of no items, and of one item with those behind it, holds of a repetition. -/
theorem manyWhile_induction {wanted : Kind → Bool} {item : Parser α} {as : List α}
    {motive : State → List α → State → Prop} (nil : ∀ s, motive s [] s)
    (cons : ∀ s a s₁ as s', wanted s.current.kind → item s = .ok a s₁ → motive s₁ as s' →
      motive s (a :: as) s')
    (hrun : manyWhile wanted item s = .ok as s') : motive s as s' := by
  induction hn : s.rest.length using Nat.strong_induction_on generalizing s as with
  | _ n ih =>
    rcases manyWhile_eq_ok hrun with ⟨-, rfl, rfl⟩ | ⟨hwanted, a, s₁, bs, rfl, hitem, hlt, hmore⟩
    · exact nil s'
    · exact cons s a s₁ bs s' hwanted hitem (ih _ (hn ▸ hlt) hmore rfl)

/-! ### Runs that read a block -/

/-- A block ends with its closing brace, or it is given up before another token. -/
theorem closeBlock_cases {start : Position} {depth : Nat} {statements : List Stmt} {b : Block}
    (hrun : closeBlock start depth statements s = .ok b s') :
    b.statements = statements ∧
      (s.current.kind = .symbol .closeCurly ∧ b.span = s.advance.spanFrom start ∧
          s' = s.advance ∨
        s.current.kind ≠ .symbol .closeCurly ∧ b.span = s.spanFrom start ∧
          s' = { s with
            depth := depth - 1
            diagnostics := s.diagnostics.push (s.notFound "block" (.symbol .closeCurly)) }) := by
  rw [closeBlock_run] at hrun
  split at hrun
  · next hclose =>
    obtain ⟨rfl, rfl⟩ := EStateM.Result.ok.inj hrun
    exact ⟨rfl, .inl ⟨hclose, rfl, rfl⟩⟩
  · next hclose =>
    obtain ⟨rfl, rfl⟩ := EStateM.Result.ok.inj hrun
    exact ⟨rfl, .inr ⟨hclose, rfl, rfl⟩⟩

theorem closeBlock_leads {start : Position} {depth : Nat} {statements : List Stmt} {b : Block}
    (hrun : closeBlock start depth statements s = .ok b s') : Leads s s' := by
  rcases (closeBlock_cases hrun).2 with ⟨hclose, -, rfl⟩ | ⟨-, -, rfl⟩
  · exact leads_advance (by simp [hclose])
  · exact ⟨[], ((Walks.refl s).note (located_notFound s _ _ [])).setDepth _⟩

/-- What a run does that reads a block. -/
theorem blockOf_eq_ok {inner : Parser Block} {b : Block}
    (hrun : blockOf Grammar.standard inner s = .ok b s') :
    s.current.kind = .symbol .openCurly ∧ ∃ items s₁,
      manyWhile inBlock (blockItemOf Grammar.standard inner (s.depth + 1)) s.advance.commented =
        .ok items s₁ ∧
      closeBlock s.position (s.depth + 1)
        (s.advance.comments.map Stmt.comment ++ items.flatten) s₁ = .ok b s' := by
  by_cases hopen : s.current.kind = .symbol .openCurly
  · rw [blockOf_run hopen] at hrun
    cases hitems : manyWhile inBlock (blockItemOf Grammar.standard inner (s.depth + 1))
        s.advance.commented with
    | error d s₁ => simp [hitems, Outcome.andThen] at hrun
    | ok items s₁ =>
      rw [hitems] at hrun
      exact ⟨hopen, items, s₁, rfl, hrun⟩
  · obtain ⟨brace, s₁, hbrace, -⟩ := bind_eq_ok hrun
    exact absurd (expect_eq_ok hbrace).1 hopen

/-! ### Origins -/

/-- What a node comes from that was made between the two states: a block or a struct from a run
that reads it; all others, files apart, have no comments among their children. -/
inductive Origin (s s' : State) : Node → Prop
  | plain {n : Node} (hkind : n.kind.isPlace = false)
    (h : ∀ c ∈ n.children, c.kind ≠ .comment) : Origin s s' n
  | block {s₁ s₂ : State} {b : Block} (hbefore : Leads s s₁)
    (hrun : block Grammar.standard s₁ = .ok b s₂) (hbehind : Leads s₂ s') : Origin s s' b.toNode
  | struct {s₁ s₂ : State} {d : StructDef} (hbefore : Leads s s₁)
    (hrun : structDef Grammar.standard s₁ = .ok d s₂) (hbehind : Leads s₂ s') :
    Origin s s' d.toNode
  | labelled {n : Node} (h : Origin s s' n) (label : Label) : Origin s s' (n.labelled label)

theorem Origin.mono {u u' : State} {n : Node} (h : Origin s s' n) (hbefore : Leads u s)
    (hbehind : Leads s' u') : Origin u u' n := by
  induction h with
  | plain hkind h => exact .plain hkind h
  | block h hrun h' => exact .block (hbefore.trans h) hrun (h'.trans hbehind)
  | struct h hrun h' => exact .struct (hbefore.trans h) hrun (h'.trans hbehind)
  | labelled _ label ih => exact .labelled ih label

/-- The node is no comment, and all nodes in it come from between the two states. -/
structure Part (s s' : State) (n : Node) : Prop where
  kind_ne : n.kind ≠ .comment
  origins : n.Everywhere (Origin s s')

namespace Part

variable {n : Node}

theorem mono {u u' : State} (h : Part s s' n) (hbefore : Leads u s) (hbehind : Leads s' u') :
    Part u u' n :=
  ⟨h.kind_ne, h.origins.imp fun _ hm => hm.mono hbefore hbehind⟩

theorem labelled (h : Part s s' n) (label : Label) : Part s s' (n.labelled label) :=
  ⟨h.kind_ne, h.origins.labelled fun hn => .labelled hn label⟩

theorem node (hkind : n.kind.isPhrase) (h : ∀ c ∈ n.children, Part s s' c) : Part s s' n := by
  have hplain : Origin s s' n :=
    .plain (NodeKind.isPhrase_iff.mp hkind).2 fun c hc => (h c hc).kind_ne
  exact ⟨NodeKind.ne_comment_of_isPhrase hkind, .mk hplain fun c hc => (h c hc).origins⟩

/-- A phrase comes from anywhere. -/
theorem phrase (h : n.Phrase) : Part s s' n := by
  induction h with
  | mk here _ ih => exact .node here ih

theorem error (span : Span) : Part s s' (errorNode span) :=
  ⟨by simp [errorNode], .mk (.plain rfl (by simp [errorNode])) (by simp [errorNode])⟩

end Part

theorem origins_comment (c : Comment) : c.toNode.Everywhere (Origin s s') :=
  .mk (.plain rfl (by simp [Comment.toNode])) (by simp [Comment.toNode])

/-- A node with the comments behind it. -/
theorem Part.withComments {n : Node} (h : Part s s₁ n) :
    ∀ m ∈ n :: s₁.comments.map (·.toNode), m.Everywhere (Origin s s₁.commented) := by
  intro m hm
  rcases List.mem_cons.mp hm with rfl | hm
  · exact (h.mono (.refl s) (Leads.refl s₁).commented).origins
  · obtain ⟨c, -, rfl⟩ := List.mem_map.mp hm
    exact origins_comment c

/-- Repetition: the nodes in all items come from the run that reads them. -/
theorem origins_manyWhile {wanted : Kind → Bool} {item : Parser α} {view : α → List Node}
    {as : List α}
    (hitem : ∀ s a s', wanted s.current.kind → item s = .ok a s' →
      Leads s s' ∧ ∀ n ∈ view a, n.Everywhere (Origin s s'))
    (hrun : manyWhile wanted item s = .ok as s') :
    Leads s s' ∧ ∀ n ∈ as.flatMap view, n.Everywhere (Origin s s') := by
  refine manyWhile_induction (motive := fun s as s' => Leads s s' ∧
    ∀ n ∈ as.flatMap view, n.Everywhere (Origin s s')) (fun s => ⟨.refl s, by simp⟩)
    (fun s a s₁ as s' hwanted ha hmore => ?_) hrun
  obtain ⟨hleads, hfirst⟩ := hitem s a s₁ hwanted ha
  obtain ⟨hrest, hmore⟩ := hmore
  refine ⟨hleads.trans hrest, fun n hn => ?_⟩
  rw [List.flatMap_cons, List.mem_append] at hn
  rcases hn with hn | hn
  · exact (hfirst n hn).imp fun _ hm => hm.mono (.refl s) hrest
  · exact (hmore n hn).imp fun _ hm => hm.mono hleads (.refl s')

/-! ### Statements -/

theorem part_flat {p : Parser Stmt} {form : StatementForm} {stmt : Stmt}
    (h : Meets [] s p Stmt.SpelledBy)
    (hform : Grammar.standard.statement? s.current.kind = some form)
    (hflat : form ≠ .conditional ∧ form ≠ .whileLoop ∧ form ≠ .forLoop)
    (hrun : p s = .ok stmt s') : Part s s' stmt.toNode := by
  obtain ⟨ts, hread, -, hspelled⟩ := h.of_ok hrun
  have hno := holdsBlock_eq_false hread.toPasses hspelled hform hflat
  exact .phrase (Stmt.phrase (hspelled.isPhrase hno))

section

-- The blocks inside a statement come from between the states where they start and end.
variable {inner : Parser Block} {stmt : Stmt}
  (hpart : ∀ s b s', inner s = .ok b s' → Part s s' b.toNode)
  (hworks : ∀ s, Works true s inner Block.SpelledBy)

include hpart hworks

theorem part_ifStmtOf (hrun : ifStmtOf Grammar.standard inner s = .ok stmt s') :
    Part s s' stmt.toNode := by
  obtain ⟨word, s₁, hword, hrun⟩ := bind_eq_ok hrun
  obtain ⟨condition, s₂, hcondition, hrun⟩ := bind_eq_ok hrun
  obtain ⟨ifBlock, s₃, hif, hrun⟩ := bind_eq_ok hrun
  obtain ⟨found, s₄, hfound, hrun⟩ := bind_eq_ok hrun
  have hto := ((works_expect (by decide)).leads hword).trans (meets_expression.leads hcondition)
  have hifPart := hpart s₂ ifBlock s₃ hif
  have helse := (meets_skip? (by decide)).leads hfound
  cases found with
  | false =>
    obtain ⟨rfl, rfl⟩ := EStateM.Result.ok.inj hrun
    have hfirst := (hifPart.mono hto helse).labelled .ifBlock
    rw [Stmt.toNode]
    exact .node rfl (by simp [Part.phrase condition.phrase, hfirst])
  | true =>
    obtain ⟨_, s₅, hsome, hrun⟩ := bind_eq_ok hrun
    rw [map_run] at hsome
    obtain ⟨elseBlock, s₆, hblock, hpure⟩ := bind_eq_ok hsome
    obtain ⟨rfl, rfl⟩ := EStateM.Result.ok.inj hpure
    obtain ⟨rfl, rfl⟩ := EStateM.Result.ok.inj hrun
    have hlast := (hworks s₄).leads hblock
    have hfirst := (hifPart.mono hto (helse.trans hlast)).labelled .ifBlock
    have hto' := (hto.trans ((hworks s₂).leads hif)).trans helse
    have hsecond := ((hpart s₄ elseBlock _ hblock).mono hto' (.refl _)).labelled .elseBlock
    rw [Stmt.toNode]
    exact .node rfl (by simp [Part.phrase condition.phrase, hfirst, hsecond])

omit hworks in
theorem part_whileStmtOf (hrun : whileStmtOf Grammar.standard inner s = .ok stmt s') :
    Part s s' stmt.toNode := by
  obtain ⟨word, s₁, hword, hrun⟩ := bind_eq_ok hrun
  obtain ⟨condition, s₂, hcondition, hrun⟩ := bind_eq_ok hrun
  obtain ⟨body, s₃, hbody, hrun⟩ := bind_eq_ok hrun
  obtain ⟨rfl, rfl⟩ := EStateM.Result.ok.inj hrun
  have hto := ((works_expect (by decide)).leads hword).trans (meets_expression.leads hcondition)
  have hbody := (hpart s₂ body s₃ hbody).mono hto (.refl s₃)
  rw [Stmt.toNode]
  exact .node rfl (by simp [Part.phrase condition.phrase, hbody])

omit hworks in
theorem part_forStmtOf (hrun : forStmtOf Grammar.standard inner s = .ok stmt s') :
    Part s s' stmt.toNode := by
  obtain ⟨word, s₁, hword, hrun⟩ := bind_eq_ok hrun
  obtain ⟨hasLet, s₂, hlet, hrun⟩ := bind_eq_ok hrun
  obtain ⟨binding, s₃, hbinding, hrun⟩ := bind_eq_ok hrun
  obtain ⟨inside, s₄, hinside, hrun⟩ := bind_eq_ok hrun
  obtain ⟨values, s₅, hvalues, hrun⟩ := bind_eq_ok hrun
  obtain ⟨body, s₆, hbody, hrun⟩ := bind_eq_ok hrun
  obtain ⟨rfl, rfl⟩ := EStateM.Result.ok.inj hrun
  have hname := ((works_expect (by decide)).leads hword).trans
    (((meets_skip? (by decide)).leads hlet).trans (meets_identifier.leads hbinding))
  have hto := hname.trans (((works_expect (by decide)).leads hinside).trans
    (meets_iterable.leads hvalues))
  have hbody := (hpart s₅ body s₆ hbody).mono hto (.refl s₆)
  rw [Stmt.toNode]
  exact .node rfl (by simp [Part.phrase binding.phrase, Part.phrase values.phrase, hbody])

theorem part_statementOf (hrun : statementOf Grammar.standard inner s = .ok stmt s') :
    Part s s' stmt.toNode := by
  rw [statementOf, kind_bind_run] at hrun
  cases hform : Grammar.standard.statement? s.current.kind with
  | none =>
    simp only [hform] at hrun
    exact nomatch hrun
  | some form =>
    simp only [hform] at hrun
    cases form with
    | returning => exact part_flat meets_returnStmt hform (by decide) hrun
    | declaration => exact part_flat meets_declarationStmt hform (by decide) hrun
    | conditional => exact part_ifStmtOf hpart hworks hrun
    | whileLoop => exact part_whileStmtOf hpart hrun
    | forLoop => exact part_forStmtOf hpart hrun
    | breakLoop => exact part_flat meets_breakStmt hform (by decide) hrun
    | continueLoop => exact part_flat meets_continueStmt hform (by decide) hrun
    | matching => exact part_flat meets_matchStmt hform (by decide) hrun
    | named => exact part_flat meets_namedStmt hform (by decide) hrun

/-! ### Blocks -/

/-- A statement of a block, read or skipped, and the comments behind it.  One that is skipped is
recorded. -/
theorem part_blockItemOf {depth : Nat} {items : List Stmt}
    (hrun : blockItemOf Grammar.standard inner depth s = .ok items s') :
    ∃ stmt s₁, items = stmt :: s₁.comments.map Stmt.comment ∧ s' = s₁.commented ∧
      Leads s s₁ ∧ Part s s₁ stmt.toNode ∧
      (s₁.Clean → statementOf Grammar.standard inner s = .ok stmt s₁) := by
  cases hstmt : statementOf Grammar.standard inner s with
  | ok stmt s₁ =>
    rw [blockItemOf_of_ok hstmt, withComments_run] at hrun
    obtain ⟨rfl, rfl⟩ := EStateM.Result.ok.inj hrun
    exact ⟨stmt, s₁, rfl, rfl, (works_statementOf hworks s).leads hstmt,
      part_statementOf hpart hworks hstmt, fun _ => rfl⟩
  | error d s₁ =>
    obtain ⟨ts, n, hcross, hd⟩ := (works_statementOf hworks s).of_error hstmt
    obtain ⟨us, s₂, hrecover, hread, -⟩ := recoverStatement_reads d depth s.index s.position s₁
    rw [blockItemOf_of_error hstmt, bind_of_ok hrecover, withComments_run] at hrun
    obtain ⟨rfl, rfl⟩ := EStateM.Result.ok.inj hrun
    refine ⟨_, s₂, rfl, rfl, ⟨_, (hcross.toWalks.note hd).append hread.walks⟩, ?_, fun hclean => ?_⟩
    · rw [Stmt.toNode]
      exact .error _
    · exact absurd (hread.walks.clean hclean) (not_clean_push s₁ d)

theorem origins_blockItems {depth : Nat} {items : List (List Stmt)}
    (hrun : manyWhile inBlock (blockItemOf Grammar.standard inner depth) s = .ok items s') :
    Leads s s' ∧ ∀ n ∈ items.flatMap (List.map (·.toNode)), n.Everywhere (Origin s s') := by
  refine origins_manyWhile (fun s items s' _ hitem => ?_) hrun
  obtain ⟨stmt, s₁, rfl, rfl, hleads, hstmt, -⟩ := part_blockItemOf hpart hworks hitem
  rw [List.map_cons, Stmt.map_toNode_comment]
  exact ⟨hleads.commented, hstmt.withComments⟩

/-- The nodes in the statements of a block come from the run that reads it. -/
theorem origins_blockOf {b : Block} (hrun : blockOf Grammar.standard inner s = .ok b s') :
    ∀ c ∈ b.toNode.children, c.Everywhere (Origin s s') := by
  obtain ⟨hopen, items, s₁, hitems, hclose⟩ := blockOf_eq_ok hrun
  obtain ⟨hleads, horigins⟩ := origins_blockItems hpart hworks hitems
  have hto : Leads s s.advance.commented := (leads_advance (by simp [hopen])).commented
  intro c hc
  rw [Block.children_toNode, (closeBlock_cases hclose).1, List.map_append,
    Stmt.map_toNode_comment, List.map_flatten, ← List.flatMap_def] at hc
  rcases List.mem_append.mp hc with hcomment | hc
  · obtain ⟨c, -, rfl⟩ := List.mem_map.mp hcomment
    exact origins_comment c
  · exact (horigins c hc).imp fun _ hn => hn.mono hto (closeBlock_leads hclose)

end

/-- The nodes in a block come from the run that reads it. -/
theorem part_block {b : Block} (hrun : block Grammar.standard s = .ok b s') :
    Part s s' b.toNode := by
  induction hn : s.rest.length using Nat.strong_induction_on generalizing s b s' with
  | _ n ih =>
    have hblock : Origin s s' b.toNode := .block (.refl s) hrun (.refl s')
    rw [block, nest_run] at hrun
    refine ⟨by simp [Block.kind_toNode], .mk hblock (origins_blockOf ?_ ?_ hrun)⟩
    · intro s₁ c s₂ hinner
      obtain ⟨hlt, hinner⟩ := guarded_eq_ok hinner
      exact ih _ (hn ▸ hlt) hinner rfl
    · exact fun s₁ => works_guarded fun _ => works_block s₁

/-! ### Definitions -/

theorem part_function {f : FunctionDef} (hrun : function Grammar.standard s = .ok f s') :
    Part s s' f.toNode := by
  obtain ⟨word, s₁, hword, hrun⟩ := bind_eq_ok hrun
  obtain ⟨name, s₂, hname, hrun⟩ := bind_eq_ok hrun
  obtain ⟨generic, s₃, hgeneric, hrun⟩ := bind_eq_ok hrun
  obtain ⟨parameters, s₄, hparameters, hrun⟩ := bind_eq_ok hrun
  obtain ⟨returnType, s₅, hreturn, hrun⟩ := bind_eq_ok hrun
  obtain ⟨body, s₆, hbody, hrun⟩ := bind_eq_ok hrun
  obtain ⟨rfl, rfl⟩ := EStateM.Result.ok.inj hrun
  have hhead := ((works_expect (by decide)).leads hword).trans
    ((meets_identifier.leads hname).trans (meets_genericClause?.leads hgeneric))
  have hto := hhead.trans ((meets_parameterList.leads hparameters).trans
    (meets_returnType?.leads hreturn))
  refine .node rfl fun n hn => ?_
  simp only [FunctionDef.toNode, List.mem_cons, List.mem_append, List.not_mem_nil, or_false] at hn
  rcases hn with rfl | ((hn | hn) | hn) | rfl
  · exact .phrase (name.phrase.labelled .name)
  · exact .phrase (phrase_genericNodes generic n hn)
  · exact .phrase (phrase_parameters parameters n hn)
  · exact .phrase (phrase_returnTypeNodes returnType n hn)
  · exact ((part_block hbody).mono hto (.refl s₆)).labelled .funcBlock

/-- Members of a struct, each with the comments behind it. -/
theorem origins_noted {wanted : Kind → Bool} {member : Parser α} {items : List (α × List Comment)}
    (wrap : α → Member)
    (hmember : ∀ s m s', member s = .ok m s' → Leads s s' ∧ Part s s' (wrap m).toNode)
    (hrun : manyWhile wanted (noted member) s = .ok items s') :
    Leads s s' ∧ ∀ n ∈ (memberRow wrap items).map (·.toNode), n.Everywhere (Origin s s') := by
  rw [memberRow, List.map_flatMap]
  refine origins_manyWhile (fun s item s' _ hitem => ?_) hrun
  obtain ⟨m, s₁, hm, hitem⟩ := bind_eq_ok hitem
  rw [bind_of_ok (takeComments_run s₁)] at hitem
  obtain ⟨rfl, rfl⟩ := EStateM.Result.ok.inj hitem
  obtain ⟨hleads, hpart⟩ := hmember s m s₁ hm
  rw [List.map_cons, List.map_map]
  exact ⟨hleads.commented, hpart.withComments⟩

/-- What a run does that reads a struct. -/
theorem structDef_eq_ok {d : StructDef} (hrun : structDef Grammar.standard s = .ok d s') :
    ∃ us s₁ s₂, Reads s us s₁ ∧ us ≠ [] ∧
      structMembers Grammar.standard s₁ = .ok (d.fields, d.methods, d.comments) s₂ ∧
      s₂.current.kind = .symbol .closeCurly ∧ d.span = s₂.advance.spanFrom s.position ∧
      s' = s₂.advance := by
  rw [structDef_eq] at hrun
  obtain ⟨word, s₁, hword, hrun⟩ := bind_eq_ok hrun
  obtain ⟨name, s₂, hname, hrun⟩ := bind_eq_ok hrun
  obtain ⟨generic, s₃, hgeneric, hrun⟩ := bind_eq_ok hrun
  obtain ⟨o, s₄, ho, hrun⟩ := bind_eq_ok hrun
  obtain ⟨members, s₅, hmembers, hrun⟩ := bind_eq_ok hrun
  obtain ⟨hclose, rfl, rfl⟩ := closeStruct_eq_ok hrun
  obtain ⟨hkind, rfl, rfl⟩ := expect_eq_ok hword
  obtain ⟨hopen, rfl, rfl⟩ := expect_eq_ok ho
  obtain ⟨ns, hreadName⟩ := meets_identifier.reads hname
  obtain ⟨gs, hreadGeneric⟩ := meets_genericClause?.reads hgeneric
  have hread := (reads_advance (by simp [hkind])).append (hreadName.append
    (hreadGeneric.append (reads_advance (by simp [hopen]))))
  exact ⟨_, s₃.advance, s₅, hread, by simp, hmembers, hclose, rfl, rfl⟩

theorem part_structDef {d : StructDef} (hrun : structDef Grammar.standard s = .ok d s') :
    Part s s' d.toNode := by
  have hstruct : Origin s s' d.toNode := .struct (.refl s) hrun (.refl s')
  refine ⟨by simp [StructDef.toNode], .mk hstruct fun n hn => ?_⟩
  obtain ⟨us, s₁, s₂, hread, -, hmembers, hclose, -, rfl⟩ := structDef_eq_ok hrun
  obtain ⟨fields, methods, s₃, hfields, hmethods, hmembers⟩ := structMembers_eq_ok hmembers
  obtain ⟨hbetween, -⟩ := origins_noted .field
    (fun s m s' hm => ⟨meets_parameter.leads hm, .phrase m.phrase⟩) hfields
  obtain ⟨-, horigins⟩ := origins_noted .method
    (fun s f s' hf => ⟨works_function.leads hf, part_function hf⟩) hmethods
  rw [d.children_toNode, List.mem_cons, List.mem_append] at hn
  rcases hn with rfl | hn | hn
  · exact (Part.phrase (d.name.phrase.labelled .name)).origins
  · exact (Part.phrase (phrase_genericNodes d.generic n hn)).origins
  · obtain ⟨m, hm, rfl⟩ := List.mem_map.mp hn
    cases m with
    | field p => exact (Part.phrase p.phrase).origins
    | comment c => exact origins_comment c
    | method f =>
      have hmethod : f ∈ methods.map (·.1) := by
        rw [← (Prod.mk.inj (Prod.mk.inj hmembers).2).1]
        simpa using (List.mergeSort_perm _ _).mem_iff.mp hm
      obtain ⟨item, hitem, rfl⟩ := List.mem_map.mp hmethod
      have hto : Leads s s₃.commented := (Leads.trans ⟨us, hread.walks⟩
        ((Leads.refl s₁).commented.trans hbetween)).commented
      refine (horigins _ ?_).imp fun _ hn => hn.mono hto (leads_advance (by simp [hclose]))
      exact List.mem_map_of_mem (List.mem_flatMap.mpr ⟨item, hitem, List.mem_cons_self⟩)

theorem part_definition {d : Definition} (hrun : definition Grammar.standard s = .ok d s') :
    Part s s' d.toNode := by
  rw [definition, kind_bind_run] at hrun
  cases hform : Grammar.standard.definition? s.current.kind with
  | none =>
    simp only [hform] at hrun
    cases hrun
  | some form =>
    simp only [hform] at hrun
    cases form with
    | use =>
      obtain ⟨u, s₁, hu, hrun⟩ := bind_eq_ok hrun
      obtain ⟨rfl, rfl⟩ := EStateM.Result.ok.inj hrun
      exact .phrase u.phrase
    | function =>
      obtain ⟨f, s₁, hf, hrun⟩ := bind_eq_ok hrun
      obtain ⟨rfl, rfl⟩ := EStateM.Result.ok.inj hrun
      exact part_function hf
    | external =>
      obtain ⟨f, s₁, hf, hrun⟩ := bind_eq_ok hrun
      obtain ⟨rfl, rfl⟩ := EStateM.Result.ok.inj hrun
      exact .phrase f.phrase
    | struct =>
      obtain ⟨d, s₁, hd, hrun⟩ := bind_eq_ok hrun
      obtain ⟨rfl, rfl⟩ := EStateM.Result.ok.inj hrun
      exact part_structDef hd

/-! ### Files -/

/-- A definition of a file, read or skipped, and the comments behind it.  One that is skipped is
recorded. -/
theorem part_fileItem {items : List Definition} (heof : s.current.kind ≠ .eof)
    (hrun : fileItem Grammar.standard s = .ok items s') :
    ∃ item s₁, items = item :: s₁.comments.map Definition.comment ∧ s' = s₁.commented ∧
      Leads s s₁ ∧ Part s s₁ item.toNode ∧
      (s₁.Clean → definition Grammar.standard { s with depth := 0 } = .ok item s₁) := by
  have hzero : Leads s { s with depth := 0 } := ⟨[], (Walks.refl s).setDepth 0⟩
  cases hdef : definition Grammar.standard { s with depth := 0 } with
  | ok item s₁ =>
    rw [fileItem_of_ok hdef, withFileComments_run] at hrun
    obtain ⟨rfl, rfl⟩ := EStateM.Result.ok.inj hrun
    exact ⟨item, s₁, rfl, rfl, hzero.trans (works_definition.leads hdef),
      (part_definition hdef).mono hzero (.refl s₁), fun _ => rfl⟩
  | error d s₁ =>
    obtain ⟨ts, n, hcross, hd⟩ := works_definition.of_error hdef
    have hwalk : Walks s ts s₁ := hcross.toWalks.of_depth
    obtain ⟨s₂, us, hrecover, hread, -⟩ := recoverDefinition_reads hwalk.toPasses heof d
    rw [fileItem_of_error hdef, bind_of_ok hrecover, withFileComments_run] at hrun
    obtain ⟨rfl, rfl⟩ := EStateM.Result.ok.inj hrun
    refine ⟨_, s₂, rfl, rfl, ⟨_, (hwalk.note hd).append hread.walks⟩, .error _, fun hclean => ?_⟩
    exact absurd (hread.walks.clean hclean) (not_clean_push s₁ d)

theorem origins_fileItems {items : List (List Definition)}
    (hrun : manyWhile (· ≠ .eof) (fileItem Grammar.standard) s = .ok items s') :
    Leads s s' ∧ ∀ n ∈ items.flatMap (List.map (·.toNode)), n.Everywhere (Origin s s') := by
  refine origins_manyWhile (fun s items s' heof hitem => ?_) hrun
  obtain ⟨item, s₁, rfl, rfl, hleads, hpart, -⟩ := part_fileItem (of_decide_eq_true heof) hitem
  rw [List.map_cons, List.map_map]
  exact ⟨hleads.commented, hpart.withComments⟩

end Parser

/-- The nodes in the tree of every text come from the run that reads it. -/
theorem parseSource_origins (source : String) :
    ∃ file s, Parser.sourceFile Grammar.standard (startOf source) = .ok file s ∧
      Parser.Leads (startOf source) s ∧
      ∀ n ∈ file.toNode.children, n.Everywhere (Parser.Origin (startOf source) s) := by
  obtain ⟨items, s, -, hitems, -⟩ := Parser.fileItems_total (startOf source).commented
  obtain ⟨hleads, horigins⟩ := Parser.origins_fileItems hitems
  have hleading := (Parser.Leads.refl (startOf source)).commented
  refine ⟨_, s, Parser.sourceFile_run hitems, hleading.trans hleads, fun n hn => ?_⟩
  rw [SourceFile.toNode, List.map_append, List.map_map, List.map_flatten, ← List.flatMap_def] at hn
  rcases List.mem_append.mp hn with hcomment | hn
  · obtain ⟨c, -, rfl⟩ := List.mem_map.mp hcomment
    exact Parser.origins_comment c
  · exact (horigins n hn).imp fun _ hm => hm.mono hleading (.refl s)

end FrontEnd
