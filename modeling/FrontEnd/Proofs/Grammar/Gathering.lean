/-
Which comments are kept.

A comment stands before one token, the first that starts behind it.  Where nothing is wrong with a
text, this token decides whether the comment is a node of the tree:

* `Node.gathers` — the token is the first of a definition, statement, field or method that stands
  in the node, or it ends the node;
* `gathers_block`, `gathers_structDef` — a block and a struct hold just the comments before such
  tokens;
* `comments_gathered` — so the comments in the tree of a text are those before tokens that a file,
  a block or a struct gathers comments at.

A comment in the middle of a construct is passed over.  When comments are next asked for, a token
behind it has been consumed, and what stands before that token is never looked at again.
-/
import FrontEnd.Proofs.Grammar.Finishing
import FrontEnd.Proofs.Grammar.Housing
import Mathlib.Data.List.Sort

namespace FrontEnd

/-! ### Where comments are gathered -/

/-- What a file, a block or a struct is made of: definitions, statements, fields and methods. -/
def Node.entries (n : Node) : List Node :=
  match n.kind with
  | .sourceFile | .block => n.children.filter (·.kind ≠ .comment)
  | .structDefinition =>
    n.children.filter fun c => c.kind = .parameter ∨ c.kind = .functionDefinition
  | _ => []

/-- The token ends the node.  A file ends with the end of the input, a block or a struct with its
closing brace. -/
def Node.endsWith (n : Node) (t : Token) : Bool :=
  match n.kind with
  | .sourceFile => t.kind = .eof
  | .block | .structDefinition =>
    t.kind = .symbol .closeCurly && t.span.stop.offset = n.span.stop.offset
  | _ => false

/-- Comments before the token are gathered in the node. -/
def Node.gathers (n : Node) (t : Token) : Bool :=
  n.entries.any (·.span.start.offset = t.span.start.offset) || n.endsWith t

/-- The token behind a piece of trivia. -/
def TokenStream.next? (s : TokenStream) (x : Trivia) : Option Token :=
  s.tokens.find? (x.span.stop.offset ≤ ·.span.start.offset)

/-- The piece of trivia stands before a token that some node gathers comments at. -/
def ParsedFile.gathers (p : ParsedFile) (x : Trivia) : Bool :=
  match p.stream.next? x with
  | none => false
  | some t => p.file.toNode.nodes.any (·.gathers t)

theorem Node.gathers_iff {n : Node} {ns : List Node} {t : Token}
    (h : n.entries = ns.filter (·.kind ≠ .comment)) :
    n.gathers t ↔ Parser.Entered ns t.span.start.offset ∨ n.endsWith t := by
  simp [Node.gathers, h, Parser.Entered]

theorem Block.entries_toNode (b : Block) :
    b.toNode.entries = b.toNode.children.filter (·.kind ≠ .comment) := by
  rw [Node.entries, b.kind_toNode]

/-- Fields and methods stand in a struct, and besides them and its header there are only
comments. -/
theorem StructDef.entries_toNode (d : StructDef) :
    d.toNode.entries = (d.members.map (·.toNode)).filter (·.kind ≠ .comment) := by
  have hkind : d.toNode.kind = .structDefinition := rfl
  have hgeneric : (genericNodes d.generic).filter (fun c =>
      c.kind = .parameter ∨ c.kind = .functionDefinition) = [] := by
    refine List.filter_eq_nil_iff.mpr fun c hc => ?_
    obtain ⟨type, -, rfl⟩ := List.mem_map.mp hc
    cases type <;> simp [TypeExpr.toNode]
  have hmembers : ∀ m : Member, (decide (m.toNode.kind = .parameter ∨
      m.toNode.kind = .functionDefinition)) = decide (m.toNode.kind ≠ .comment) := by
    intro m
    cases m <;> rfl
  rw [Node.entries, hkind]
  simp only [d.children_toNode]
  rw [List.filter_cons_of_neg (by simp [Identifier.toNode, Node.labelled]), List.filter_append,
    hgeneric, List.nil_append, List.filter_map, List.filter_map]
  congr 1
  exact List.filter_congr fun m _ => hmembers m

theorem StructDef.remarked_children (d : StructDef) (span : Span) :
    Parser.Remarked d.toNode.children span ↔
      Parser.Remarked (d.members.map (·.toNode)) span := by
  have hheader : ¬ Parser.Remarked
      (d.name.toNode.labelled .name :: genericNodes d.generic) span := by
    refine Parser.not_remarked fun n hn => NodeKind.ne_comment_of_isPhrase ?_
    rcases List.mem_cons.mp hn with rfl | hn
    · rfl
    · exact (phrase_genericNodes d.generic n hn).here
  rw [d.children_toNode, ← List.cons_append, Parser.remarked_append]
  exact or_iff_right hheader

theorem Node.gathers_eq_false {n : Node} (h : n.kind.isPlace = false) (t : Token) :
    n.gathers t = false := by
  unfold Node.gathers Node.entries Node.endsWith
  cases hkind : n.kind <;> rw [hkind] at h <;> first | rfl | exact nomatch h

namespace Parser

variable {α : Type} {T : List Token} {s s' : State} {x : Trivia} {t : Token}

/-- The state belongs to a run over a text with the tokens `T`, where `t` is the token behind the
comment `x`. -/
structure Setting (T : List Token) (x : Trivia) (t : Token) (s : State) : Prop where
  inPlace : s.InPlace T
  handed : s.Handed
  clear : Clear T s.trivia
  mem : x ∈ s.trivia
  comment : x.kind.comment?.isSome
  follows : Follows (T ++ [s.eof]) x t

theorem Setting.leads (h : Setting T x t s) (hleads : Leads s s') : Setting T x t s' := by
  obtain ⟨hs, hhanded, hclear, hx, hcomment, ht⟩ := h
  refine ⟨hleads.inPlace hs, hleads.handed hs hhanded, ?_, ?_, hcomment, ?_⟩
  · rwa [hleads.trivia]
  · rwa [hleads.trivia]
  · rwa [hleads.eof]

/-- The comments before and in a row are those before its nodes and before the token that it ends
at. -/
theorem Setting.led_iff {ns : List Node} (h : Setting T x t s) (hfresh : s.Fresh)
    (hrow : Row s.commented ns s') :
    Remarked (s.comments.map (·.toNode) ++ ns) x.span ↔
      Entered (s.comments.map (·.toNode) ++ ns) t.span.start.offset ∨
        t.span.start.offset = s'.position.offset :=
  hrow.led_iff h.inPlace hfresh h.clear h.mem h.comment h.follows

/-- No other token starts where the next one does. -/
theorem Setting.next_iff (h : Setting T x t s) :
    t.span.start.offset = s.position.offset ↔ t = s.current := by
  constructor
  · exact eq_of_key_eq h.inPlace.arranged.pairwise_start h.follows.mem h.inPlace.current_mem
  · rintro rfl
    rfl

/-- If the next token is a closing brace, no other one ends where it does. -/
theorem Setting.closing_iff (h : Setting T x t s) (hclose : s.current.kind = .symbol .closeCurly) :
    t.span.start.offset = s.position.offset ↔
      t.kind = .symbol .closeCurly ∧ t.span.stop.offset = s.advance.reached := by
  have hmem : ∀ u ∈ T ++ [s.eof], u.kind = .symbol .closeCurly → u ∈ T := by
    intro u hu hkind
    refine (List.mem_append.mp hu).resolve_right fun hlast => ?_
    rw [List.mem_singleton.mp hlast, s.eof_kind] at hkind
    exact nomatch hkind
  rw [h.next_iff, reached_advance (by simp [hclose])]
  constructor
  · rintro rfl
    exact ⟨hclose, rfl⟩
  · rintro ⟨hkind, hstop⟩
    have ht := hmem t h.follows.mem hkind
    have hcurrent := hmem s.current h.inPlace.current_mem hclose
    exact eq_of_key_eq h.inPlace.arranged.pairwise_stop ht hcurrent hstop

/-- If no token is left, the token behind the comment is the next one if it is the end. -/
theorem Setting.ending_iff (h : Setting T x t s) (hproper : ∀ u ∈ T, u.kind ≠ .eof)
    (heof : s.current.kind = .eof) :
    t.span.start.offset = s.position.offset ↔ t.kind = .eof := by
  have hlast : ∀ u ∈ T ++ [s.eof], u.kind = .eof → u = s.eof := by
    intro u hu hkind
    refine List.mem_singleton.mp ((List.mem_append.mp hu).resolve_left fun hmem => ?_)
    exact hproper u hmem hkind
  rw [h.next_iff, hlast s.current h.inPlace.current_mem heof]
  constructor
  · rintro rfl
    exact s.eof_kind
  · exact hlast t h.follows.mem

/-! ### Rows -/

/-- What a parser makes of the tokens from the next one on, if it reads tokens at its end. -/
theorem entry_of_ok {p : Parser α} {a : α} (view : α → Node) (hs : s.InPlace T)
    (hhanded : s.Handed) (hlays : Lays T s p fun a ts _ => Heads T (view a) ts)
    (hfinishes : Finishes s p) (hrun : p s = .ok a s') (hclean : s'.Clean) :
    Entry s (view a) s' := by
  obtain ⟨ts, hpass, hheads⟩ := hlays hs a s' hrun
  refine ⟨hheads.kind_ne_comment, ?_, ⟨ts, hpass⟩, (hfinishes a s' hrun hclean).fresh hs hhanded⟩
  cases ts with
  | nil => exact absurd rfl hheads.ne_nil
  | cons t ts => rw [hheads.start_eq, State.position, current_of_rest hpass.rest]

/-- Repetition: items that are read with the comments behind them make a row. -/
theorem row_manyWhile {wanted : Kind → Bool} {item : Parser α} {view : α → List Node}
    {as : List α}
    (hitem : ∀ s a s', wanted s.current.kind → item s = .ok a s' →
      ∃ n s₁, view a = n :: s₁.comments.map (·.toNode) ∧ s' = s₁.commented ∧ Leads s s₁ ∧
        (s.InPlace T → s.Handed → s₁.Clean → Entry s n s₁))
    (hrun : manyWhile wanted item s = .ok as s') :
    Leads s s' ∧ (s.InPlace T → s.Handed → s'.Clean → Row s (as.flatMap view) s') := by
  refine manyWhile_induction (motive := fun s as s' => Leads s s' ∧
    (s.InPlace T → s.Handed → s'.Clean → Row s (as.flatMap view) s'))
    (fun s => ⟨.refl s, fun _ _ _ => .nil s⟩) (fun s a s₁ as s' hwanted ha hmore => ?_) hrun
  obtain ⟨n, u, hview, rfl, hleads, hentry⟩ := hitem s a s₁ hwanted ha
  obtain ⟨hrest, hrow⟩ := hmore
  refine ⟨hleads.commented.trans hrest, fun hs hhanded hclean => ?_⟩
  rw [List.flatMap_cons, hview, List.cons_append]
  have hcommented := hleads.commented
  refine .cons (hentry hs hhanded (hrest.clean hclean)) ?_
  exact hrow (hcommented.inPlace hs) (hcommented.handed hs hhanded) hclean

theorem row_blockItems {depth : Nat} {items : List (List Stmt)}
    (hrun : manyWhile inBlock (blockItemOf Grammar.standard (block Grammar.standard) depth) s =
      .ok items s') :
    Leads s s' ∧ (s.InPlace T → s.Handed → s'.Clean →
      Row s (items.flatMap (List.map (·.toNode))) s') := by
  refine row_manyWhile (fun s items s' _ hitem => ?_) hrun
  obtain ⟨stmt, s₁, rfl, rfl, hleads, -, hstmt⟩ :=
    part_blockItemOf (fun _ _ _ => part_block) works_block hitem
  refine ⟨stmt.toNode, s₁, ?_, rfl, hleads, fun hs hhanded hclean => ?_⟩
  · rw [List.map_cons, Stmt.map_toNode_comment]
  · have hlays := (lays_statementOf (T := T) lays_block s).mono fun _ _ _ h => h.heads
    exact entry_of_ok (·.toNode) hs hhanded hlays
      (finishes_statementOf finishes_block works_block s) (hstmt hclean) hclean

theorem row_noted {wanted : Kind → Bool} {member : Parser α} {items : List (α × List Comment)}
    (wrap : α → Member)
    (hlays : ∀ s, Lays T s member fun m ts _ => Heads T (wrap m).toNode ts)
    (hleads : ∀ s m s', member s = .ok m s' → Leads s s') (hfinishes : ∀ s, Finishes s member)
    (hrun : manyWhile wanted (noted member) s = .ok items s') :
    Leads s s' ∧ (s.InPlace T → s.Handed → s'.Clean →
      Row s ((memberRow wrap items).map (·.toNode)) s') := by
  rw [memberRow, List.map_flatMap]
  refine row_manyWhile (fun s item s' _ hitem => ?_) hrun
  obtain ⟨m, s₁, hm, hitem⟩ := bind_eq_ok hitem
  rw [bind_of_ok (takeComments_run s₁)] at hitem
  obtain ⟨rfl, rfl⟩ := EStateM.Result.ok.inj hitem
  refine ⟨(wrap m).toNode, s₁, ?_, rfl, hleads s m s₁ hm, fun hs hhanded hclean => ?_⟩
  · rw [List.map_cons, List.map_map]
    rfl
  · exact entry_of_ok (fun m => (wrap m).toNode) hs hhanded (hlays s) (hfinishes s) hm hclean

theorem row_fileItems {items : List (List Definition)}
    (hrun : manyWhile (· ≠ .eof) (fileItem Grammar.standard) s = .ok items s') :
    Leads s s' ∧ (s.InPlace T → s.Handed → s'.Clean →
      Row s (items.flatMap (List.map (·.toNode))) s') := by
  refine row_manyWhile (fun s items s' heof hitem => ?_) hrun
  obtain ⟨item, s₁, rfl, rfl, hleads, -, hdef⟩ := part_fileItem (of_decide_eq_true heof) hitem
  refine ⟨item.toNode, s₁, ?_, rfl, hleads, fun hs hhanded hclean => ?_⟩
  · rw [List.map_cons, List.map_map]
    rfl
  · have hzero : Leads s { s with depth := 0 } := ⟨[], (Walks.refl s).setDepth 0⟩
    have hentry := entry_of_ok (·.toNode) (hzero.inPlace hs) (hzero.handed hs hhanded)
      ((lays_definition _).mono fun _ _ _ h => h.heads) (finishes_definition _) (hdef hclean) hclean
    obtain ⟨ts, hpass⟩ := hleads
    exact ⟨hentry.kind_ne, hentry.start_eq, ⟨ts, hpass.toPasses⟩, hentry.fresh⟩

/-! ### Blocks and structs -/

/-- A block holds just the comments that it gathers. -/
theorem gathers_block {b : Block} (h : Setting T x t s)
    (hrun : block Grammar.standard s = .ok b s') (hclean : s'.Clean) :
    Remarked b.toNode.children x.span ↔ b.toNode.gathers t := by
  rw [Recursion.block.eq_body ()] at hrun
  obtain ⟨hopen, items, s₁, hitems, hclose⟩ := blockOf_eq_ok hrun
  obtain ⟨hright, hspan, rfl⟩ := closeBlock_closed hclose hclean
  have hproper : s.current.kind ≠ .eof := by simp [hopen]
  have hproper' : s₁.current.kind ≠ .eof := by simp [hright]
  have hbrace := leads_advance hproper
  obtain ⟨hleads, hrow⟩ := row_blockItems hitems
  have hfirst := h.leads hbrace.commented
  have hrow := hrow hfirst.inPlace hfirst.handed ((leads_advance hproper').clean hclean)
  have hiff := (h.leads hbrace).led_iff ((ends_advance hproper).fresh h.inPlace h.handed) hrow
  have hchildren : b.toNode.children =
      s.advance.comments.map (·.toNode) ++ items.flatMap (List.map (·.toNode)) := by
    rw [Block.children_toNode, (closeBlock_cases hclose).1, List.map_append,
      Stmt.map_toNode_comment, List.map_flatten, ← List.flatMap_def]
  obtain ⟨ts, hwalk⟩ := hbrace.commented.trans hleads
  have hstop : b.toNode.span.stop.offset = s₁.advance.reached := by
    rw [Block.span_toNode, hspan]
    exact (h.inPlace.spanFrom_offsets (hwalk.toPasses.append (passes_advance hproper'))
      (by simp)).2
  have hlast := (h.leads ⟨ts, hwalk⟩).closing_iff hright
  rw [Node.gathers_iff b.entries_toNode, hchildren, hiff, hlast, ← hstop]
  simp [Node.endsWith, Block.kind_toNode]

/-- The members of a struct, and the comments between them, make a row. -/
theorem row_structMembers {d : StructDef} (hs : s.InPlace T) (hhanded : s.Handed)
    (hrun : structMembers Grammar.standard s = .ok (d.fields, d.methods, d.comments) s')
    (hclean : s'.Clean) :
    ∃ ns, d.members.map (·.toNode) = s.comments.map (·.toNode) ++ ns ∧ Row s.commented ns s' := by
  obtain ⟨fields, methods, s₁, ts, hfields, hmethods, -, -, hd, hnodes, hsolid⟩ :=
    structMembers_rows hs hrun
  obtain ⟨hleads, hfieldRow⟩ := row_noted .field
    (fun s => meets_parameter.lays.mono fun _ _ _ h => h.heads)
    (fun _ _ _ => meets_parameter.leads) finishes_parameter hfields
  obtain ⟨hleads', hmethodRow⟩ := row_noted .method
    (fun s => (lays_function s).mono fun _ _ _ h => h.heads)
    (fun _ _ _ => works_function.leads) finishes_function hmethods
  have hfirst := (Leads.refl s).commented
  have hsecond := (hfirst.trans hleads).commented
  have hbetween : s₁.commented.Clean := hleads'.clean hclean
  refine ⟨(memberRow .field fields).map (·.toNode) ++ (memberRow .method methods).map (·.toNode),
    ?_, ?_⟩
  · rw [members_eq_structRow hd hnodes hsolid, structRow, List.map_append, List.map_append,
      List.map_map, List.append_assoc]
    rfl
  · refine (hfieldRow (hfirst.inPlace hs) (hfirst.handed hs hhanded) hbetween).append (.again ?_)
    exact hmethodRow (hsecond.inPlace hs) (hsecond.handed hs hhanded) hclean

/-- A struct holds just the comments that it gathers. -/
theorem gathers_structDef {d : StructDef} (h : Setting T x t s)
    (hrun : structDef Grammar.standard s = .ok d s') (hclean : s'.Clean) :
    Remarked d.toNode.children x.span ↔ d.toNode.gathers t := by
  obtain ⟨us, s₁, s₂, hread, hne, hmembers, hright, hspan, rfl⟩ := structDef_eq_ok hrun
  have hproper : s₂.current.kind ≠ .eof := by simp [hright]
  have hfirst : Setting T x t s₁ := h.leads ⟨us, hread.walks⟩
  obtain ⟨ns, hns, hrow⟩ := row_structMembers hfirst.inPlace hfirst.handed hmembers
    ((leads_advance hproper).clean hclean)
  have hiff := hfirst.led_iff (hread.fresh h.inPlace h.handed hne) hrow
  obtain ⟨ts, hwalk⟩ := works_structMembers.leads hmembers
  have hstop : d.toNode.span.stop.offset = s₂.advance.reached := by
    show d.span.stop.offset = _
    rw [hspan]
    exact (h.inPlace.spanFrom_offsets ((hread.toPasses.append hwalk.toPasses).append
      (passes_advance hproper)) (by simp)).2
  have hlast := (hfirst.leads ⟨ts, hwalk⟩).closing_iff hright
  rw [Node.gathers_iff d.entries_toNode, d.remarked_children, hns, hiff, hlast, ← hstop]
  simp [Node.endsWith, StructDef.toNode]

/-- Whatever a node comes from, it holds just the comments that it gathers. -/
theorem Origin.gathers {n : Node} (h : Origin s s' n) (hs : Setting T x t s) (hclean : s'.Clean) :
    Remarked n.children x.span ↔ n.gathers t := by
  induction h with
  | @plain n hkind h =>
    rw [n.gathers_eq_false hkind]
    exact iff_of_false (not_remarked h) (by simp)
  | block hbefore hrun hbehind =>
    exact gathers_block (hs.leads hbefore) hrun (hbehind.clean hclean)
  | struct hbefore hrun hbehind =>
    exact gathers_structDef (hs.leads hbefore) hrun (hbehind.clean hclean)
  | labelled _ _ ih => exact ih

end Parser

/-! ### Texts -/

theorem exists_next? {source : String} {x : Trivia}
    (hx : x ∈ (parseSource source).stream.comments) :
    ∃ t, (parseSource source).stream.next? x = some t := by
  have hmem := (List.mem_filter.mp hx).1
  rw [trivia_parseSource] at hmem
  refine Option.isSome_iff_exists.mp (List.find?_isSome.mpr ⟨(startOf source).eof, ?_, ?_⟩)
  · simp [tokens_parseSource]
  · -- Every piece of trivia ends within the text.
    have hle := (offset_of_mem_placedTrivia (fun l hl => (lexeme_proper hl).1) hmem).2.2
    rw [lexemesText_lexemes] at hle
    exact decide_eq_true hle

theorem setting_startOf {source : String} {x : Trivia} {t : Token}
    (hx : x ∈ (parseSource source).stream.comments)
    (ht : (parseSource source).stream.next? x = some t) :
    Parser.Setting (startOf source).rest x t (startOf source) := by
  have hplace := inPlace_startOf source
  obtain ⟨hmem, hcomment⟩ := List.mem_filter.mp hx
  rw [trivia_parseSource] at hmem
  rw [TokenStream.next?, tokens_parseSource] at ht
  refine ⟨hplace, Nat.zero_le _, fun y hy u hu hle => ?_, hmem, hcomment, ?_⟩
  · exact placedTrivia_clear (fun l hl => (lexeme_proper hl).1) hy hu hle
  · exact follows_of_find? (hplace.arranged.pairwise_start.imp Nat.le_of_lt) ht

/-- If nothing is wrong with a text, every node of its tree holds just the comments that it
gathers. -/
theorem everywhere_gathers {source : String} {x : Trivia} {t : Token}
    (h : (parseSource source).diagnostics = [])
    (hs : Parser.Setting (startOf source).rest x t (startOf source)) :
    (parseSource source).file.toNode.Everywhere fun n =>
      Parser.Remarked n.children x.span ↔ n.gathers t := by
  obtain ⟨items, s, -, hitems, -, heof, -⟩ := Parser.fileItems_total (startOf source).commented
  have hrun := Parser.sourceFile_run hitems
  rw [parseSource_eq hrun] at h ⊢
  have hclean : s.Clean := (List.append_eq_nil_iff.mp (Diagnostics.sorted_eq_nil.mp h)).2
  obtain ⟨file, s', hrun', hleads, horigins⟩ := parseSource_origins source
  obtain ⟨rfl, rfl⟩ := EStateM.Result.ok.inj (hrun.symm.trans hrun')
  refine .mk ?_ fun n hn => (horigins n hn).imp fun m hm => hm.gathers hs hclean
  have hfirst := hs.leads (Parser.Leads.refl _).commented
  have hrow := (Parser.row_fileItems hitems).2 hfirst.inPlace hfirst.handed hclean
  have hiff := hs.led_iff (Nat.zero_le _) hrow
  have hlast := (hs.leads hleads).ending_iff (fun u hu => kind_ne_eof_of_mem_placedTokens hu) heof
  have hchildren : (SourceFile.mk
      ((startOf source).comments.map Definition.comment ++ items.flatten)
      ⟨Position.start, s.current.span.stop⟩).toNode.children =
        (startOf source).comments.map (·.toNode) ++ items.flatMap (List.map (·.toNode)) := by
    rw [SourceFile.toNode, List.map_append, List.map_map, List.map_flatten, ← List.flatMap_def]
    rfl
  rw [Node.gathers_iff rfl, hchildren, hiff, hlast]
  simp [Node.endsWith, SourceFile.toNode]

/-- If nothing is wrong with a text, a comment of it is a node just if it is gathered. -/
theorem comment_kept_iff {source : String} {x : Trivia}
    (h : (parseSource source).diagnostics = [])
    (hx : x ∈ (parseSource source).stream.comments) :
    (∃ c ∈ (parseSource source).file.comments, c.span = x.span) ↔
      (parseSource source).gathers x := by
  obtain ⟨t, ht⟩ := exists_next? hx
  have hall := everywhere_gathers h (setting_startOf hx ht)
  have hnodes : (∃ c ∈ (parseSource source).file.comments, c.span = x.span) ↔
      Parser.Remarked (parseSource source).file.toNode.nodes x.span := by
    rw [← Parser.remarked_comments, ← SourceFile.comments_toNode]
    simp [Parser.Remarked, and_assoc]
  have hbelow : Parser.Remarked (parseSource source).file.toNode.nodes x.span ↔
      ∃ n ∈ (parseSource source).file.toNode.nodes, Parser.Remarked n.children x.span := by
    constructor
    · rintro ⟨c, hc, hkind, hspan⟩
      rcases (Node.mem_nodes_iff _).mp hc with rfl | ⟨n, hn, hchild⟩
      · cases hkind
      · exact ⟨n, hn, c, hchild, hkind, hspan⟩
    · rintro ⟨n, hn, c, hchild, hkind, hspan⟩
      exact ⟨c, (Node.mem_nodes_iff _).mpr (.inr ⟨n, hn, hchild⟩), hkind, hspan⟩
  rw [hnodes, hbelow, ParsedFile.gathers, ht]
  simp only [List.any_eq_true]
  exact exists_congr fun n => and_congr_right fun hn => hall.of_mem_nodes hn

/-- The comments of every text start one behind the other. -/
theorem pairwise_comments (source : String) :
    ((startOf source).trivia.filterMap Comment.ofTrivia?).Pairwise
      fun c d => c.span.start.offset < d.span.start.offset := by
  have harranged := (inPlace_startOf source).arranged
  refine List.Pairwise.filterMap _ (fun x y hlt c hc d hd => ?_)
    (harranged.trivia_pairwise.imp_of_mem fun hx _ hle =>
      Nat.lt_of_lt_of_le (harranged.trivia_lt _ hx) hle)
  rw [Parser.span_of_ofTrivia? hc, Parser.span_of_ofTrivia? hd]
  exact hlt

theorem sublist_comments (source : String) :
    (parseSource source).file.comments.Sublist
      ((startOf source).trivia.filterMap Comment.ofTrivia?) := by
  obtain ⟨file, s, hrun, htrail⟩ := sourceFile_trail source
  obtain ⟨-, hsome⟩ := htrail.comments_sublist (inPlace_startOf source) (Nat.zero_le _)
  rw [parseSource_eq hrun]
  exact hsome.trans (Parser.commentsIn_sublist _ _ _)

/-- If nothing is wrong with a text, the comments of its tree are those of the text that are
gathered, in the same order. -/
theorem comments_eq_gathered {source : String} (h : (parseSource source).diagnostics = []) :
    (parseSource source).file.comments =
      ((parseSource source).stream.comments.filter (parseSource source).gathers).filterMap
        Comment.ofTrivia? := by
  have hsome := sublist_comments source
  have hall := pairwise_comments source
  have hgathered : (((parseSource source).stream.comments.filter
      (parseSource source).gathers).filterMap Comment.ofTrivia?).Sublist
        ((startOf source).trivia.filterMap Comment.ofTrivia?) := by
    rw [← trivia_parseSource]
    exact (List.filter_sublist.trans List.filter_sublist).filterMap _
  have : Std.Irrefl fun c d : Comment => c.span.start.offset < d.span.start.offset :=
    ⟨fun _ => Nat.lt_irrefl _⟩
  have : Std.Antisymm fun c d : Comment => c.span.start.offset < d.span.start.offset :=
    ⟨fun _ _ hlt hgt => absurd hgt (Nat.lt_asymm hlt)⟩
  refine (hall.sublist hsome).eq_of_mem_iff (hall.sublist hgathered) fun c => ?_
  constructor
  · intro hc
    obtain ⟨x, hx, hof⟩ := List.mem_filterMap.mp (hsome.subset hc)
    obtain ⟨kind, hkind, -⟩ := Option.map_eq_some_iff.mp hof
    have hcomment : x ∈ (parseSource source).stream.comments := by
      rw [TokenStream.comments, trivia_parseSource]
      exact List.mem_filter.mpr ⟨hx, by simp [hkind]⟩
    refine List.mem_filterMap.mpr ⟨x, List.mem_filter.mpr ⟨hcomment, ?_⟩, hof⟩
    exact (comment_kept_iff h hcomment).mp ⟨c, hc, Parser.span_of_ofTrivia? hof⟩
  · intro hc
    obtain ⟨x, hx, hof⟩ := List.mem_filterMap.mp hc
    obtain ⟨hcomment, hgathers⟩ := List.mem_filter.mp hx
    obtain ⟨d, hd, hspan⟩ := (comment_kept_iff h hcomment).mpr hgathers
    have hsame : d = c := eq_of_key_eq hall (hsome.subset hd) (hgathered.subset hc)
      (by rw [hspan, Parser.span_of_ofTrivia? hof])
    exact hsame ▸ hd

/-- The nodes of a file that are comments with one span, and the comments with that span. -/
theorem SourceFile.countP_comments (f : SourceFile) (span : Span) :
    f.toNode.nodes.countP (fun n => n.kind = .comment ∧ n.span = span) =
      (f.comments.map (·.span)).count span := by
  have hsplit : ∀ n : Node, decide (n.kind = .comment ∧ n.span = span) =
      (n.span == span && decide (n.kind = .comment)) := by
    intro n
    rw [Bool.decide_and, Bool.and_comm]
    rfl
  simp only [hsplit]
  rw [← List.countP_filter, f.comments_toNode, List.count, List.countP_map, List.countP_map]
  rfl

/-- Which comments are kept.  If nothing is wrong with a text, the comments that a walk over its
tree visits are those of the text before certain tokens: before the end of the input, before the
first token of a definition, statement, field or method, and before the brace that closes a block
or a struct.  Each of them is visited once, and no other comment is. -/
theorem comments_gathered (source : String) (h : (parseSource source).diagnostics = []) :
    (parseSource source).file.toNode.nodes.filter (·.kind = .comment) =
      (((parseSource source).stream.comments.filter (parseSource source).gathers).filterMap
        Comment.ofTrivia?).map (·.toNode) ∧
    ∀ x ∈ (parseSource source).stream.comments,
      (parseSource source).file.toNode.nodes.countP
          (fun n => n.kind = .comment ∧ n.span = x.span) =
        if (parseSource source).gathers x then 1 else 0 := by
  constructor
  · rw [SourceFile.comments_toNode, comments_eq_gathered h]
  · intro x hx
    have hnodup : ((parseSource source).file.comments.map (·.span)).Nodup := by
      refine List.pairwise_map.mpr (((pairwise_comments source).sublist
        (sublist_comments source)).imp fun hlt hsame => ?_)
      rw [hsame] at hlt
      exact Nat.lt_irrefl _ hlt
    rw [SourceFile.countP_comments, hnodup.count]
    refine if_congr ?_ rfl rfl
    rw [← comment_kept_iff h hx, List.mem_map]

/-- Comments before a definition, a statement, the braces that close a struct and a block, and the
end of the input; and others in two headers, in an expression and before `else`. -/
def remarkedText : String :=
  "// a\nstruct /* b */ S \x7b /* c */ \x7d fn f(/* d */) \x7b // e\n" ++
  "if x \x7b y = /* f */ 1; // g\n \x7d /* h */ else \x7b \x7d \x7d // i"

theorem comments_gathered_remarkedText :
    (parseSource remarkedText).diagnostics = [] ∧
      (parseSource remarkedText).stream.comments.map (parseSource remarkedText).gathers =
        [true, false, true, false, true, false, true, false, true] ∧
      ∀ x ∈ (parseSource remarkedText).stream.comments,
        (parseSource remarkedText).file.toNode.nodes.countP
            (fun n => n.kind = .comment ∧ n.span = x.span) =
          if (parseSource remarkedText).gathers x then 1 else 0 := by
  have h : (parseSource remarkedText).diagnostics = [] := by decide +kernel
  exact ⟨h, by decide +kernel, (comments_gathered remarkedText h).2⟩

end FrontEnd
