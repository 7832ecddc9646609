/-
The same block but for one statement.

A statement `x` in a block, which may be deep inside others, lacks its semicolon.  Production by
production, what is read before it is the same, and so is what is read behind it:

* `breaks_blockItemOf` — the item of a block that is the statement, or has it inside;
* `breaks_statementOf` — a statement with blocks, one of which has it inside;
* `breaks_block` — a block, by how many tokens are left.
-/
import FrontEnd.Proofs.Grammar.Closing
import FrontEnd.Proofs.Grammar.Recovering
import FrontEnd.Proofs.Grammar.Recursion

namespace FrontEnd.Parser

variable {α β : Type} {s t : State} {x : Stmt} {d : Diagnostic}

/-! ### Parts of a production -/

/-- Something behind a mark, if the mark is next, and what comes after it. -/
theorem resumes_skipThen {k : Kind} {R : β → β → Prop} {p : Parser α} {f f' : Option α → Parser β}
    (hp : Resumes d Eq p p) (hf : ∀ o, Resumes d R (f o) (f' o)) :
    Resumes d R (skip? k >>= fun found => if found then (some <$> p) >>= f else pure none >>= f)
      (skip? k >>= fun found => if found then (some <$> p) >>= f' else pure none >>= f') := by
  refine Resumes.bind (R := Eq) (Shifts.resumes (fun _ => id) fun _ => shifts_skip? k) ?_
  rintro found _ rfl
  cases found with
  | true =>
    simp only [if_true, bind_map_left]
    exact hp.bind fun a _ h => h ▸ hf (some a)
  | false => exact hf none

theorem tidies_skip? {k : Kind} (hk : k.isPlain) (hopen : k ∉ hanging) :
    Tidies (skip? k) :=
  tidies_of_meets (fun _ => meets_skip? hk) fun _ _ h => .optional h hopen

theorem tidies_skipThen {k : Kind} {p : Parser α} {f : Option α → Parser β}
    (hk : k.isPlain) (hopen : k ∉ hanging) (hp : Tidies p)
    (hf : ∀ o, Tidies (f o)) :
    Tidies (skip? k >>= fun found =>
      if found then (some <$> p) >>= f else pure none >>= f) := by
  refine (tidies_skip? hk hopen).bind fun found => ?_
  cases found with
  | true =>
    simp only [if_true, bind_map_left]
    exact hp.bind fun a => hf (some a)
  | false => exact hf none

theorem tidies_expect {k : Kind} {production : String} (hk : k ≠ .eof) (hopen : k ∉ hanging) :
    Tidies (expect k production) := by
  intro s a t hrun
  obtain ⟨hkind, rfl, rfl⟩ := expect_eq_ok hrun
  exact ⟨[s.current], (reads_advance (hkind ▸ hk)).walks, fun _ => tidy_singleton hkind hopen⟩

theorem tidies_identifier (production : String) : Tidies (identifier production) :=
  tidies_of_meets (fun _ => meets_identifier) fun name ts h => by
    cases h
    exact name.tidy_token

theorem tidies_expression (power : BindingPower) : Tidies (expression Grammar.standard power) :=
  tidies_of_meets (fun _ => meets_expression) fun _ _ h => h.tidy

theorem tidies_block : Tidies (block Grammar.standard) :=
  tidies_of_works works_block fun _ _ h => h.tidy

theorem resumes_block : Resumes d Eq (block Grammar.standard) (block Grammar.standard) :=
  Shifts.resumes (fun f => Block.relocate f) fun _ => shifts_block

/-! ### Statements with blocks -/

section

variable {n : Nat}

-- The blocks inside the statement are broken where they hold `x`.
variable (hinner : ∀ s, s.rest.length < n →
  Breaks x true s (block Grammar.standard) (Block.Holds x) (Block.Swaps x))

include hinner

theorem breaks_whileStmtOf (hs : s.rest.length < n) :
    Breaks x true s (whileStmtOf Grammar.standard (block Grammar.standard)) (Stmt.Within x)
      (Stmt.Swaps x) := by
  refine .after (fun _ _ => mirrors_expect _ _) (tidies_expect (by decide) (by decide))
    fun word s₁ _ _ h₁ => ?_
  refine .after (fun _ _ => mirrors_expression _) (tidies_expression _)
    fun condition s₂ _ _ h₂ => ?_
  have hlt : s₂.rest.length < n := by
    have := (h₁.append h₂).toPasses.length_rest_le
    omega
  refine (hinner s₂ hlt).spanned (fun body span hx => ?_) fun _ _ _ _ h => .whileBody h
  cases hx with
  | whileBody h => exact h

theorem breaks_forStmtOf (hs : s.rest.length < n) :
    Breaks x true s (forStmtOf Grammar.standard (block Grammar.standard)) (Stmt.Within x)
      (Stmt.Swaps x) := by
  refine .after (fun _ _ => mirrors_expect _ _) (tidies_expect (by decide) (by decide))
    fun word s₁ _ _ h₁ => ?_
  refine .after (fun _ hsure => mirrors_skip? (.inr hsure)) (tidies_skip? (by decide) (by decide))
    fun hasLet s₂ _ _ h₂ => ?_
  refine .after (fun _ _ => mirrors_identifier _) (tidies_identifier _)
    fun binding s₃ _ _ h₃ => ?_
  refine .after (fun _ _ => mirrors_expect _ _) (tidies_expect (by decide) (by decide))
    fun _ s₄ _ _ h₄ => ?_
  refine .after (fun _ hsure => .of_sure hsure (mirrors_iterable.mono fun _ _ _ h => h.2))
    (tidies_of_meets (fun _ => meets_iterable) fun _ _ h => h.tidy) fun values s₅ _ _ h₅ => ?_
  have hlt : s₅.rest.length < n := by
    have := (h₁.append (h₂.append (h₃.append (h₄.append h₅)))).toPasses.length_rest_le
    omega
  refine (hinner s₅ hlt).spanned (fun body span hx => ?_) fun _ _ _ _ h => .forBody h
  cases hx with
  | forBody h => exact h

/-- What an `if` statement does behind its first block. -/
def elseOf (inner : Parser Block) (start : Position) (condition : Expr) (ifBlock : Block) :
    Parser Stmt := do
  let elseBlock ← if ← skip? Keyword.elseKw then some <$> inner else pure none
  return .conditional condition ifBlock elseBlock (← spanFrom start)

omit hinner in
/-- The blocks of an `if` statement. -/
theorem elseOf_eq_ok {inner : Parser Block} {start : Position} {condition : Expr} {ifBlock : Block}
    {stmt : Stmt} (hrun : elseOf inner start condition ifBlock s = .ok stmt t) :
    ∃ elseBlock span, stmt = .conditional condition ifBlock elseBlock span := by
  obtain ⟨found, s₁, -, hrun⟩ := bind_eq_ok hrun
  cases found with
  | true =>
    obtain ⟨elseBlock, s₂, -, hrun⟩ := bind_eq_ok hrun
    obtain ⟨rfl, -⟩ := EStateM.Result.ok.inj hrun
    exact ⟨_, _, rfl⟩
  | false =>
    obtain ⟨rfl, -⟩ := EStateM.Result.ok.inj hrun
    exact ⟨_, _, rfl⟩

/-- The statement stands in the second block of an `if` statement. -/
theorem breaks_elseOf (start : Position) (condition : Expr) (ifBlock : Block)
    (hs : s.rest.length < n) :
    Breaks x true s (elseOf (block Grammar.standard) start condition ifBlock)
      (fun stmt => ∃ elseBlock span, stmt = .conditional condition ifBlock (some elseBlock) span ∧
        elseBlock.Holds x) (Stmt.Swaps x) := by
  refine .after (fun _ _ => mirrors_skip? (.inl (by decide)))
    (tidies_skip? (by decide) (by decide)) fun found s₁ _ _ h₁ => ?_
  cases found with
  | true =>
    have hlt : s₁.rest.length < n := by
      have := h₁.toPasses.length_rest_le
      omega
    simp only [if_true, bind_map_left]
    refine (hinner s₁ hlt).spanned (fun body span hx => ?_) fun _ _ _ _ h => .elseBlock h
    obtain ⟨elseBlock, span', hstmt, hx⟩ := hx
    cases hstmt
    exact hx
  | false =>
    refine breaks_never (fun stmt t hrun => ?_) fun stmt t hrun _ => ?_
    · obtain ⟨-, rfl⟩ := EStateM.Result.ok.inj hrun
      exact ⟨[], .refl s₁⟩
    · obtain ⟨rfl, -⟩ := EStateM.Result.ok.inj hrun
      rintro ⟨elseBlock, span, hstmt, -⟩
      exact nomatch hstmt

theorem breaks_ifStmtOf (hs : s.rest.length < n) :
    Breaks x true s (ifStmtOf Grammar.standard (block Grammar.standard)) (Stmt.Within x)
      (Stmt.Swaps x) := by
  refine .after (fun _ _ => mirrors_expect _ _) (tidies_expect (by decide) (by decide))
    fun word s₁ _ _ h₁ => ?_
  refine .after (fun _ _ => mirrors_expression _) (tidies_expression _)
    fun condition s₂ _ _ h₂ => ?_
  have hlt : s₂.rest.length < n := by
    have := (h₁.append h₂).toPasses.length_rest_le
    omega
  show Breaks x true s₂
    (block Grammar.standard >>= elseOf (block Grammar.standard) word.span.start condition) _ _
  have hif : Breaks x true s₂
      (block Grammar.standard >>= elseOf (block Grammar.standard) word.span.start condition)
      (fun stmt => ∃ ifBlock elseBlock span, stmt = .conditional condition ifBlock elseBlock span ∧
        ifBlock.Holds x) (Stmt.Swaps x) := by
    refine (hinner s₂ hlt).andThen (fun ifBlock t stmt u _ hrun hx => ?_) (fun _ => ?_)
      fun d ys ifBlock ifBlock' h => ?_
    · obtain ⟨ifBlock', elseBlock', span', hstmt, hx⟩ := hx
      obtain ⟨elseBlock, span, rfl⟩ := elseOf_eq_ok hrun
      cases hstmt
      exact hx
    · exact tidies_skipThen (by decide) (by decide) tidies_block fun _ => tidies_spanned _
    · exact resumes_skipThen resumes_block fun _ => resumes_spanned fun _ => .ifBlock h
  have helse : Breaks x true s₂
      (block Grammar.standard >>= elseOf (block Grammar.standard) word.span.start condition)
      (fun stmt => ∃ ifBlock elseBlock span,
        stmt = .conditional condition ifBlock (some elseBlock) span ∧ elseBlock.Holds x)
      (Stmt.Swaps x) := by
    refine .after (fun _ hsure => mirrors_block hsure) tidies_block fun ifBlock s₃ _ _ h₃ => ?_
    have hlt' : s₃.rest.length < n := by
      have := h₃.toPasses.length_rest_le
      omega
    refine (breaks_elseOf hinner word.span.start condition ifBlock hlt').mono fun stmt u hrun hx => ?_
    obtain ⟨ifBlock', elseBlock, span, rfl, hx⟩ := hx
    obtain ⟨elseBlock', span', hstmt⟩ := elseOf_eq_ok hrun
    cases hstmt
    exact ⟨elseBlock, span, rfl, hx⟩
  refine (hif.or helse).mono fun stmt u hrun hx => ?_
  obtain ⟨ifBlock, s₃, -, hrun⟩ := bind_eq_ok hrun
  obtain ⟨elseBlock, span, rfl⟩ := elseOf_eq_ok hrun
  cases hx with
  | ifBlock h => exact .inl ⟨_, _, _, rfl, h⟩
  | elseBlock h => exact .inr ⟨_, _, _, rfl, h⟩

omit hinner in
/-- A statement with blocks starts with one of three words. -/
theorem Stmt.head_of_within {stmt : Stmt} {ts : List Token} (h : x.Within stmt)
    (hspelled : stmt.SpelledBy ts) : ∃ word us, ts = word :: us ∧
      word.kind ∈ [Keyword.ifKw, .whileKw, .forKw].map Kind.keyword := by
  cases h with
  | ifBlock | elseBlock =>
    cases hspelled with
    | conditional hword => exact ⟨_, _, rfl, by simp [hword]⟩
  | whileBody =>
    cases hspelled with
    | whileLoop hword => exact ⟨_, _, rfl, by simp [hword]⟩
  | forBody =>
    cases hspelled with
    | forLoop _ hword => exact ⟨_, _, rfl, by simp [hword]⟩

theorem breaks_statementOf (hs : s.rest.length < n) :
    Breaks x true s (statementOf Grammar.standard (block Grammar.standard)) (Stmt.Within x)
      (Stmt.Swaps x) := by
  by_cases hword : s.current.kind ∈ [Keyword.ifKw, .whileKw, .forKw].map Kind.keyword
  · simp only [List.map_cons, List.map_nil, List.mem_cons, List.not_mem_nil, or_false] at hword
    refine breaks_kind ?_
    rcases hword with hkind | hkind | hkind <;> rw [hkind]
    · exact breaks_ifStmtOf hinner hs
    · exact breaks_whileStmtOf hinner hs
    · exact breaks_forStmtOf hinner hs
  · -- No other statement has a block.
    have hworks := works_statementOf works_block s
    refine breaks_never (fun stmt t hrun => ?_) fun stmt t hrun hclean hx => ?_
    · obtain ⟨ts, hcross, -⟩ := hworks.of_ok hrun
      exact ⟨ts, hcross.toWalks⟩
    · obtain ⟨ts, hcross, -, hspelled⟩ := hworks.of_ok hrun
      obtain ⟨word, us, rfl, hmem⟩ := Stmt.head_of_within hx (hspelled hclean)
      rw [current_of_rest hcross.rest] at hword
      exact hword hmem

/-! ### Blocks -/

omit hinner in
/-- An item of a block of which nothing was recorded is a statement with the comments behind it. -/
theorem blockItemOf_eq_ok {inner : Parser Block} (hworks : ∀ s, Works true s inner Block.SpelledBy)
    {items : List Stmt} (hin : inBlock s.current.kind)
    (hrun : blockItemOf Grammar.standard inner s.depth s = .ok items t) (hclean : t.Clean) :
    ∃ stmt u, statementOf Grammar.standard inner s = .ok stmt u ∧ u.Clean ∧
      items = stmt :: u.comments.map Stmt.comment ∧ t = u.commented := by
  have hproper := (inBlock_iff.mp hin).2
  have hclose := (inBlock_iff.mp hin).1
  cases hstmt : statementOf Grammar.standard inner s with
  | ok stmt u =>
    rw [blockItemOf_of_ok hstmt, withComments_run] at hrun
    obtain ⟨rfl, rfl⟩ := EStateM.Result.ok.inj hrun
    exact ⟨stmt, u, rfl, hclean, rfl, rfl⟩
  | error d u =>
    -- A failure is recorded.
    obtain ⟨ts, n, hcross, hd⟩ := (works_statementOf hworks s).of_error hstmt
    have heof : s.current.kind ≠ .eof := by
      intro heof
      exact hproper (by simp [Kind.endsBlocks, heof])
    obtain ⟨stmt, us, v, hrecover, -, -, hdiag⟩ := recoverStatement_crosses hcross hd heof hclose
    rw [blockItemOf_of_error hstmt, bind_of_ok hrecover, withComments_run] at hrun
    obtain ⟨-, rfl⟩ := EStateM.Result.ok.inj hrun
    exact absurd hclean (not_clean_of_push hdiag)

omit hinner in
/-- An item of a block walks over tokens, and the block goes on inside as many braces. -/
theorem blockItemOf_tidies {depth : Nat} {items : List Stmt} (hdepth : s.depth = depth)
    (hin : inBlock s.current.kind)
    (hrun : blockItemOf Grammar.standard (block Grammar.standard) depth s = .ok items t) :
    ∃ ts, Walks s ts t ∧ (t.Clean → Tidy ts) ∧ (inBlock t.current.kind → t.depth = depth) := by
  subst hdepth
  have hproper : ∀ {k : Kind}, inBlock k → k ≠ .eof := by
    rintro k hk rfl
    exact absurd hk (by decide)
  obtain ⟨items', t', ts, htotal, hcross, -, -, hspelled⟩ :=
    blockItem_total works_block (hproper hin) (inBlock_iff.mp hin).1
  obtain ⟨rfl, rfl⟩ := EStateM.Result.ok.inj (htotal.symm.trans hrun)
  exact ⟨ts, hcross.toWalks, fun hclean => .each (hspelled hclean) fun _ _ _ h => h.tidy,
    fun hin' => hcross.depth.resolve_right (hproper hin')⟩

omit hinner in
theorem Stmt.heldAmong_comments {stmt : Stmt} {comments : List Comment}
    (hform : x.endsWithSemicolon) (h : Stmt.HeldAmong x (stmt :: comments.map Stmt.comment)) :
    x = stmt ∨ x.Within stmt := by
  rcases h with h | ⟨other, hmem, h⟩
  · rcases List.mem_cons.mp h with rfl | h
    · exact .inl rfl
    · obtain ⟨c, -, rfl⟩ := List.mem_map.mp h
      exact absurd hform (by simp [Stmt.endsWithSemicolon])
  · rcases List.mem_cons.mp hmem with rfl | hmem
    · exact .inr h
    · obtain ⟨c, -, rfl⟩ := List.mem_map.mp hmem
      cases h

variable (hform : x.endsWithSemicolon)

include hform

/-- The statement is an item of the block, or stands inside of one. -/
theorem breaks_blockItemOf (hin : inBlock s.current.kind) (hs : s.rest.length < n) :
    Breaks x false s (blockItemOf Grammar.standard (block Grammar.standard) s.depth)
      (Stmt.HeldAmong x) (Stmt.SwapsAmong x) := by
  have hbreaks := breaks_statementOf hinner hs
  refine ⟨fun items t hrun => ?_, fun items t hrun hclean hx => ?_,
    fun g s' items t hfacing hrun hclean hx => ?_⟩
  · exact (blockItemOf_tidies rfl hin hrun).imp fun _ h => h.1
  · obtain ⟨stmt, u, hstmt, hcleanStmt, rfl, rfl⟩ := blockItemOf_eq_ok works_block hin hrun hclean
    rcases Stmt.heldAmong_comments hform hx with rfl | hx
    · exact (visits_statementOf hstmt hform).commented
    · exact (hbreaks.place stmt u hstmt hcleanStmt hx).weaken.commented
  · obtain ⟨stmt, u, hstmt, hcleanStmt, rfl, rfl⟩ := blockItemOf_eq_ok works_block hin hrun hclean
    rcases Stmt.heldAmong_comments hform hx with rfl | hx
    · obtain ⟨production, t', hrun', ht⟩ :=
        blockItemOf_recovers hfacing hform works_block hstmt hcleanStmt
      exact ⟨production, _, t', hrun', .here [] _, ht⟩
    · obtain ⟨production, stmt', u', hstmt', hswaps, hu⟩ :=
        hbreaks.run g s' stmt u hfacing hstmt hcleanStmt hx
      obtain ⟨comments, t', hcomments, rfl, ht⟩ :=
        resumes_takeComments u u' _ _ hu (takeComments_run u)
      refine ⟨production, stmt' :: u.comments.map Stmt.comment, t', ?_, .inside [] _ hswaps,
        ht.weaken⟩
      rw [blockItemOf_of_ok hstmt']
      exact bind_of_ok hcomments

omit hinner hform in
/-- Behind the statement the items of the block are the same. -/
theorem resumed_blockItems {depth : Nat} {s s' : State} {items : List (List Stmt)}
    (hdepth : inBlock s.current.kind → s.depth = depth) (h : Resumed d false s s')
    (hrun : manyWhile inBlock (blockItemOf Grammar.standard (block Grammar.standard) depth) s =
      .ok items t) (hclean : t.Clean) :
    ∃ t', manyWhile inBlock (blockItemOf Grammar.standard (block Grammar.standard) depth) s' =
      .ok items t' ∧ Resumed d false t t' := by
  have hitem : ∀ φ : Front, Shifts φ true (List.map (Stmt.relocate φ.move))
      (blockItemOf Grammar.standard (block Grammar.standard) depth)
      (blockItemOf Grammar.standard (block Grammar.standard) depth) :=
    fun _ => shifts_blockItemOf shifts_block depth
  rcases manyWhile_eq_ok hrun with ⟨hstop, rfl, rfl⟩ | ⟨hin, a, u, as, rfl, hfirst, hlt, hmore⟩
  · exact ⟨s', manyWhile_of_not (by rwa [h.current]) _, h⟩
  · -- The first item is a statement, which consumes a token before it takes a span.
    obtain rfl := hdepth hin
    have hcleanFirst : u.Clean := by
      obtain ⟨_, -, -, hu⟩ := blockItemOf_tidies rfl hin hfirst
      obtain ⟨_, hwalk⟩ := manyWhile_walks (I := fun v => v.depth = s.depth)
        (fun _ _ _ hdepth hin hrun => blockItemOf_tidies hdepth hin hrun) hu hmore
      exact hwalk.clean hclean
    obtain ⟨stmt, v, hstmt, -, rfl, rfl⟩ := blockItemOf_eq_ok works_block hin hfirst hcleanFirst
    obtain ⟨v', hstmt', hv⟩ := Shifts.run_resumed (fun f => Stmt.relocate f)
      (fun _ => shifts_statementOf shifts_block) h hstmt
    obtain ⟨comments, u', hcomments, rfl, hu⟩ :=
      resumes_takeComments v v' _ _ hv (takeComments_run v)
    obtain ⟨t', hmore', ht⟩ := Shifts.run_resumed (fun f => List.map (List.map (Stmt.relocate f)))
      (fun φ => shifts_manyWhile (hitem φ)) hu hmore
    refine ⟨t', manyWhile_cons (by rwa [h.current]) ?_ ?_ hmore', ht.weaken⟩
    · rw [blockItemOf_of_ok hstmt']
      exact bind_of_ok hcomments
    · rwa [hu.rest, h.rest]

/-- The items of a block, up to its closing brace. -/
theorem breaks_blockItems {depth : Nat} (hdepth : s.depth = depth) (hs : s.rest.length < n) :
    Breaks x false s (manyWhile inBlock (blockItemOf Grammar.standard (block Grammar.standard) depth))
      (fun items => ∃ item ∈ items, Stmt.HeldAmong x item)
      (fun ys => Altered (Stmt.SwapsAmong x ys)) := by
  have hitem : ∀ s : State, s.depth = depth ∧ s.rest.length < n → inBlock s.current.kind →
      Breaks x false s (blockItemOf Grammar.standard (block Grammar.standard) depth)
        (Stmt.HeldAmong x) (Stmt.SwapsAmong x) := by
    rintro s ⟨rfl, hs⟩ hin
    exact breaks_blockItemOf hinner hform hin hs
  refine breaks_manyWhile (I := fun s => s.depth = depth ∧ s.rest.length < n) ?_ ?_
    (fun _ hsure => mirrors_blockItemOf hsure (mirrors_block hsure) depth) ?_ hitem
    (fun d s s' items t hs h hrun hclean => resumed_blockItems (fun hin => (hs hin).1) h hrun hclean)
    s fun _ => ⟨hdepth, hs⟩
  · rintro g s s' hfacing ⟨hdepth, hs⟩
    have hlength := hfacing.length_rest
    exact ⟨hfacing.paired.depth.trans hdepth, by omega⟩
  · rintro s items t ⟨hdepth, hs⟩ hin hrun
    obtain ⟨ts, hwalk, htidy, hnext⟩ := blockItemOf_tidies hdepth hin hrun
    have hle := hwalk.toPasses.length_rest_le
    exact ⟨ts, hwalk, htidy, fun hin' => ⟨hnext hin', by omega⟩⟩
  · -- An item of which nothing was recorded starts as a statement does.
    rintro - s items t ⟨rfl, -⟩ hin hrun hclean
    obtain ⟨stmt, u, hstmt, -⟩ := blockItemOf_eq_ok works_block hin hrun hclean
    exact follower_of_statementOf hstmt

omit hinner hform in
theorem tidies_closeBlock (start : Position) (depth : Nat) (statements : List Stmt) :
    Tidies (closeBlock start depth statements) := by
  intro s b t hrun
  rw [closeBlock_run] at hrun
  split at hrun
  · next hclose =>
    obtain ⟨-, rfl⟩ := EStateM.Result.ok.inj hrun
    have hread := reads_advance (show s.current.kind ≠ .eof by rw [hclose]; simp)
    exact ⟨[s.current], hread.walks, fun _ => tidy_singleton hclose (by decide)⟩
  · obtain ⟨-, rfl⟩ := EStateM.Result.ok.inj hrun
    have hwalk := (Walks.refl s).note (located_notFound s "block" (.symbol .closeCurly) [])
    exact ⟨[], hwalk.setDepth _, fun hclean => absurd hclean (not_clean_push s _)⟩

omit hinner in
theorem Stmt.exists_heldAmong {comments : List Comment} {items : List (List Stmt)}
    (h : Stmt.HeldAmong x (comments.map Stmt.comment ++ items.flatten)) :
    ∃ item ∈ items, Stmt.HeldAmong x item := by
  have hcomment : ∀ stmt ∈ comments.map Stmt.comment, x ≠ stmt ∧ ¬ x.Within stmt := by
    intro stmt hmem
    obtain ⟨c, -, rfl⟩ := List.mem_map.mp hmem
    refine ⟨?_, fun h => nomatch h⟩
    rintro rfl
    exact absurd hform (by simp [Stmt.endsWithSemicolon])
  rcases h with h | ⟨stmt, hmem, h⟩
  · rcases List.mem_append.mp h with h | h
    · exact absurd rfl (hcomment x h).1
    · obtain ⟨item, hitem, h⟩ := List.mem_flatten.mp h
      exact ⟨item, hitem, .inl h⟩
  · rcases List.mem_append.mp hmem with hmem | hmem
    · exact absurd h (hcomment stmt hmem).2
    · obtain ⟨item, hitem, hmem⟩ := List.mem_flatten.mp hmem
      exact ⟨item, hitem, .inr ⟨stmt, hmem, h⟩⟩

omit hinner in
/-- The closing brace behind the items of a block.  It can follow a statement, and is the first
token that both runs consume behind it. -/
theorem breaks_closeBlock {p : Parser (List (List Stmt))} (start : Position) (depth : Nat)
    (leading : List Comment)
    (hp : Breaks x false s p (fun items => ∃ item ∈ items, Stmt.HeldAmong x item)
      (fun ys => Altered (Stmt.SwapsAmong x ys))) :
    Breaks x true s
      (p >>= fun items => closeBlock start depth (leading.map Stmt.comment ++ items.flatten))
      (Block.Holds x) (Block.Swaps x) := by
  refine ⟨fun b u hrun => ?_, fun b u hrun hclean hx => ?_, fun g s' b u hs hrun hclean hx => ?_⟩
  all_goals
    obtain ⟨items, t, hitems, hthen⟩ := bind_eq_ok hrun
    obtain ⟨us, hwalk, -⟩ := tidies_closeBlock _ _ _ t b u hthen
  · obtain ⟨ts, hwalk'⟩ := hp.walks items t hitems
    exact ⟨ts ++ us, hwalk'.append hwalk⟩
  all_goals
    obtain ⟨hclose, rfl, rfl⟩ := closeBlock_eq_ok hthen hclean.unbroken
    have hheld := Stmt.exists_heldAmong hform ((Block.holds_iff x).mp hx)
  · refine (hp.place items t hitems (hwalk.clean hclean) hheld).append hwalk.toPasses fun _ => ?_
    rw [hclose]
    decide
  · obtain ⟨production, items', t', hitems', hswaps, ht⟩ :=
      hp.run g s' items t hs hitems (hwalk.clean hclean) hheld
    have hadvance := ht.advance (by rw [hclose]; simp)
    have hclose' : closeBlock start depth (leading.map Stmt.comment ++ items'.flatten) t' =
        .ok ⟨leading.map Stmt.comment ++ items'.flatten, t.advance.spanFrom start⟩ t'.advance := by
      rw [closeBlock_run, ht.current, if_pos hclose, hadvance.spanFrom]
    exact ⟨production, _, t'.advance, (bind_of_ok hitems').trans hclose',
      .mk ((Stmt.SwapsAmong.flatten hswaps).append_left _), hadvance⟩

theorem breaks_blockOf (hs : s.rest.length < n + 1) :
    Breaks x true s (blockOf Grammar.standard (block Grammar.standard)) (Block.Holds x)
      (Block.Swaps x) := by
  refine .after (fun _ _ => mirrors_expect _ _) (tidies_expect (by decide) (by decide))
    fun brace s₁ _ hrun h₁ => ?_
  have hlt : s₁.rest.length < s.rest.length := movesOn_expect (by decide) _ s brace s₁ hrun
  refine breaks_depth (f := blockBody Grammar.standard (block Grammar.standard) brace.span.start) ?_
  refine .after (fun _ hsure => mirrors_takeComments hsure) tidies_takeComments
    fun leading s₂ _ hcomments h₂ => ?_
  obtain ⟨-, rfl⟩ := EStateM.Result.ok.inj ((takeComments_run s₁).symm.trans hcomments)
  exact breaks_closeBlock hform _ _ _
    (breaks_blockItems hinner hform rfl (show s₁.rest.length < n by omega))

end

section

variable (hform : x.endsWithSemicolon)

include hform

theorem breaks_block (s : State) :
    Breaks x true s (block Grammar.standard) (Block.Holds x) (Block.Swaps x) := by
  -- A block inside the block starts behind the opening brace, with fewer tokens left.
  have hall : ∀ n s, s.rest.length < n →
      Breaks x true s (block Grammar.standard) (Block.Holds x) (Block.Swaps x) := by
    intro n
    induction n with
    | zero => exact fun s hs => absurd hs (by omega)
    | succ n ih =>
      intro s hs
      rw [Recursion.block.eq_body ()]
      exact breaks_blockOf ih hform hs
  exact hall _ s (Nat.lt_succ_self _)

end

end FrontEnd.Parser
