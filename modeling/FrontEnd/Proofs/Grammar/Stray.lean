/-
Text outside of definitions is contained.

Text that is no definition is skipped in stretches.  A stretch ends behind a semicolon or a
closing brace outside of braces, or before a word that starts a definition.  As long as the
braces of the text are balanced and no word in it starts a definition, a stretch never ends
inside braces, so that what is left of the text is balanced again, and the last stretch ends
where the text ends.

* `skipTokensToDefinition_stray` — skipping ends within such a text, outside of its braces;
* `fileItem_stray` — so an item of a file takes the first tokens of it, and fails at the first;
* `fileFrom_stray` — item after item the whole text is taken, whatever follows;
* `parseSource_stray` — the definitions and the diagnostics of such a text in front of another.
-/
import FrontEnd.Proofs.Grammar.Containment
import FrontEnd.Proofs.Tree.Coverage
import Mathlib.Data.List.Forall2

namespace FrontEnd

/-- The diagnostic about a token that starts no definition. -/
def strayDiagnostic (t : Token) : Diagnostic :=
  ⟨.unexpected "source_file" Parser.definitionStart t.display, t.span⟩

/-- What a skipped stretch covers. -/
def Definition.error? : Definition → Option Span
  | .error span => some span
  | _ => none

theorem Definition.error?_eq_some {d : Definition} {span : Span} :
    d.error? = some span ↔ d = .error span := by
  cases d <;> simp [Definition.error?]

theorem errors_comments (cs : List Comment) :
    (cs.map Definition.comment).filterMap Definition.error? = [] := by
  simp [Definition.error?]

/-- A skipped stretch or a comment. -/
def Definition.IsStray (d : Definition) : Prop := (∃ span, d = .error span) ∨ ∃ c, d = .comment c

theorem isStray_of_mem_comments {cs : List Comment} {d : Definition}
    (h : d ∈ cs.map Definition.comment) : d.IsStray := by
  obtain ⟨c, -, rfl⟩ := List.mem_map.mp h
  exact .inr ⟨c, rfl⟩

/-- Tokens that are skipped together. -/
structure Stretch where
  first : Token
  others : List Token

/-- All tokens of a stretch. -/
def Stretch.tokens (x : Stretch) : List Token := x.first :: x.others

namespace Parser

variable {s : State} {t : Token} {ts rest : List Token}

/-- The text behind a list of tokens is empty or starts with a definition. -/
def StartsDefinition (rest : List Token) : Prop :=
  ∀ t more, rest = t :: more → t.kind.startsDefinition

theorem StartsDefinition.endsBlocks (h : StartsDefinition rest) (hrest : s.rest = rest) :
    s.current.kind.endsBlocks := by
  cases rest with
  | nil =>
    have heof : s.current = s.eof := by simp [State.current, State.peek, hrest]
    rw [heof, s.eof_kind]
    rfl
  | cons t more => simp [Kind.endsBlocks, current_of_rest hrest, h t more rfl]

/-! ### Skipping -/

theorem skipTokensToDefinition_of_endsBlocks {start : Nat} (h : s.current.kind.endsBlocks)
    (hdepth : s.depth = 0) (hstart : start < s.index) :
    skipTokensToDefinition start s = .ok () s := by
  have hkind : s.current.kind = .eof ∨ s.current.kind.startsDefinition := by
    simpa [Kind.endsBlocks] using h
  rw [skipTokensToDefinition_run]
  rcases hkind with heof | hword
  · rw [if_pos heof]
  · have hne : ∀ k : Kind, k.startsDefinition = false → s.current.kind ≠ k := by
      rintro k hk rfl
      simp [hk] at hword
    rw [if_neg (hne _ rfl), if_neg fun h => hne _ rfl h.1, if_neg (hne _ rfl),
      if_pos ⟨hword, hdepth, hstart⟩]

/-- Skipping over a text that closes the open braces, and in which no word starts a definition,
ends inside the text where no brace is open. -/
theorem skipTokensToDefinition_stray {start : Nat} (hrest : s.rest = ts ++ rest)
    (hnesting : nesting s.depth ts = some 0) (hfree : ∀ t ∈ ts, ¬ t.kind.endsBlocks)
    (hbehind : StartsDefinition rest) (hstart : start ≤ s.index)
    (hmoved : ts = [] → start < s.index) :
    ∃ us vs s', ts = us ++ vs ∧ skipTokensToDefinition start s = .ok () s' ∧ Reads s us s' ∧
      Balanced vs ∧ s'.depth = 0 ∧ start < s'.index := by
  induction ts generalizing s with
  | nil =>
    have hdepth : s.depth = 0 := Option.some.inj hnesting
    have hrun := skipTokensToDefinition_of_endsBlocks (hbehind.endsBlocks hrest) hdepth
      (hmoved rfl)
    exact ⟨[], [], s, rfl, hrun, .refl s, rfl, hdepth, hmoved rfl⟩
  | cons t ts ih =>
    have hcurrent : s.current = t := current_of_rest hrest
    have ht : t.kind ≠ .eof ∧ t.kind.startsDefinition = false := by
      simpa [Kind.endsBlocks] using hfree t (by simp)
    obtain ⟨m, hm, hmore⟩ := Option.bind_eq_some_iff.mp hnesting
    have hproper : s.current.kind ≠ .eof := hcurrent ▸ ht.1
    have hread : Reads s [t] s.advance := reads_of_rest hrest ht.1
    have hdepth : s.advance.depth = m := depth_advance hproper (by rw [hcurrent]; exact hm)
    have hindex := index_advance hproper
    have hlt := length_rest_advance hproper
    -- Skipping ends behind the token if no brace is open there, and goes on otherwise.
    have hstop : s.advance.depth = 0 → ∃ us vs s', t :: ts = us ++ vs ∧
        (.ok () s.advance : Outcome Unit) = .ok () s' ∧ Reads s us s' ∧ Balanced vs ∧
        s'.depth = 0 ∧ start < s'.index := by
      intro hzero
      obtain rfl : m = 0 := hdepth.symm.trans hzero
      exact ⟨[t], ts, _, rfl, rfl, hread, hmore, hzero, by omega⟩
    have hgo : ∃ us vs s', t :: ts = us ++ vs ∧
        guarded s.rest.length (skipTokensToDefinition start) s.advance = .ok () s' ∧
        Reads s us s' ∧ Balanced vs ∧ s'.depth = 0 ∧ start < s'.index := by
      obtain ⟨us, vs, s', rfl, hrun, hread', hbal, hzero, hindex'⟩ :=
        ih (rest_advance hrest ht.1) (by rw [hdepth]; exact hmore)
          (fun u hu => hfree u (List.mem_cons_of_mem t hu)) (by omega) (fun _ => by omega)
      refine ⟨t :: us, vs, s', rfl, ?_, hread.append hread', hbal, hzero, hindex'⟩
      rw [guarded, if_pos hlt]
      exact hrun
    rw [skipTokensToDefinition_run, if_neg hproper]
    split
    · next hsemi =>
      refine hstop (hdepth.trans ?_)
      rw [← hcurrent, hsemi.1, hsemi.2] at hm
      exact (Option.some.inj hm).symm
    · split
      · split
        · next hzero => exact hstop hzero
        · exact hgo
      · split
        · next hword =>
          rw [hcurrent, ht.2] at hword
          exact absurd hword.1 (by simp)
        · exact hgo

/-! ### Items -/

theorem definition?_eq_none {k : Kind} (h : k.startsDefinition = false) :
    Grammar.standard.definition? k = none := by
  simp only [Grammar.standard]
  split
  · exact absurd h (by decide)
  · exact absurd h (by decide)
  · exact absurd h (by decide)
  · exact absurd h (by decide)
  · rfl

theorem definition_stray (h : s.current.kind.startsDefinition = false) :
    definition Grammar.standard s = .error (strayDiagnostic s.current) s := by
  have hgo : ∀ f : Kind → Parser Definition, (kind >>= f) s = f s.current.kind s := fun _ => rfl
  rw [definition, hgo, definition?_eq_none h]
  rfl

/-- An item of a file takes the first tokens of such a text, and what is left of the text is
balanced. -/
theorem fileItem_stray (hrest : s.rest = t :: ts ++ rest) (hbal : Balanced (t :: ts))
    (hfree : ∀ u ∈ t :: ts, ¬ u.kind.endsBlocks) (hbehind : StartsDefinition rest) :
    ∃ us vs u, ts = us ++ vs ∧ Balanced vs ∧
      fileItem Grammar.standard s = withFileComments (.error (covering (t :: us))) u ∧
      Passes s (t :: us) u ∧ u.depth = 0 ∧ u.commentsTaken = s.commentsTaken ∧
      u.diagnostics.reported = s.diagnostics.reported ++ [strayDiagnostic t] := by
  have hcurrent : s.current = t := current_of_rest hrest
  have ht : t.kind ≠ .eof ∧ t.kind.startsDefinition = false := by
    simpa [Kind.endsBlocks] using hfree t (by simp)
  have hfail : definition Grammar.standard { s with depth := 0 } =
      .error (strayDiagnostic t) { s with depth := 0 } := by
    rw [← hcurrent]
    exact definition_stray (s := { s with depth := 0 }) (by
      show s.current.kind.startsDefinition = false
      rw [hcurrent, ht.2])
  -- The failed definition has consumed nothing, so that skipping starts at its first token.
  obtain ⟨us, vs, u, hts, hrun, hread, hbal', hdepth, hindex⟩ :=
    skipTokensToDefinition_stray
      (s := { s with depth := 0, diagnostics := s.diagnostics.push (strayDiagnostic t) })
      hrest hbal hfree hbehind (Nat.le_refl s.index) (by simp)
  have hpass : Passes s us u := hread.toPasses.of_aside
  have hskip : skipToDefinition s.index
      { s with depth := 0, diagnostics := s.diagnostics.push (strayDiagnostic t) } = .ok () u := by
    rw [skipToDefinition, bind_of_ok hrun]
    show (if u.index = s.index then _ else _ : Parser Unit) u = _
    rw [if_neg (by omega)]
    rfl
  cases us with
  | nil =>
    have hsame := hpass.index_eq
    simp at hsame
    omega
  | cons t' us =>
    obtain ⟨rfl, rfl⟩ := List.cons.inj hts
    refine ⟨us, vs, u, rfl, hbal', ?_, hpass, hdepth, hread.commentsTaken, ?_⟩
    · rw [fileItem_of_error hfail]
      refine bind_of_ok ?_
      rw [← hpass.covering (by simp)]
      exact bind_of_ok hskip
    · rw [hread.diagnostics]
      rfl

/-! ### Files -/

/-- Whatever follows, the items of a file take all of such a text, stretch by stretch. -/
theorem fileFrom_stray {last : Nat} (hrest : s.rest = ts ++ rest) (hbal : Balanced ts)
    (hfree : ∀ t ∈ ts, ¬ t.kind.endsBlocks) (hbehind : StartsDefinition rest)
    (hdepth : s.depth = 0) (htaken : s.commentsTaken ≤ last)
    (hlast : ∀ t ∈ ts, t.span.start.offset ≤ last) :
    ∃ (stretches : List Stretch) (stray : List Definition) (u : State),
      stretches.flatMap Stretch.tokens = ts ∧
      stray.filterMap Definition.error? = stretches.map (covering ·.tokens) ∧
      (∀ d ∈ stray, d.IsStray) ∧
      (∀ ds s', FileFrom u ds s' → FileFrom s (stray ++ ds) s') ∧
      Passes s ts u ∧ u.depth = 0 ∧ u.commentsTaken ≤ last ∧
      u.diagnostics.reported =
        s.diagnostics.reported ++ stretches.map (strayDiagnostic ·.first) := by
  induction hn : ts.length using Nat.strong_induction_on generalizing ts s with
  | _ n ih =>
    cases ts with
    | nil =>
      exact ⟨[], [], s, rfl, rfl, by simp, fun _ _ h => h, .refl s, hdepth, htaken, by simp⟩
    | cons t ts =>
      have hcurrent : s.current = t := current_of_rest hrest
      -- The comments before the text are handed out before its first item.
      obtain ⟨us, vs, u, rfl, hbal', hitem, hpass, hzero, htaken', hdiag⟩ :=
        fileItem_stray (s := s.commented) hrest hbal hfree hbehind
      have hpass' : Passes s (t :: us) u := hpass.of_aside
      have hleft : u.rest = vs ++ rest := by simpa using hpass'.rest.symm.trans hrest
      have hcommented : s.commented.commentsTaken ≤ last := by
        unfold State.commented
        split
        · rw [State.position, hcurrent]
          exact hlast t (by simp)
        · exact htaken
      obtain ⟨stretches, stray, u', rfl, herrors, hkinds, hfile, hpass'', hzero', htaken'', hdiag'⟩ :=
        ih vs.length (by rw [← hn, List.length_cons, List.length_append]; omega) hleft hbal'
          (fun t ht => hfree t (by simp [ht])) hzero (htaken' ▸ hcommented)
          (fun t ht => hlast t (by simp [ht])) rfl
      have hproper : s.current.kind ≠ .eof := by
        intro heof
        exact hfree t (by simp) (by rw [← hcurrent, heof]; rfl)
      refine ⟨⟨t, us⟩ :: stretches,
        s.comments.map Definition.comment ++ .error (covering (t :: us)) :: stray, u',
        by simp [Stretch.tokens], ?_, ?_, fun ds s' h => ?_, by simpa using hpass'.append hpass'',
        hzero', htaken'', ?_⟩
      · rw [List.filterMap_append, errors_comments, List.nil_append, List.map_cons, ← herrors]
        rfl
      · intro d hd
        rcases List.mem_append.mp hd with hd | hd
        · exact isStray_of_mem_comments hd
        · rcases List.mem_cons.mp hd with rfl | hd
          · exact .inl ⟨_, rfl⟩
          · exact hkinds d hd
      · rw [List.append_assoc]
        exact (hfile ds s' h).cons hproper hitem
      · rw [hdiag', hdiag]
        simp [State.commented]

end Parser

/-! ### What is covered -/

section

variable {stretches : List Stretch} {x : Stretch} {behind : List Token} {lo hi : Nat}

theorem exists_split_stretches (hx : x ∈ stretches) :
    ∃ before after, stretches.flatMap Stretch.tokens = before ++ (x.tokens ++ after) := by
  obtain ⟨before, after, rfl⟩ := List.append_of_mem hx
  exact ⟨before.flatMap Stretch.tokens, after.flatMap Stretch.tokens, by simp⟩

theorem Stretch.tokensAt (hx : x ∈ stretches)
    (h : TokensAt lo (stretches.flatMap Stretch.tokens) hi) :
    ∃ lo' hi', TokensAt lo' x.tokens hi' ∧ hi' ≤ hi := by
  obtain ⟨before, after, hsplit⟩ := exists_split_stretches hx
  rw [hsplit] at h
  obtain ⟨first, -, hrest⟩ := h.split
  obtain ⟨last, htokens, hafter⟩ := hrest.split
  exact ⟨first, last, htokens, hafter.le⟩

theorem Stretch.exists_covering {t : Token} (ht : t ∈ stretches.flatMap Stretch.tokens)
    (h : TokensAt lo (stretches.flatMap Stretch.tokens) hi) :
    ∃ x ∈ stretches, (covering x.tokens).contains t.span := by
  obtain ⟨x, hx, htx⟩ := List.mem_flatMap.mp ht
  obtain ⟨_, _, hx', -⟩ := Stretch.tokensAt hx h
  exact ⟨x, hx, hx'.contains_of_mem htx⟩

/-- Of all tokens, a stretch covers just its own. -/
theorem Stretch.filter_covering (hx : x ∈ stretches)
    (h : TokensAt lo (stretches.flatMap Stretch.tokens ++ behind) hi) :
    (stretches.flatMap Stretch.tokens ++ behind).filter
      (fun t => (covering x.tokens).contains t.span) = x.tokens := by
  obtain ⟨before, after, hsplit⟩ := exists_split_stretches hx
  rw [hsplit, List.append_assoc, List.append_assoc] at h ⊢
  exact h.filter_covering (by simp [Stretch.tokens])

theorem sublist_firsts (stretches : List Stretch) :
    (stretches.map Stretch.first).Sublist (stretches.flatMap Stretch.tokens) := by
  induction stretches with
  | nil => simp
  | cons x stretches ih =>
    rw [List.map_cons, List.flatMap_cons, Stretch.tokens, List.cons_append]
    exact (ih.trans (List.sublist_append_right _ _)).cons_cons _

theorem TokensAt.pairwise_start {ts : List Token} (h : TokensAt lo ts hi) :
    ts.Pairwise fun a b => a.span.start.offset ≤ b.span.start.offset := by
  refine h.pairwise.imp_of_mem fun {a b} ha _ hle => ?_
  have hlt := (h.of_mem ha).2.1.start_lt_stop
  omega

/-- The diagnostics about the first tokens of stretches are in order. -/
theorem sorted_strayDiagnostics (h : TokensAt lo (stretches.flatMap Stretch.tokens) hi) :
    (Diagnostics.mk (stretches.map (strayDiagnostic ·.first))).sorted =
      stretches.map (strayDiagnostic ·.first) := by
  have hfirsts := h.pairwise_start.sublist (sublist_firsts stretches)
  rw [List.pairwise_map] at hfirsts
  refine List.mergeSort_of_pairwise (List.pairwise_map.mpr (hfirsts.imp fun hle => ?_))
  exact decide_eq_true hle

end

/-! ### Containment -/

section

variable {g b : String}

/-- What a stretch of a text covers in the text with another one behind it. -/
theorem mem_of_covering {stretches : List Stretch} {x : Stretch} {t : Token}
    (htokens : stretches.flatMap Stretch.tokens = (startOf g).rest) (hx : x ∈ stretches)
    (ht : t ∈ (tokenize (g ++ "\n" ++ b)).stream.tokens)
    (hcontains : (covering x.tokens).contains t.span) : t ∈ (startOf g).rest := by
  rw [tokens_tokenize, List.mem_append, List.mem_singleton] at ht
  rcases ht with ht | rfl
  · have hall := tokensAt_startOf (g ++ "\n" ++ b)
    have ht' : t ∈ (startOf (g ++ "\n" ++ b)).rest := ht
    rw [rest_startOf_append_line, ← htokens] at hall ht'
    rw [← htokens]
    refine List.mem_flatMap.mpr ⟨x, hx, ?_⟩
    rw [← Stretch.filter_covering hx hall]
    exact List.mem_filter.mpr ⟨ht', hcontains⟩
  · -- The end of the input lies behind the line feed.
    have hplaced := tokensAt_startOf g
    rw [← htokens] at hplaced
    obtain ⟨_, last, hx', hlast⟩ := Stretch.tokensAt hx hplaced
    have hstop := (hx'.covering (by simp [Stretch.tokens])).2.2
    have hend : (Position.start.after (g ++ "\n" ++ b).toList).offset ≤
        (covering x.tokens).stop.offset := (Span.contains_iff.mp hcontains).2
    have hlen : (Position.start.after (g ++ "\n" ++ b).toList).offset =
        byteLength g.toList + (1 + byteLength b.toList) := by
      rw [Position.offset_after, toList_append_line, byteLength_append]
      exact Nat.zero_add _
    omega

/-- Reading a text with balanced braces, none of whose words starts a definition, in front of one
that is empty or starts with a definition. -/
theorem sourceFile_stray (hbal : Balanced (startOf g).rest)
    (hfree : ∀ t ∈ (startOf g).rest, ¬ t.kind.endsBlocks)
    (hb : Parser.StartsDefinition (startOf b).rest) :
    ∃ (stretches : List Stretch) (stray : List Definition) (file whole : SourceFile)
      (s s' : Parser.State),
      Parser.sourceFile Grammar.standard (startOf b) = .ok file s ∧
      Parser.sourceFile Grammar.standard (startOf (g ++ "\n" ++ b)) = .ok whole s' ∧
      stretches.flatMap Stretch.tokens = (startOf g).rest ∧
      stray.filterMap Definition.error? = stretches.map (covering ·.tokens) ∧
      (∀ d ∈ stray, d.IsStray) ∧
      whole.definitions = stray ++
        file.definitions.map (·.relocate (Position.shift (.over (g.toList ++ ['\n'])))) ∧
      s'.diagnostics.reported = stretches.map (strayDiagnostic ·.first) ++
        s.diagnostics.reported.map (·.relocate (Position.shift (.over (g.toList ++ ['\n'])))) := by
  have htokens := tokensAt_startOf g
  have hlast : ∀ t ∈ (startOf g).rest, t.span.start.offset ≤ byteLength g.toList := by
    intro t ht
    obtain ⟨-, hfits, hstop⟩ := htokens.of_mem ht
    have hlt := hfits.start_lt_stop
    omega
  have hbehind : Parser.StartsDefinition
      ((startOf b).rest.map (·.relocate (Position.shift (.over (g.toList ++ ['\n']))))) := by
    intro t more h
    obtain ⟨u, us, hu, rfl, -⟩ := List.map_eq_cons_iff.mp h
    exact hb u us hu
  obtain ⟨stretches, stray, u, htokens', herrors, hkinds, hfile, hpass, hdepth, htaken, hdiag⟩ :=
    Parser.fileFrom_stray (rest_startOf_append_line g b) hbal hfree hbehind rfl (Nat.zero_le _)
      hlast
  have hleft : u.rest = _ :=
    List.append_cancel_left (hpass.rest.symm.trans (rest_startOf_append_line g b))
  obtain ⟨file, s, s', hrun, hfrom, hdiag'⟩ :=
    Parser.fileFrom_behind (a := g.toList) hleft
      (hpass.eof.trans (eof_startOf_append_line g b))
      (hpass.trivia.trans (by rw [← toList_append_line]; rfl)) hdepth
      (Parser.commentsFrom_le (fun t ht => by
        rw [hpass.consumed] at ht
        exact (htokens.of_mem (by simpa [startOf] using ht)).2.2) htaken)
  refine ⟨stretches, _, file, _, s, s', hrun, (hfile _ _ hfrom).run, htokens', ?_, ?_,
    (List.append_assoc _ _ _).symm, ?_⟩
  · rw [List.filterMap_append, errors_comments, List.append_nil, herrors]
  · intro d hd
    exact (List.mem_append.mp hd).elim (hkinds d) isStray_of_mem_comments
  · rw [hdiag', hdiag]
    rfl

theorem startsDefinition_startOf
    (hfirst : ∀ t, (tokenize b).stream.tokens.head? = some t →
      t.kind = .eof ∨ t.kind ∈ Parser.definitionStart) :
    Parser.StartsDefinition (startOf b).rest := by
  intro t more h
  have htokens : (tokenize b).stream.tokens =
      (startOf b).rest ++ [Token.eofAt (Position.start.after b.toList)] := tokens_tokenize b
  have hkind := hfirst t (by rw [htokens, h]; rfl)
  have hplaced : t ∈ placedTokens Position.start (lexemes b.toList) := by
    show t ∈ (startOf b).rest
    simp [h]
  have heof := kind_ne_eof_of_mem_placedTokens hplaced
  have hmem := hkind.resolve_left heof
  simp only [Parser.definitionStart, List.map_cons, List.map_nil, List.mem_cons,
    List.not_mem_nil, or_false] at hmem
  rcases hmem with h' | h' | h' | h' <;> rw [h'] <;> rfl

/-- **Stray text is contained.**  In front of a text that is empty or starts with a definition,
a text with balanced braces, none of whose tokens starts a definition, is skipped: it gives
stretches and comments only, which cover all of its tokens and no others, and one diagnostic for
each stretch at its first token.  What follows is read as it is on its own. -/
theorem parseSource_stray (g b : String)
    (hbefore : ∀ us, us <+: (tokenize g).stream.tokens →
      countKind (.symbol .closeCurly) us ≤ countKind (.symbol .openCurly) us)
    (htotal : countKind (.symbol .openCurly) (tokenize g).stream.tokens =
      countKind (.symbol .closeCurly) (tokenize g).stream.tokens)
    (hwords : ∀ t ∈ (tokenize g).stream.tokens, t.kind ∉ Parser.definitionStart)
    (hfirst : ∀ t, (tokenize b).stream.tokens.head? = some t →
      t.kind = .eof ∨ t.kind ∈ Parser.definitionStart) :
    ∃ (stray : List Definition) (heads : List Token),
      (parseSource (g ++ "\n" ++ b)).file.definitions = stray ++
        (parseSource b).file.definitions.map
          (·.relocate (Position.shift (.over (g ++ "\n").toList))) ∧
      (∀ d ∈ stray, (∃ span, d = .error span) ∨ ∃ c, d = .comment c) ∧
      (∀ t ∈ (tokenize g).stream.tokens, t.kind ≠ .eof →
        ∃ span, .error span ∈ stray ∧ span.contains t.span) ∧
      (∀ t ∈ (tokenize (g ++ "\n" ++ b)).stream.tokens, ∀ span, .error span ∈ stray →
        span.contains t.span → t ∈ (tokenize g).stream.tokens) ∧
      List.Forall₂ (fun head span =>
          head ∈ (tokenize g).stream.tokens ∧ head.span.start = span.start)
        heads (stray.filterMap Definition.error?) ∧
      (parseSource (g ++ "\n" ++ b)).syntactic = heads.map strayDiagnostic ++
        (parseSource b).syntactic.map
          (·.relocate (Position.shift (.over (g ++ "\n").toList))) := by
  obtain ⟨stretches, stray, file, whole, s, s', hfile, hwhole, htokens, herrors, hkinds,
    hdefinitions, hdiagnostics⟩ := sourceFile_stray (balanced_startOf hbefore htotal)
      (fun t ht => not_endsBlocks_startOf hwords ht) (startsDefinition_startOf hfirst)
  have hplaced := tokensAt_startOf g
  rw [← htokens] at hplaced
  have hmem : ∀ t : Token, t ∈ (startOf g).rest → t ∈ (tokenize g).stream.tokens := by
    intro t ht
    rw [tokens_tokenize]
    exact List.mem_append_left _ ht
  have herror : ∀ span, .error span ∈ stray ↔ ∃ x ∈ stretches, covering x.tokens = span := by
    intro span
    rw [← List.mem_map, ← herrors, List.mem_filterMap]
    simp [Definition.error?_eq_some]
  refine ⟨stray, stretches.map Stretch.first, ?_, hkinds, ?_, ?_, ?_, ?_⟩
  · rw [parseSource_eq hwhole, parseSource_eq hfile, toList_line]
    exact hdefinitions
  · intro t ht heof
    rw [tokens_tokenize, List.mem_append, List.mem_singleton] at ht
    have ht' : t ∈ stretches.flatMap Stretch.tokens := by
      rw [htokens]
      exact ht.resolve_right fun h => heof (by rw [h]; rfl)
    obtain ⟨x, hx, hcontains⟩ := Stretch.exists_covering ht' hplaced
    exact ⟨_, (herror _).mpr ⟨x, hx, rfl⟩, hcontains⟩
  · intro t ht span hspan hcontains
    obtain ⟨x, hx, rfl⟩ := (herror span).mp hspan
    exact hmem t (mem_of_covering htokens hx ht hcontains)
  · rw [herrors, List.forall₂_map_left_iff, List.forall₂_map_right_iff]
    refine List.forall₂_same.mpr fun x hx => ⟨hmem _ ?_, ?_⟩
    · rw [← htokens]
      exact List.mem_flatMap.mpr ⟨x, hx, by simp [Stretch.tokens]⟩
    · rw [Stretch.tokens, covering_cons, spanning_start]
  · rw [syntactic_parseSource hwhole, syntactic_parseSource hfile, hdiagnostics,
      Diagnostics.sorted_append_shift, sorted_strayDiagnostics hplaced, toList_line, List.map_map]
    · rfl
    · intro d hd
      obtain ⟨x, hx, rfl⟩ := List.mem_map.mp hd
      obtain ⟨_, last, hx', hlast⟩ := Stretch.tokensAt hx hplaced
      obtain ⟨-, hfits, hstop⟩ := hx'.of_mem (t := x.first) (by simp [Stretch.tokens])
      have hlt := hfits.start_lt_stop
      rw [bytes_over_line]
      show x.first.span.start.offset ≤ byteLength g.toList + 1
      omega

end

/-- A text outside of definitions: names, a block with a semicolon inside, literals that do not
end and comments. -/
def looseText : String := "x = 1; // one\nif \x7b y; \x7b \x7d \x7d 2 \"no end /* two */ z"

theorem parseSource_stray_looseText :
    ∃ (stray : List Definition) (heads : List Token),
      (parseSource (looseText ++ "\n" ++ followingText)).file.definitions = stray ++
        (parseSource followingText).file.definitions.map
          (·.relocate (Position.shift (.over (looseText ++ "\n").toList))) ∧
      (∀ d ∈ stray, (∃ span, d = .error span) ∨ ∃ c, d = .comment c) ∧
      (∀ t ∈ (tokenize looseText).stream.tokens, t.kind ≠ .eof →
        ∃ span, .error span ∈ stray ∧ span.contains t.span) ∧
      (∀ t ∈ (tokenize (looseText ++ "\n" ++ followingText)).stream.tokens,
        ∀ span, .error span ∈ stray →
          span.contains t.span → t ∈ (tokenize looseText).stream.tokens) ∧
      List.Forall₂ (fun head span =>
          head ∈ (tokenize looseText).stream.tokens ∧ head.span.start = span.start)
        heads (stray.filterMap Definition.error?) ∧
      (parseSource (looseText ++ "\n" ++ followingText)).syntactic =
        heads.map strayDiagnostic ++
          (parseSource followingText).syntactic.map
            (·.relocate (Position.shift (.over (looseText ++ "\n").toList))) := by
  have hbefore : ∀ us ∈ (tokenize looseText).stream.tokens.inits,
      countKind (.symbol .closeCurly) us ≤ countKind (.symbol .openCurly) us := by
    decide +kernel
  have hfirst : (tokenize followingText).stream.tokens.head?.map (·.kind) =
      some (.keyword .fnKw) := by
    decide +kernel
  refine parseSource_stray looseText followingText (fun us hus => ?_) ?_ ?_ fun t ht => ?_
  · exact hbefore us ((List.mem_inits us _).mpr hus)
  · decide +kernel
  · decide +kernel
  · have hkind : t.kind = .keyword .fnKw := by simpa [ht] using hfirst
    rw [hkind]
    decide

end FrontEnd
