/-
Marks that may be left out do not matter.

A text that parses without diagnostics has been read from a template, and the places in its tree
are those of the template.  After any edits its tokens are again written from the template, with
other marks at these places (`Ahead.reads`), and so they are read as the same tree.

* `Ahead` — a place among the pieces of a text and what is left there of the template;
* `Ahead.mark`, `Ahead.keep` — behind a mark at an open place, and behind any other piece;
* `exists_respelled_run` — the tokens of the edited text, but for where they stand, are read as
  the same tree;
* `parseSource_respelled` — so is the edited text.

In the tokens that the second run is repeated on (`Standing`), those of the template keep the
places they had.  The edited text has others, but the tree does not depend on them
(`mirrors_sourceFile`).
-/
import FrontEnd.Proofs.Grammar.EchoedFiles
import FrontEnd.Proofs.Grammar.Tidiness
import FrontEnd.Proofs.Token.Respelling

namespace FrontEnd

variable {p q : Position} {cells : List Cell} {ts : List Token} {s : Slot} {slots : List Slot}
  {o : Option Slot} {l : Lexeme} {ls : List Lexeme}

/-! ### Places among the pieces -/

theorem Written.mem {tidy : Prop} {t : Token} (h : Written tidy p cells ts)
    (ht : .token t ∈ cells) : t ∈ ts := by
  induction h with
  | nil => cases ht
  | token _ ih =>
    rcases List.mem_cons.mp ht with heq | ht
    · exact Cell.token.inj heq ▸ List.mem_cons_self
    · exact List.mem_cons_of_mem _ (ih ht)
  | empty _ ih => exact ih ((List.mem_cons.mp ht).resolve_left nofun)
  | mark _ _ _ ih =>
    exact List.mem_cons_of_mem _ (ih ((List.mem_cons.mp ht).resolve_left nofun))

theorem Written.of_nil {tidy tidy' : Prop} (h : Written tidy p cells []) :
    Written tidy' q cells [] := by
  generalize hts : [] = ts at h
  induction h with
  | nil => exact .nil
  | empty _ ih => exact .empty (ih hts)
  | token | mark => cases hts

theorem Anchored.exists_token (h : Anchored cells) (hs : s ∈ slotsOf cells) :
    ∃ t, .token t ∈ cells ∧ s.place = t.span.stop.offset := by
  induction h with
  | nil => cases hs
  | token _ ih =>
    obtain ⟨t, ht, hplace⟩ := ih hs
    exact ⟨t, List.mem_cons_of_mem _ ht, hplace⟩
  | slot hplace _ _ ih =>
    rcases List.mem_cons.mp hs with rfl | hs
    · exact ⟨_, List.mem_cons_self, hplace⟩
    · obtain ⟨t, ht, hplace⟩ := ih hs
      exact ⟨t, List.mem_cons_of_mem _ (List.mem_cons_of_mem _ ht), hplace⟩

/-- The places in a template stand where the tokens written from it end. -/
theorem Anchored.lt_place {tidy : Prop} {n : Nat} (h : Anchored cells)
    (hts : Written tidy p cells ts) (hlt : ∀ t ∈ ts, n < t.span.stop.offset) :
    ∀ s ∈ slotsOf cells, n < s.place := by
  intro s hs
  obtain ⟨t, ht, hplace⟩ := h.exists_token hs
  rw [hplace]
  exact hlt t (hts.mem ht)

theorem SoundPieces.lt_stop (h : SoundPieces p ls) :
    ∀ t ∈ placedTokens p ls, p.offset < t.span.stop.offset := by
  intro t ht
  obtain ⟨hstart, hfits, -⟩ :=
    (tokensAt_placedTokens fun l hl => h.text_ne_nil hl).of_mem ht
  exact Nat.lt_of_le_of_lt hstart hfits.start_lt_stop

/-! ### What is left of a template -/

/-- A template with the place that is open before it. -/
def openAt (o : Option Slot) (cells : List Cell) : List Cell := (o.map Cell.slot).toList ++ cells

/-- Behind every place stands a token that shows that nothing is missing there. -/
def Followed (cells : List Cell) : Prop :=
  ∀ es s fs, cells = es ++ .slot s :: fs →
    ∀ c ∈ fs.head?, ∃ t, c = .token t ∧ t.kind ∈ s.separator.followers

theorem Followed.of_append (es : List Cell) {fs : List Cell} (h : Followed (es ++ fs)) :
    Followed fs :=
  fun es' s fs' heq => h (es ++ es') s fs' (by rw [heq, List.append_assoc])

/-- What stands behind a place where no mark is. -/
theorem Followed.next {tidy : Prop} (h : Followed (openAt (some s) cells))
    (hwritten : Written tidy q cells (placedTokens p ls)) :
    ∀ k ∈ nextKind? ls, k ∈ s.separator.followers := by
  intro k hk
  rw [← head?_placedTokens p] at hk
  cases cells with
  | nil =>
    rw [hwritten.eq_nil] at hk
    cases hk
  | cons c cells =>
    obtain ⟨t, rfl, ht⟩ := h [] s _ rfl c rfl
    obtain ⟨us, hus, -⟩ := hwritten.eq_cons
    rw [hus] at hk
    exact Option.some.inj hk ▸ ht

theorem Separator.not_mem_followers {s : Separator} {m : Symbol} (hm : m ∈ s.marks) :
    .symbol m ∉ s.followers := by
  revert hm
  cases s <;> simp +contextual [marks, followers]
  rintro (rfl | rfl) <;> decide

/-- The pieces from `p` on are those that have been read from the template, and the places in it
are those of `slots` that are still to come. -/
structure Ahead (slots : List Slot) (o : Option Slot) (p : Position) (cells : List Cell)
    (ls : List Lexeme) : Prop where
  written : Written False p (openAt o cells) (placedTokens p ls)
  anchored : Anchored cells
  followed : Followed (openAt o cells)
  slots_iff : ∀ s, s ∈ slotsOf cells ↔ s ∈ slots ∧ p.offset < s.place

namespace Ahead

/-- Further on, where no place has been passed. -/
theorem slots_iff_after (h : Ahead slots o p cells ls) (text : List Char)
    (hlt : ∀ s ∈ slotsOf cells, (p.after text).offset < s.place) :
    ∀ s, s ∈ slotsOf cells ↔ s ∈ slots ∧ (p.after text).offset < s.place := by
  intro s
  rw [Position.offset_after] at hlt ⊢
  refine ⟨fun hs => ⟨((h.slots_iff s).mp hs).1, hlt s hs⟩, fun ⟨hs, hplace⟩ => ?_⟩
  exact (h.slots_iff s).mpr ⟨hs, by omega⟩

/-- Nothing stands at the open place. -/
theorem vacant (h : Ahead slots (some s) p cells ls)
    (hnext : ∀ k ∈ nextKind? ls, k ∉ s.separator.kinds) :
    Ahead slots none p cells ls ∧ ∀ k ∈ nextKind? ls, k ∈ s.separator.followers := by
  have hwritten : Written False p cells (placedTokens p ls) := by
    cases hts : placedTokens p ls with
    | nil =>
      have hwritten := hts ▸ h.written
      cases hwritten with
      | empty hwritten => exact hwritten
    | cons t ts =>
      have hwritten := hts ▸ h.written
      cases hwritten with
      | empty hwritten => exact hwritten
      | mark hm => exact absurd hm (hnext _ (by rw [← head?_placedTokens p, hts]; rfl))
  exact ⟨⟨hwritten, h.anchored, h.followed.of_append [.slot s], h.slots_iff⟩,
    h.followed.next hwritten⟩

/-- Behind a mark that stands at the open place. -/
theorem mark (h : Ahead slots (some s) p cells (l :: ls)) (hsound : SoundPieces p (l :: ls))
    (htakes : s.separator.takes l) :
    Ahead slots none (p.after l.text) cells ls ∧
      ∀ k ∈ nextKind? ls, k ∈ s.separator.followers := by
  obtain ⟨m, hm, hkind⟩ := Separator.takes_iff.mp htakes
  have hwritten := h.written
  rw [placedTokens_cons, Lexeme.tokenAt?, hkind] at hwritten
  have hbehind : Written False p cells (placedTokens (p.after l.text) ls) := by
    cases hwritten with
    | mark _ _ hbehind => exact hbehind
    | empty hwritten =>
      -- A mark is no token that can stand behind the place.
      cases cells with
      | nil => cases hwritten
      | cons c cells =>
        obtain ⟨t, rfl, ht⟩ := h.followed [] s _ rfl c rfl
        obtain ⟨us, hus, -⟩ := hwritten.eq_cons
        obtain ⟨rfl, -⟩ := List.cons.inj hus
        exact absurd ht (Separator.not_mem_followers hm)
  exact ⟨⟨hbehind.loose, h.anchored, h.followed.of_append [.slot s],
    h.slots_iff_after _ (h.anchored.lt_place hbehind hsound.tail.lt_stop)⟩,
    h.followed.next hbehind⟩

/-- Behind a comment and behind white space. -/
theorem trivia (h : Ahead slots o p cells (l :: ls)) (hsound : SoundPieces p (l :: ls))
    {kind : TriviaKind} (hkind : l.kind = .trivia kind) :
    Ahead slots o (p.after l.text) cells ls := by
  have hwritten := h.written
  rw [placedTokens_cons, Lexeme.tokenAt?, hkind] at hwritten
  have hbehind : Written False (p.after l.text) (openAt o cells)
      (placedTokens (p.after l.text) ls) := hwritten.loose
  refine ⟨hbehind, h.anchored, h.followed, h.slots_iff_after _ ?_⟩
  obtain ⟨vs, ws, hall, -, hws⟩ := hbehind.exists_append
  refine h.anchored.lt_place hws fun t ht => hsound.tail.lt_stop t ?_
  rw [hall]
  exact List.mem_append_right vs ht

/-- Behind a token of the template: the place that is open there is the one behind it. -/
theorem token (h : Ahead slots none p cells (l :: ls)) (hsound : SoundPieces p (l :: ls)) {k : Kind}
    (hkind : l.kind = .token k) :
    ∃ o' cells', cells = .token ⟨k, String.ofList l.text, l.spanAt p⟩ :: openAt o' cells' ∧
      slots.find? (·.place = (p.after l.text).offset) = o' ∧
      Ahead slots o' (p.after l.text) cells' ls ∧ ∀ s ∈ o', s.separator.Admits k := by
  have hwritten := h.written
  rw [placedTokens_cons, Lexeme.tokenAt?, hkind] at hwritten
  have hwritten : Written False p cells (⟨k, String.ofList l.text, l.spanAt p⟩ ::
      placedTokens (p.after l.text) ls) := hwritten
  have hlt := hsound.tail.lt_stop
  have hadvance : p.offset < (p.after l.text).offset := by
    have hpos := byteLength_pos (hsound.text_ne_nil List.mem_cons_self)
    rw [Position.offset_after]
    omega
  have hanchored := h.anchored
  have hiff := h.slots_iff
  cases hanchored with
  | nil => cases hwritten
  | @token t cells hcells =>
    obtain ⟨us, hus, hbehind⟩ := hwritten.eq_cons
    obtain ⟨rfl, rfl⟩ := List.cons.inj hus
    have hplaces := hcells.lt_place hbehind hlt
    refine ⟨none, cells, rfl, List.find?_eq_none.mpr fun s hs hplace => ?_, ⟨hbehind, hcells,
      h.followed.of_append [.token _], h.slots_iff_after _ hplaces⟩, fun s hs => ?_⟩
    · have hplace : s.place = (p.after l.text).offset := of_decide_eq_true hplace
      have hlater := hplaces s ((hiff s).mpr ⟨hs, by omega⟩)
      omega
    · cases hs
  | @slot t s cells hplace hadmits hcells =>
    obtain ⟨us, hus, hbehind⟩ := hwritten.eq_cons
    obtain ⟨rfl, rfl⟩ := List.cons.inj hus
    have hplace : s.place = (p.after l.text).offset := hplace
    have hopen : Written False (p.after l.text) ([.slot s] ++ cells)
        (placedTokens (p.after l.text) ls) := hbehind
    obtain ⟨_, _, hall, -, hws⟩ := hopen.exists_append
    have hplaces := hcells.lt_place hws fun t ht => hlt t (hall ▸ List.mem_append_right _ ht)
    -- No other place is where the token ends.
    have honly : ∀ s' ∈ slots, s'.place = (p.after l.text).offset → s' = s := by
      intro s' hs' hplace'
      rcases List.mem_cons.mp ((hiff s').mpr ⟨hs', by omega⟩) with heq | hmem
      · exact heq
      · have hlater := hplaces s' hmem
        omega
    refine ⟨some s, cells, rfl, ?_, ⟨hbehind, hcells, h.followed.of_append [.token _],
      fun s' => ⟨fun hs' => ?_, fun hs' => ?_⟩⟩, ?_⟩
    · cases hfind : slots.find? (·.place = (p.after l.text).offset) with
      | none =>
        have hs := ((hiff s).mp List.mem_cons_self).1
        exact absurd (decide_eq_true hplace) (List.find?_eq_none.mp hfind s hs)
      | some s' =>
        have hplace' : s'.place = (p.after l.text).offset := by
          simpa using List.find?_some hfind
        rw [honly s' (List.mem_of_find?_eq_some hfind) hplace']
    · exact ⟨((hiff s').mp (List.mem_cons_of_mem _ hs')).1, hplaces s' hs'⟩
    · obtain ⟨hs', hlater⟩ := hs'
      rcases List.mem_cons.mp ((hiff s').mpr ⟨hs', by omega⟩) with rfl | hmem
      · omega
      · exact hmem
    · rintro _ ⟨⟩
      exact hadmits

/-- Behind a piece that is no mark at the open place. -/
theorem keep (h : Ahead slots o p cells (l :: ls)) (hsound : SoundPieces p (l :: ls))
    (hfilter : o.filter (·.separator.takes l) = none) :
    ∃ cells', Ahead slots (l.slotBehind slots o (p.after l.text)) (p.after l.text) cells' ls ∧
      (∀ s ∈ l.slotBehind slots o (p.after l.text), ∀ k, l.kind = .token k →
        s.separator.Admits k) ∧
      ∀ e, ∃ e', ∀ us,
        Written True e' (openAt (l.slotBehind slots o (p.after l.text)) cells') us →
          Written True e (openAt o cells) ((Lexeme.tokenAt? (l, p)).toList ++ us) := by
  unfold Lexeme.slotBehind Lexeme.tokenAt?
  cases hkind : l.kind with
  | trivia kind =>
    exact ⟨cells, h.trivia hsound hkind, fun _ _ _ => nofun, fun e => ⟨e, fun _ hus => hus⟩⟩
  | token k =>
    -- An open place is left empty.
    have hempty : Ahead slots none p cells (l :: ls) ∧ ∀ e us, Written True e cells us →
        Written True e (openAt o cells) us := by
      cases o with
      | none => exact ⟨h, fun _ _ hus => hus⟩
      | some s =>
        refine ⟨(h.vacant ?_).1, fun _ _ hus => .empty hus⟩
        intro k' hk' hmem
        obtain rfl : k = k' := by simpa [nextKind?, hkind] using hk'
        have htakes : s.separator.takes l := List.any_eq_true.mpr ⟨k, hmem, by simp [hkind]⟩
        simp [htakes] at hfilter
    obtain ⟨hnone, hfill⟩ := hempty
    obtain ⟨o', cells', rfl, hfind, hahead, hadmits⟩ := hnone.token hsound hkind
    simp only [hfind]
    refine ⟨cells', hahead, fun s hs _ heq => ?_, fun e => ⟨p.after l.text, fun us hus => ?_⟩⟩
    · obtain ⟨⟩ := heq
      exact hadmits s hs
    · exact hfill e _ (.token hus)

end Ahead

/-! ### The edited text -/

/-- A mark that ends where the token before it does. -/
def markAt (m : Symbol) (p : Position) : Token := ⟨.symbol m, m.spelling, ⟨p, p⟩⟩

theorem Written.markAt {m : Symbol} (hm : m ∈ s.separator.marks)
    {us : List Token} (h : Written True p cells us) :
    Written True p (.slot s :: cells) (FrontEnd.markAt m p :: us) :=
  .mark (List.mem_map_of_mem hm) (fun _ => rfl) h

/-- What a mark is written as: a space, or some mark of its sort. -/
theorem Edit.remark_cases (hsound : SoundPieces p (l :: ls)) {s : Separator} (htakes : s.takes l)
    (e : Edit) :
    e.remark s l = [' '] ∨ ∃ m ∈ s.marks, e.remark s l = m.spelling.toList := by
  obtain ⟨m, hm, hkind⟩ := Separator.takes_iff.mp htakes
  have htext : l.text = m.spelling.toList := by
    obtain ⟨c, run, -, hfirst, -⟩ := exists_first hsound.cut
    rw [← hfirst] at hkind ⊢
    exact congrArg Lexeme.text (Lexeme.first_symbol hkind)
  cases e with
  | drop => exact .inl rfl
  | keep | add => exact .inr ⟨m, hm, htext⟩
  | swap m' =>
    right
    by_cases hm' : m' ∈ s.marks
    · exact ⟨m', hm', by simp [remark, hm']⟩
    · exact ⟨m, hm, by simp [remark, hm', htext]⟩

theorem Edit.added?_eq_some {e : Edit} {text : List Char} (h : e.added? o l ls = some text) :
    ∃ s before m behind, o = some s ∧ m ∈ s.separator.marks ∧ ¬ l.endsLine ∧
      (∀ k ∈ nextKind? ls, k ∉ s.separator.kinds) ∧
      text = List.replicate before ' ' ++ (m.spelling.toList ++ List.replicate behind ' ') := by
  cases e with
  | keep | drop | swap => cases h
  | add before m behind =>
    obtain ⟨s, rfl, hs⟩ := Option.bind_eq_some_iff.mp h
    split at hs
    · next hfits =>
      obtain ⟨hm, hline, hnext⟩ := hfits
      refine ⟨s, before, m, behind, rfl, hm, hline, fun k hk => ?_, (Option.some.inj hs).symm⟩
      rw [Option.mem_def] at hk
      simpa [hk] using hnext
    · cases hs

/-- **The edited text is written from the same template.** -/
theorem Ahead.reads (hsound : SoundPieces p ls) (h : Ahead slots o p cells ls)
    (edit : Nat → Edit) (e : Position) :
    ∃ us, Written True e (openAt o cells) us ∧
      ReadsAs (respell slots edit o p ls) (us.map Token.value) := by
  induction ls generalizing o p cells e with
  | nil =>
    have hwritten : Written False p (openAt o cells) [] := h.written
    exact ⟨[], hwritten.of_nil, .nil⟩
  | cons l ls ih =>
    have htail := hsound.tail
    -- Where no mark is looked for the text starts as it did.
    have hstart : ∀ s : Separator, (∀ k ∈ nextKind? ls, k ∈ s.followers) →
        ∀ x ∈ (respell slots edit none (p.after l.text) ls).head?, x ≠ '|' ∧ x ≠ '.' := by
      intro s hnext
      rcases htail.head?_respell slots edit none with hsame | ⟨_, hnone, -⟩
      · rw [hsame]
        exact htail.head?_of_followers hnext
      · cases hnone
    rw [respell]
    cases hfilter : o.filter (·.separator.takes l) with
    | some s =>
      obtain ⟨rfl, htakes⟩ := Option.filter_eq_some_iff.mp hfilter
      obtain ⟨hahead, hnext⟩ := h.mark hsound htakes
      obtain ⟨us, hus, hread⟩ := ih htail hahead e
      rcases Edit.remark_cases hsound htakes (edit p.offset) with hdrop | ⟨m, hm, hmark⟩
      · simp only [hdrop]
        exact ⟨us, .empty hus, hread.spaces 1⟩
      · simp only [hmark]
        exact ⟨markAt m e :: us, hus.markAt hm, hread.mark hm (hstart _ hnext)⟩
    | none =>
      obtain ⟨cells', hahead, hadmits, hfill⟩ := h.keep hsound hfilter
      obtain ⟨e', hfill⟩ := hfill e
      simp only
      cases hadded : (edit p.offset).added? (l.slotBehind slots o (p.after l.text)) l ls with
      | none =>
        obtain ⟨us, hus, hread⟩ := ih htail hahead e'
        refine ⟨_, hfill us hus, ?_⟩
        rw [List.map_append, Lexeme.map_value_tokenAt?]
        exact hsound.keep (hsound.head?_respell_behind slots edit _ hadmits) hread
      | some text =>
        obtain ⟨s, before, m, behind, hs, hm, hline, hnext, rfl⟩ := Edit.added?_eq_some hadded
        rw [hs] at hahead hadmits hfill
        obtain ⟨hahead, hnext⟩ := hahead.vacant hnext
        obtain ⟨us, hus, hread⟩ := ih htail hahead e'
        refine ⟨_, hfill (markAt m e' :: us) (hus.markAt hm), ?_⟩
        rw [List.map_append, Lexeme.map_value_tokenAt?]
        exact hsound.add hline (hadmits s rfl) hm (hstart _ hnext) hread before behind

/-! ### Two runs -/

/-- The text after the edits that are asked for by offset, as far as they fit. -/
def respelled (source : String) (edit : Nat → Edit) : String :=
  String.ofList (respell (parseSource source).file.toNode.slots edit none Position.start
    (lexemes source.toList))

namespace Parser

/-- The start of tokens that end like the text, without anything between them. -/
def startOn (source : String) (us : List Token) : State where
  rest := us
  eof := (startOf source).eof
  trivia := []
  eof_kind := (startOf source).eof_kind

variable {source : String}

/-- Two lists that are written from one template start at the same place. -/
theorem standing_startOn {us : List Token} (hanchored : Anchored cells)
    (hts : Written False (startOf source).position cells (startOf source).rest)
    (hus : Written True (startOf source).position cells us) :
    Standing (startOf source) (startOf source).position cells (startOn source us) where
  rest := hus
  previousEnd := by
    show (startOn source us).current.span.start = (startOf source).current.span.start
    rw [current_eq_headD, current_eq_headD]
    by_cases hne : cells = []
    · subst hne
      rw [hts.eq_nil, show (startOn source us).rest = [] from hus.eq_nil]
      rfl
    · obtain ⟨t, cells, rfl⟩ := hanchored.exists_cons hne
      obtain ⟨ts, hts, -⟩ := hts.eq_cons
      obtain ⟨us', rfl, -⟩ := hus.eq_cons
      rw [hts]
      rfl
  depth := rfl
  eof := rfl
  trivia := rfl
  clean := rfl

end Parser

/-- A text that parses without diagnostics is read to its end, and nothing is wrong with its
pieces. -/
theorem exists_run_of_ok {source : String} (hok : (parseSource source).diagnostics = []) :
    ∃ s, Parser.sourceFile Grammar.standard (startOf source) = .ok (parseSource source).file s ∧
      s.Clean ∧ s.rest = [] ∧ SoundPieces Position.start (lexemes source.toList) := by
  obtain ⟨file, s, ts, hrun, hwalk, heof, hspelled⟩ := Parser.sourceFile_total (startOf source)
  have hparsed := parseSource_eq hrun
  rw [hparsed] at hok
  obtain ⟨hsound, hclean⟩ := List.append_eq_nil_iff.mp (Diagnostics.sorted_eq_nil.mp hok)
  have hplace := (inPlace_startOf source).passes hwalk.toPasses
  have hrest : s.rest = [] :=
    Parser.rest_eq_nil (fun t ht => kind_ne_eof_of_mem_placedTokens ht) hplace heof
  have htidy : Parser.Tidy ts := .each (hspelled hclean) fun _ _ _ h => h.tidy
  have hts : placedTokens Position.start (lexemes source.toList) = ts := by
    have hall : (startOf source).rest = ts ++ s.rest := hwalk.rest
    rwa [hrest, List.append_nil] at hall
  refine ⟨s, by rw [hparsed, hrun], hclean, hrest, by rw [lexemesText_lexemes],
    fun l hl => problems_of_mem hsound hl, hts ▸ htidy.apart⟩

/-- The tokens of the edited text, with other places, are read as the same tree. -/
theorem exists_respelled_run {source : String} (hok : (parseSource source).diagnostics = [])
    (edit : Nat → Edit) :
    ∃ us file u, ReadsAs (respelled source edit).toList (us.map Token.value) ∧
      Parser.sourceFile Grammar.standard (Parser.startOn source us) = .ok file u ∧ u.Clean ∧
      file.bare = (parseSource source).file.bare := by
  obtain ⟨s, hrun, hclean, hrest, hsound⟩ := exists_run_of_ok hok
  obtain ⟨-, hecho⟩ := Parser.echoes_sourceFile _ s hrun hclean
  obtain ⟨cells, ts, file, hpass, hwritten, hanchored, -, hfile, hslots, hrepeats⟩ :=
    hecho ⟨_, inPlace_startOf source⟩ (startOf source).position
  have hts : (startOf source).rest = ts := by rw [hpass.rest, hrest, List.append_nil]
  have hsettled : Settled cells := by
    have hsettled : Settled (cells ++ []) := hrepeats.settled .nil rfl
    rwa [List.append_nil] at hsettled
  have hahead : Ahead (parseSource source).file.toNode.slots none Position.start cells
      (lexemes source.toList) := by
    have hplaced : Written False Position.start cells
        (placedTokens Position.start (lexemes source.toList)) := by
      rw [← hts] at hwritten
      exact hwritten.loose
    refine ⟨hplaced, hanchored, fun es s fs heq => hsettled.next_of_slot heq, fun s => ?_⟩
    have hplaces := hanchored.lt_place hplaced hsound.lt_stop
    exact ⟨fun hs => ⟨(hslots s).mp hs, hplaces s hs⟩, fun hs => (hslots s).mpr hs.1⟩
  obtain ⟨us, hus, hread⟩ := hahead.reads hsound edit (startOf source).position
  have hstanding : Parser.Standing (startOf source) (startOf source).position (cells ++ [])
      (Parser.startOn source us) := by
    rw [List.append_nil]
    exact Parser.standing_startOn hanchored (hts ▸ hwritten) hus
  obtain ⟨u, hrun', hu, -, -⟩ := hrepeats.run .nil rfl (hrest ▸ .nil) hstanding
  refine ⟨us, file, u, ?_, hrun', hu.clean, hfile.symm⟩
  rw [respelled, String.toList_ofList]
  exact hread

/-- **Marks that may be left out do not matter.**  A text that parses without diagnostics does so
after any edits, and to the same tree but for places and comments. -/
theorem parseSource_respelled (source : String) (edit : Nat → Edit)
    (hok : (parseSource source).diagnostics = []) :
    (parseSource (respelled source edit)).diagnostics = [] ∧
      (parseSource (respelled source edit)).file.bare = (parseSource source).file.bare := by
  obtain ⟨us, file, u, hread, hrun, hclean, hbare⟩ := exists_respelled_run hok edit
  obtain ⟨htokens, hproblems⟩ := hread Position.start
  have hpaired : Parser.Paired (Parser.wholeTexts source (respelled source edit))
      (Parser.startOn source us) (startOf (respelled source edit)) :=
    Parser.paired_of_value rfl rfl rfl htokens.symm
  have hmirrors : Parser.Mirrors (Parser.wholeTexts source (respelled source edit))
      Parser.anywhere false SourceFile.bare (Parser.sourceFile Grammar.standard)
      (Parser.sourceFile Grammar.standard) :=
    Parser.mirrors_sourceFile (Parser.exact_wholeTexts _ _)
  obtain ⟨file', s, hrun', halike, hs⟩ :=
    (hmirrors.run _ _ hpaired trivial).ok file u hrun (.inr (Nat.zero_le _))
  have hreported : s.diagnostics.reported = [] := by
    have hshown := hs.diagnostics.shown
    rw [show u.diagnostics.reported = [] from hclean] at hshown
    exact List.map_eq_nil_iff.mp hshown.symm
  rw [parseSource_eq hrun', ← hbare]
  refine ⟨?_, halike.shown.symm⟩
  rw [hproblems, hreported]
  exact Diagnostics.sorted_eq_nil.mpr rfl

/-- A text in which some of the marks that may be left out are there. -/
def mixedText : String :=
  "use a::b c;\nstruct P \x7b x: i32, \x7d\nfn f(a: P b: P) \x7b\n" ++
    "  let p: P = P \x7b x: 1; y: 2 /* two */ \x7d;\n  match a \x7b 1 | 2 | 3 => 4, \x7d;\n\x7d"

/-- Marks of every sort are put in and left out, and one is replaced. -/
def mixedEdit : Nat → Edit
  | 5 => .swap .dot
  | 8 => .add 0 .colonColon 0
  | 29 => .drop
  | 41 => .add 0 .comma 0
  | 72 => .drop
  | 79 => .add 1 .semicolon 0
  | 110 => .drop
  | 112 => .add 1 .pipe 0
  | _ => .keep

theorem parseSource_respelled_mixedText :
    (parseSource mixedText).diagnostics = [] ∧
      respelled mixedText mixedEdit =
        "use a.b ::c;\nstruct P \x7b x: i32  \x7d\nfn f(a: P, b: P) \x7b\n" ++
          "  let p: P = P \x7b x: 1  y: 2 /* two */ ; \x7d;\n" ++
          "  match a \x7b 1 | 2   3 | => 4, \x7d;\n\x7d" ∧
      (parseSource (respelled mixedText mixedEdit)).diagnostics = [] ∧
      (parseSource (respelled mixedText mixedEdit)).file.bare =
        (parseSource mixedText).file.bare := by
  have hok : (parseSource mixedText).diagnostics = [] := by decide +kernel
  exact ⟨hok, by decide +kernel, parseSource_respelled mixedText mixedEdit hok⟩

end FrontEnd
