/-
Looking up trivia by place.

The trivia of a text are in one list and its tokens in another.  That the trivia between two
tokens are found by offsets alone is right since each list is in the order of the text and every
piece of trivia lies between two tokens.

* `partitionPoint` — the place where a property of the members of a list stops to hold, found by
  halving; `partitionPoint_append` says when;
* `triviaFound_eq` — cutting out the trivia between two such places is looking them up;
* `mapIdx_triviaBefore` — what is looked up for the tokens one after the other, by a walk along
  the pieces (`gather`);
* `triviaLookup_exact` — read in the order of the tokens, trivia and tokens are the text, each
  piece of trivia belongs to one token, and a stretch of the text holds the trivia that start
  in it.
-/
import FrontEnd.Proofs.Token.Lines
import FrontEnd.Proofs.Token.Tiling
import Mathlib.Data.List.Nodup
import Mathlib.Data.List.TakeWhile

namespace FrontEnd

/-! ### Searching by halving -/

section

variable {α : Type} {p : α → Bool}

/-- The first place from `lo` on at which `p` does not hold of the member of `xs`, or `hi` if
there is none before; for a list where `p` holds up to a place and nowhere behind it. -/
def partitionPoint (p : α → Bool) (xs : List α) (lo hi : Nat) : Nat :=
  if lo < hi then
    let mid := lo + (hi - lo) / 2
    if xs[mid]?.any p then partitionPoint p xs (mid + 1) hi else partitionPoint p xs lo mid
  else lo
termination_by hi - lo

/-- The search stays in range. -/
theorem partitionPoint_le (p : α → Bool) (xs : List α) {lo hi : Nat} (h : lo ≤ hi) :
    partitionPoint p xs lo hi ≤ hi := by
  fun_induction partitionPoint p xs lo hi with
  | case1 lo hi hlt mid _ ih => exact ih (by omega)
  | case2 lo hi hlt mid _ ih => exact Nat.le_trans (ih (by omega)) (by omega)
  | case3 lo hi _ => exact h

theorem any_getElem?_append {yes no : List α} (hyes : ∀ x ∈ yes, p x) (hno : ∀ x ∈ no, ¬ p x)
    (i : Nat) : (yes ++ no)[i]?.any p ↔ i < yes.length := by
  by_cases hlt : i < yes.length
  · have hp : p yes[i] := hyes _ (List.getElem_mem hlt)
    simp [List.getElem?_append_left hlt, hlt, hp]
  · rw [List.getElem?_append_right (by omega)]
    cases hx : no[i - yes.length]? with
    | none => simp [hlt]
    | some x =>
      have hp := hno x (List.mem_of_getElem? hx)
      simp [hlt, hp]

/-- The place is kept between the two ends of the search. -/
theorem partitionPoint_append {yes no : List α} (hyes : ∀ x ∈ yes, p x) (hno : ∀ x ∈ no, ¬ p x)
    {lo hi : Nat} (hlo : lo ≤ yes.length) (hhi : yes.length ≤ hi) :
    partitionPoint p (yes ++ no) lo hi = yes.length := by
  fun_induction partitionPoint p (yes ++ no) lo hi with
  | case1 lo hi hlt mid hmid ih =>
    have hbefore := (any_getElem?_append hyes hno mid).mp hmid
    exact ih hbefore hhi
  | case2 lo hi hlt mid hmid ih =>
    have hbehind := mt (any_getElem?_append hyes hno mid).mpr hmid
    exact ih hlo (by omega)
  | case3 lo hi hlt => omega

/-- A property that holds of the first members of a list and of no later one ends with them. -/
theorem partitionPoint_eq {xs : List α} (h : ∀ x ∈ xs.dropWhile p, ¬ p x) :
    partitionPoint p xs 0 xs.length = (xs.takeWhile p).length := by
  have hsplit := xs.takeWhile_append_dropWhile (p := p)
  have hfound := partitionPoint_append (fun x hx => List.mem_takeWhile_imp hx) h (Nat.zero_le _)
    (xs.takeWhile_prefix (p := p)).length_le
  rwa [hsplit] at hfound

end

/-! ### Trivia in order -/

/-- The trivia that start at the offset `first` or later, and before `last`, cut out between
the two places where these offsets are reached. -/
def TokenStream.triviaFound (s : TokenStream) (first last : Nat) : List Trivia :=
  let start := partitionPoint (·.span.start.offset < first) s.trivia 0 s.trivia.length
  let stop := partitionPoint (·.span.start.offset < last) s.trivia 0 s.trivia.length
  (s.trivia.take (max stop start)).drop start

/-- In trivia that are in order, an offset is reached once. -/
theorem partitionPoint_trivia {trivia : List Trivia}
    (h : trivia.Pairwise fun a b => a.span.start.offset ≤ b.span.start.offset) (bound : Nat) :
    partitionPoint (·.span.start.offset < bound) trivia 0 trivia.length =
      (trivia.takeWhile (·.span.start.offset < bound)).length := by
  refine partitionPoint_eq ?_
  have hsorted := h.sublist (List.dropWhile_sublist (·.span.start.offset < bound))
  have hhead := trivia.head?_dropWhile_not (·.span.start.offset < bound)
  cases hbehind : trivia.dropWhile (·.span.start.offset < bound) with
  | nil => simp
  | cons u us =>
    rw [hbehind] at hsorted hhead
    intro t ht
    have hle : u.span.start.offset ≤ t.span.start.offset := by
      rcases List.mem_cons.mp ht with rfl | ht
      · exact Nat.le_refl _
      · exact List.rel_of_pairwise_cons hsorted ht
    have hu : bound ≤ u.span.start.offset := by simpa using hhead
    simpa using Nat.le_trans hu hle

/-- Looking up trivia and cutting them out of trivia in order give the same. -/
theorem triviaFound_eq {s : TokenStream}
    (h : s.trivia.Pairwise fun a b => a.span.start.offset ≤ b.span.start.offset)
    (first last : Nat) : s.triviaFound first last = s.triviaIn first last := by
  unfold TokenStream.triviaFound TokenStream.triviaIn Trivia.between
  simp only [partitionPoint_trivia h]
  have hsplit := s.trivia.takeWhile_append_dropWhile (p := (·.span.start.offset < first))
  have hbefore : ∀ t ∈ s.trivia.takeWhile (·.span.start.offset < first),
      t.span.start.offset < first := by
    intro t ht
    simpa using List.mem_takeWhile_imp ht
  generalize s.trivia.takeWhile (·.span.start.offset < first) = before at *
  generalize hbehind : s.trivia.dropWhile (·.span.start.offset < first) = behind at *
  rw [List.drop_take, ← hsplit, List.drop_left]
  rcases Nat.le_total first last with hle | hle
  · -- all that starts before `first` starts before `last`
    rw [List.takeWhile_append_of_pos fun t ht => by
      simpa using Nat.lt_of_lt_of_le (hbefore t ht) hle]
    rw [List.length_append, Nat.max_eq_left (Nat.le_add_right _ _), Nat.add_sub_cancel_left]
    exact (List.prefix_iff_eq_take.mp (List.takeWhile_prefix _)).symm
  · have hempty : behind.takeWhile (·.span.start.offset < last) = [] := by
      have hhead := s.trivia.head?_dropWhile_not (·.span.start.offset < first)
      rw [hbehind] at hhead
      cases behind with
      | nil => rfl
      | cons u us =>
        have hu : ¬ u.span.start.offset < last := by
          have : first ≤ u.span.start.offset := by simpa using hhead
          omega
        simp [hu]
    have hshort : ((before ++ behind).takeWhile (·.span.start.offset < last)).length ≤
        before.length := by
      rw [List.takeWhile_append, hempty]
      split
      · simp
      · exact (List.takeWhile_prefix _).length_le
    rw [hempty, Nat.max_eq_right hshort, Nat.sub_self, List.take_zero]

/-- No two pieces of trivia start together, no piece being empty. -/
theorem pairwise_lt_placedTrivia (p : Position) {ls : List Lexeme} (hne : ∀ l ∈ ls, l.text ≠ []) :
    (placedTrivia p ls).Pairwise fun a b => a.span.start.offset < b.span.start.offset := by
  induction ls generalizing p with
  | nil => exact .nil
  | cons l ls ih =>
    have hlater := ih (p.after l.text) fun l' hl' => hne l' (by simp [hl'])
    unfold placedTrivia
    split
    · exact hlater
    · refine .cons (fun t ht => ?_) hlater
      have hle := le_offset_of_mem_placedTrivia ht
      have hpos := byteLength_pos (hne l (by simp))
      rw [Position.offset_after] at hle
      show p.offset < t.span.start.offset
      omega

/-! ### Trivia token by token -/

/-- For each token the trivia that start where the token before it ends, or at `first`, and
before the token itself. -/
def lookups (first : Nat) (trivia : List Trivia) : List Token → List (List Trivia × Token)
  | [] => []
  | t :: ts => (Trivia.between first t.span.start.offset trivia, t) ::
      lookups t.span.stop.offset trivia ts

theorem getElem?_lookups (first : Nat) (trivia : List Trivia) (ts : List Token) (i : Nat) :
    (lookups first trivia ts)[i]? = ts[i]?.map fun t =>
      (Trivia.between (match i with
        | 0 => first
        | j + 1 => (ts[j]?.map (·.span.stop.offset)).getD 0) t.span.start.offset trivia, t) := by
  induction ts generalizing first i with
  | nil => rfl
  | cons t ts ih =>
    cases i with
    | zero => rfl
    | succ j =>
      rw [lookups, List.getElem?_cons_succ, ih, List.getElem?_cons_succ]
      cases j <;> rfl

theorem mapIdx_triviaBefore (s : TokenStream) :
    s.tokens.mapIdx (fun i t => (s.triviaBefore i, t)) = lookups 0 s.trivia s.tokens := by
  refine List.ext_getElem? fun i => ?_
  rw [List.getElem?_mapIdx, getElem?_lookups]
  cases ht : s.tokens[i]? with
  | none => rfl
  | some t =>
    cases i with
    | zero => simp only [Option.map_some, TokenStream.triviaBefore, ht, TokenStream.triviaIn]
    | succ j => simp only [Option.map_some, TokenStream.triviaBefore, ht, TokenStream.triviaIn]

/-- The tokens of a text with the pieces of trivia between them, the first piece standing at
`p` behind the trivia `pending`. -/
def gather (pending : List Trivia) (p : Position) : List Lexeme → List (List Trivia × Token)
  | [] => [(pending, Token.eofAt p)]
  | l :: ls =>
    match l.kind with
    | .token kind =>
      (pending, ⟨kind, String.ofList l.text, l.spanAt p⟩) :: gather [] (p.after l.text) ls
    | .trivia kind =>
      gather (pending ++ [⟨kind, String.ofList l.text, l.spanAt p⟩]) (p.after l.text) ls

section

-- What is `earlier` starts before the token in front, what is `pending` behind it.
variable {trivia earlier pending : List Trivia} {first : Nat} {p : Position} {ls : List Lexeme}
  (hsorted : trivia.Pairwise fun a b => a.span.start.offset ≤ b.span.start.offset)
  (htrivia : trivia = earlier ++ (pending ++ placedTrivia p ls))
  (hearlier : ∀ t ∈ earlier, t.span.start.offset < first)
  (hpending : ∀ t ∈ pending, t.span.startsIn first p.offset)

include hsorted htrivia hearlier hpending

/-- What waits for its token is found by the offsets around it. -/
theorem between_pending : Trivia.between first p.offset trivia = pending := by
  have hbefore : ∀ t ∈ earlier, ¬ t.span.startsIn first p.offset = true := by
    intro t ht
    have hlt := hearlier t ht
    simp only [Span.startsIn, Bool.and_eq_true, decide_eq_true_eq]
    omega
  have hlater : ∀ t ∈ placedTrivia p ls, ¬ t.span.startsIn first p.offset = true := by
    intro t ht
    have hle := le_offset_of_mem_placedTrivia ht
    simp only [Span.startsIn, Bool.and_eq_true, decide_eq_true_eq]
    omega
  rw [between_eq_filter hsorted, htrivia, List.filter_append, List.filter_append,
    List.filter_eq_nil_iff.mpr hbefore, List.filter_eq_self.mpr hpending,
    List.filter_eq_nil_iff.mpr hlater, List.nil_append, List.append_nil]

/-- Looking up by offsets finds what stands between the tokens. -/
theorem lookups_eq_gather (hfirst : first ≤ p.offset) (hne : ∀ l ∈ ls, l.text ≠ []) :
    lookups first trivia (placedTokens p ls ++ [Token.eofAt (p.after (lexemesText ls))]) =
      gather pending p ls := by
  induction ls generalizing earlier pending first p with
  | nil =>
    have hfound := between_pending hsorted htrivia hearlier hpending
    show [(Trivia.between first p.offset trivia, _)] = [(pending, _)]
    rw [hfound]
    rfl
  | cons l ls ih =>
    have hpos := byteLength_pos (hne l (by simp))
    have hnext : (p.after l.text).offset = p.offset + byteLength l.text := p.offset_after l.text
    have hne' : ∀ l' ∈ ls, l'.text ≠ [] := fun l' hl' => hne l' (by simp [hl'])
    rw [lexemesText_cons, Position.after_append]
    unfold placedTokens gather
    cases hkind : l.kind with
    | token kind =>
      have hfound := between_pending hsorted htrivia hearlier hpending
      have hsplit : trivia = (earlier ++ pending) ++ ([] ++ placedTrivia (p.after l.text) ls) := by
        rw [htrivia, placedTrivia, hkind, List.append_assoc, List.nil_append]
      have hbefore : ∀ t ∈ earlier ++ pending, t.span.start.offset < (p.after l.text).offset := by
        intro t ht
        rcases List.mem_append.mp ht with ht | ht
        · have := hearlier t ht
          omega
        · have := hpending t ht
          simp only [Span.startsIn, Bool.and_eq_true, decide_eq_true_eq] at this
          omega
      have hlater := ih hsplit hbefore (by simp) (Nat.le_refl _) hne'
      exact congrArg₂ _ (congrArg (·, _) hfound) hlater
    | trivia kind =>
      have hsplit : trivia = earlier ++
          ((pending ++ [⟨kind, String.ofList l.text, l.spanAt p⟩]) ++
            placedTrivia (p.after l.text) ls) := by
        rw [htrivia, placedTrivia, hkind, List.append_assoc, List.singleton_append]
      refine ih hsplit hearlier (fun t ht => ?_) (by omega) hne'
      simp only [Span.startsIn, Bool.and_eq_true, decide_eq_true_eq]
      rcases List.mem_append.mp ht with ht | ht
      · have := hpending t ht
        simp only [Span.startsIn, Bool.and_eq_true, decide_eq_true_eq] at this
        omega
      · obtain rfl := List.mem_singleton.mp ht
        show first ≤ p.offset ∧ p.offset < (p.after l.text).offset
        omega

end

/-- All trivia wait for some token. -/
theorem flatMap_gather (pending : List Trivia) (p : Position) (ls : List Lexeme) :
    (gather pending p ls).flatMap (·.1) = pending ++ placedTrivia p ls := by
  induction ls generalizing pending p with
  | nil => simp [gather, placedTrivia]
  | cons l ls ih =>
    unfold gather placedTrivia
    cases l.kind with
    | token kind => simp [ih]
    | trivia kind => simp [ih]

/-- Trivia and tokens put end to end are the text. -/
theorem join_gather (pending : List Trivia) (p : Position) (ls : List Lexeme) :
    String.join ((gather pending p ls).map fun g => String.join (g.1.map (·.text)) ++ g.2.text) =
      String.join (pending.map (·.text)) ++ String.ofList (lexemesText ls) := by
  induction ls generalizing pending p with
  | nil => simp [gather, Token.eofAt, lexemesText]
  | cons l ls ih =>
    rw [lexemesText_cons, String.ofList_append]
    unfold gather
    cases l.kind with
    | token kind => simp [ih, String.append_assoc]
    | trivia kind => simp [ih, String.append_assoc]

theorem map_mapIdx {α β γ : Type} (f : Nat → α → β) (g : β → γ) (xs : List α) :
    (xs.mapIdx f).map g = xs.mapIdx fun i x => g (f i x) := by
  refine List.ext_getElem? fun i => ?_
  simp [Function.comp_def]

/-! ### The streams of texts -/

section

variable (source : String)

theorem trivia_tokenize :
    (tokenize source).stream.trivia = placedTrivia Position.start (lexemes source.toList) := by
  rw [tokenize, ofLexemes_eq]

theorem mapIdx_gather :
    (tokenize source).stream.tokens.mapIdx
        (fun i t => ((tokenize source).stream.triviaBefore i, t)) =
      gather [] Position.start (lexemes source.toList) := by
  have hnone : ∀ t ∈ ([] : List Trivia), t.span.start.offset < 0 := by simp
  have hpending : ∀ t ∈ ([] : List Trivia), t.span.startsIn 0 Position.start.offset := by simp
  have hfound := lookups_eq_gather (pairwise_placedTrivia Position.start (lexemes source.toList))
    rfl hnone hpending (Nat.zero_le _) fun l hl => (lexeme_proper hl).1
  rw [lexemesText_lexemes] at hfound
  rw [mapIdx_triviaBefore, trivia_tokenize, tokens_tokenize]
  exact hfound

/-- The trivia before the tokens, one token after the other, are all trivia. -/
theorem flatten_triviaBefore :
    ((tokenize source).stream.tokens.mapIdx
      fun i _ => (tokenize source).stream.triviaBefore i).flatten =
        (tokenize source).stream.trivia := by
  have hall := flatMap_gather [] Position.start (lexemes source.toList)
  rw [← mapIdx_gather, List.flatMap_def, map_mapIdx, List.nil_append] at hall
  rw [trivia_tokenize]
  exact hall

theorem join_triviaBefore :
    String.join ((tokenize source).stream.tokens.mapIdx fun i t =>
      String.join (((tokenize source).stream.triviaBefore i).map (·.text)) ++ t.text) = source := by
  have htext := join_gather [] Position.start (lexemes source.toList)
  rw [← mapIdx_gather, map_mapIdx, lexemesText_lexemes, String.ofList_toList] at htext
  simpa using htext

/-- A piece of trivia stands before one token only. -/
theorem existsUnique_triviaBefore {t : Trivia} (ht : t ∈ (tokenize source).stream.trivia) :
    ∃! i, t ∈ (tokenize source).stream.triviaBefore i := by
  have hflat := flatten_triviaBefore source
  have hnodup : (tokenize source).stream.trivia.Nodup := by
    rw [trivia_tokenize]
    refine (pairwise_lt_placedTrivia _ fun l hl => (lexeme_proper hl).1).imp fun hlt heq => ?_
    exact absurd (congrArg (·.span.start.offset) heq) (Nat.ne_of_lt hlt)
  rw [← hflat] at hnodup ht
  have hapart := List.pairwise_iff_getElem.mp (List.nodup_flatten.mp hnodup).2
  obtain ⟨found, hfound, hmem⟩ := List.mem_flatten.mp ht
  obtain ⟨i, hi, rfl⟩ := List.getElem_of_mem hfound
  rw [List.getElem_mapIdx] at hmem
  refine ⟨i, hmem, fun j hj => ?_⟩
  -- no trivia are found before a token that there is not
  have hlt : j < (tokenize source).stream.tokens.length := by
    by_contra hge
    have hnone := List.getElem?_eq_none (Nat.le_of_not_lt hge)
    simp [TokenStream.triviaBefore, hnone] at hj
  rw [List.length_mapIdx] at hi
  by_contra hne
  rcases Nat.lt_or_gt_of_ne hne with hji | hij
  · have hdisjoint := hapart j i (by simpa) (by simpa) hji
    simp only [List.getElem_mapIdx] at hdisjoint
    exact hdisjoint hj hmem
  · have hdisjoint := hapart i j (by simpa) (by simpa) hij
    simp only [List.getElem_mapIdx] at hdisjoint
    exact hdisjoint hmem hj

/-- **Trivia are found where they stand.**  Read token by token, each behind the trivia before
it, a stream is its text; each piece of trivia is found before one token; and the trivia of a
stretch of the text are those that start in it, also when they are found by halving. -/
theorem triviaLookup_exact :
    String.join ((tokenize source).stream.tokens.mapIdx fun i t =>
        String.join (((tokenize source).stream.triviaBefore i).map (·.text)) ++ t.text) = source ∧
      (∀ t ∈ (tokenize source).stream.trivia,
        ∃! i, t ∈ (tokenize source).stream.triviaBefore i) ∧
      ∀ first last,
        (tokenize source).stream.triviaIn first last =
            (tokenize source).stream.trivia.filter
              (fun t => first ≤ t.span.start.offset ∧ t.span.start.offset < last) ∧
          (last ≤ first → (tokenize source).stream.triviaIn first last = []) ∧
          (tokenize source).stream.triviaFound first last =
            (tokenize source).stream.triviaIn first last := by
  have hsorted : (tokenize source).stream.trivia.Pairwise
      fun a b => a.span.start.offset ≤ b.span.start.offset := by
    rw [trivia_tokenize]
    exact pairwise_placedTrivia _ _
  have hfilter (first last : Nat) := between_eq_filter hsorted first last
  refine ⟨join_triviaBefore source, fun t ht => existsUnique_triviaBefore source ht,
    fun first last => ⟨?_, fun hle => ?_, triviaFound_eq hsorted first last⟩⟩
  · refine (hfilter first last).trans (List.filter_congr fun t _ => ?_)
    simp [Span.startsIn]
  · refine (hfilter first last).trans (List.filter_eq_nil_iff.mpr fun t _ => ?_)
    simp only [Span.startsIn, Bool.and_eq_true, decide_eq_true_eq]
    omega

end

/-- A piece of trivia before the second token, and a stretch that ends before it starts. -/
theorem triviaLookup_exact_commentText :
    (⟨.comment .line, "// note", ⟨⟨2, 1, 3⟩, ⟨9, 1, 10⟩⟩⟩ : Trivia) ∈
        (tokenize "a // note\n  b").stream.trivia ∧
      (∃! i, (⟨.comment .line, "// note", ⟨⟨2, 1, 3⟩, ⟨9, 1, 10⟩⟩⟩ : Trivia) ∈
        (tokenize "a // note\n  b").stream.triviaBefore i) ∧
      9 ≥ 2 ∧ (tokenize "a // note\n  b").stream.triviaIn 9 2 = [] := by
  have hmem : (⟨.comment .line, "// note", ⟨⟨2, 1, 3⟩, ⟨9, 1, 10⟩⟩⟩ : Trivia) ∈
      (tokenize "a // note\n  b").stream.trivia := by
    decide +kernel
  have hexact := triviaLookup_exact "a // note\n  b"
  exact ⟨hmem, hexact.2.1 _ hmem, by decide, (hexact.2.2 9 2).2.1 (by decide)⟩

end FrontEnd
