/-
What cutting a text into pieces keeps.

Every rule matches a non-empty run of leading characters, a literal goes on behind its
opening quote by what reading it consumes, and a character that no rule matches is a
piece of its own.  So the pieces of a text put end to end are the text.

* `Lexeme.first_text` — the first piece of a text is how the text starts;
* `Lexeme.exists_spells` — what a token other than a literal is, as a piece;
* `flatMap_text_lexemes` — the pieces put end to end are the text;
* `lexeme_proper` — no piece is empty, or the end of the input;
* `category_of_mem_problems` — what is wrong with a piece is a lexical matter.
-/
import FrontEnd.Proofs.Literal.Scan
import FrontEnd.Token.Lexeme

namespace FrontEnd

/-! ### The run that a rule matches -/

theorem leading?_eq_some {p : Char → Bool} {cs run : List Char} (h : leading? p cs = some run) :
    run ≠ [] ∧ run = cs.takeWhile p := by
  unfold leading? at h
  split at h
  · exact absurd h (by simp)
  · next hne =>
    obtain rfl := Option.some.inj h
    exact ⟨fun h0 => hne h0, rfl⟩

theorem Symbol.spelling_ne_nil (s : Symbol) : s.spelling.toList ≠ [] := by
  cases s <;> decide

namespace Rule

/-- A rule matches a non-empty run of leading characters. -/
theorem match?_eq_some {rule : Rule} {cs run : List Char} (h : rule.match? cs = some run) :
    run ≠ [] ∧ run <+: cs := by
  unfold match? at h
  split at h
  · obtain ⟨hne, rfl⟩ := leading?_eq_some h
    exact ⟨hne, List.takeWhile_prefix _⟩
  · obtain rfl := Option.some.inj h
    refine ⟨by simp, ?_⟩
    exact List.cons_prefix_cons.mpr ⟨rfl, List.cons_prefix_cons.mpr ⟨rfl, List.takeWhile_prefix _⟩⟩
  · next cs =>
    -- A block comment is its opening mark, what stands inside and its closing mark.
    obtain ⟨letters, hletters, hrun⟩ := Option.bind_eq_some_iff.mp h
    split at hrun
    · next hclose =>
      obtain rfl := Option.some.inj hrun
      obtain ⟨-, rfl⟩ := leading?_eq_some hletters
      obtain ⟨tail, htail⟩ := List.isPrefixOf_iff_prefix.mp hclose
      have hsplit := takeWhile_append_drop_length inBlockComment cs
      rw [← htail] at hsplit
      refine ⟨by simp, ?_⟩
      refine List.cons_prefix_cons.mpr ⟨rfl, List.cons_prefix_cons.mpr ⟨rfl, tail, ?_⟩⟩
      rw [List.append_assoc, hsplit]
    · exact absurd hrun (by simp)
  · split at h
    · obtain rfl := Option.some.inj h
      exact ⟨by simp, List.cons_prefix_cons.mpr ⟨rfl, List.takeWhile_prefix _⟩⟩
    · exact absurd h (by simp)
  · obtain ⟨hne, rfl⟩ := leading?_eq_some h
    exact ⟨hne, List.takeWhile_prefix _⟩
  · obtain rfl := Option.some.inj h
    exact ⟨by simp, by simp⟩
  · obtain rfl := Option.some.inj h
    exact ⟨by simp, by simp⟩
  · next s =>
    simp only at h
    split at h
    · next hpre =>
      obtain rfl := Option.some.inj h
      exact ⟨s.spelling_ne_nil, List.isPrefixOf_iff_prefix.mp hpre⟩
    · exact absurd h (by simp)
  · exact absurd h (by simp)

/-- A punctuation mark is matched as it is written. -/
theorem match?_symbol {s : Symbol} {cs run : List Char} (h : (symbol s).match? cs = some run) :
    run = s.spelling.toList := by
  simp only [match?] at h
  split at h
  · exact (Option.some.inj h).symm
  · cases h

theorem first?_eq_some {cs run : List Char} {rule : Rule} (h : first? cs = some (rule, run)) :
    rule.match? cs = some run := by
  obtain ⟨r, -, hr⟩ := List.exists_of_findSome?_eq_some h
  obtain ⟨run', hrun', heq⟩ := Option.map_eq_some_iff.mp hr
  obtain ⟨rfl, rfl⟩ := Prod.mk.inj heq
  exact hrun'

end Rule

/-! ### The first piece -/

namespace Lexeme

/-- The first piece of a text is how the text starts, and is not empty. -/
theorem first_text (c : Char) (cs : List Char) :
    (first c cs).text ≠ [] ∧ (first c cs).text <+: c :: cs := by
  unfold first
  split
  · exact ⟨by simp [skipped], by simp [skipped]⟩
  · next rule matched h =>
    have hmatch := Rule.first?_eq_some h
    have hrun := Rule.match?_eq_some hmatch
    split
    · exact hrun
    · exact hrun
    · exact hrun
    · exact hrun
    · exact hrun
    · -- The opening quote is matched, and the literal goes on behind it.
      obtain rfl : c = '"' := by
        unfold Rule.match? at hmatch
        split at hmatch <;> simp_all
      have hpart := Literal.scan_partition '"' cs
      exact ⟨by simp [stringLiteral, Literal.raw_eq], _, hpart⟩
    · obtain rfl : c = '\'' := by
        unfold Rule.match? at hmatch
        split at hmatch <;> simp_all
      have hpart := Literal.scan_partition '\'' cs
      exact ⟨by simp [charLiteral, Literal.raw_eq], _, hpart⟩
    · exact hrun

/-- No piece of a text is the end of the input. -/
theorem first_kind_ne_eof (c : Char) (cs : List Char) : (first c cs).kind ≠ .token .eof := by
  unfold first
  split
  · simp [skipped]
  · split
    · simp [trivia]
    · simp [trivia]
    · simp [trivia]
    · simp only [token, ne_eq, PieceKind.token.injEq, Kind.ofWord]
      split <;> simp
    · simp [token]
    · simp [stringLiteral]
    · simp [charLiteral]
    · simp [token]

/-- What a token of the kind is, if it is no literal, as a piece at the start of `cs`. -/
inductive Spells (cs run : List Char) : Kind → Prop
  | identifier (h : Rule.word.match? cs = some run)
    (hname : Keyword.ofString? (String.ofList run) = none) : Spells cs run .identifier
  | keyword {k : Keyword} (hspelling : k.spelling.toList = run) : Spells cs run (.keyword k)
  | number (h : Rule.number.match? cs = some run) : Spells cs run .number
  | symbol {s : Symbol} (hspelling : s.spelling.toList = run) : Spells cs run (.symbol s)

theorem exists_spells {c : Char} {cs : List Char} {k : Kind}
    (h : (first c cs).kind = .token k) (hstring : k ≠ .string) (hchar : k ≠ .char) :
    ∃ run, first c cs = token k run ∧ Spells (c :: cs) run k := by
  unfold first at h ⊢
  split at h
  · cases h
  · next rule matched hrule =>
    have hmatch := Rule.first?_eq_some hrule
    cases rule with
    | word =>
      obtain rfl := PieceKind.token.inj h
      refine ⟨matched, rfl, ?_⟩
      unfold Kind.ofWord
      split
      · next k hword =>
        have hspelling : k.spelling = String.ofList matched := by
          simpa using List.find?_some hword
        exact .keyword (by rw [hspelling, String.toList_ofList])
      · next hname => exact .identifier hmatch hname
    | number =>
      obtain rfl := PieceKind.token.inj h
      exact ⟨matched, rfl, .number hmatch⟩
    | symbol s =>
      obtain rfl := PieceKind.token.inj h
      exact ⟨matched, rfl, .symbol (Rule.match?_symbol hmatch).symm⟩
    | string => exact absurd (PieceKind.token.inj h).symm hstring
    | char => exact absurd (PieceKind.token.inj h).symm hchar
    | whitespace | lineComment | blockComment => cases h

/-- A piece that is a symbol is how the symbol is written. -/
theorem first_symbol {c : Char} {cs : List Char} {s : Symbol}
    (h : (first c cs).kind = .token (.symbol s)) :
    first c cs = token (.symbol s) s.spelling.toList := by
  obtain ⟨run, hfirst, hspells⟩ := exists_spells h (by simp) (by simp)
  cases hspells with
  | symbol hspelling => rw [hfirst, hspelling]

/-- A piece that is a reserved word is how the word is written. -/
theorem first_keyword {c : Char} {cs : List Char} {k : Keyword}
    (h : (first c cs).kind = .token (.keyword k)) :
    first c cs = token (.keyword k) k.spelling.toList := by
  obtain ⟨run, hfirst, hspells⟩ := exists_spells h (by simp) (by simp)
  cases hspells with
  | keyword hspelling => rw [hfirst, hspelling]

end Lexeme

/-! ### All pieces -/

theorem lexemes_cons (c : Char) (cs : List Char) :
    ∃ rest, (Lexeme.first c cs).text ++ rest = c :: cs ∧
      lexemes (c :: cs) = Lexeme.first c cs :: lexemes rest := by
  obtain ⟨hne, rest, hrest⟩ := Lexeme.first_text c cs
  refine ⟨rest, hrest, ?_⟩
  have hdrop : cs.drop ((Lexeme.first c cs).text.length - 1) = rest := by
    obtain ⟨d, ds, htext⟩ := List.exists_cons_of_ne_nil hne
    rw [htext] at hrest ⊢
    have htail : ds ++ rest = cs := (List.cons.inj hrest).2
    rw [← htail, List.length_cons, Nat.add_sub_cancel, List.drop_left]
  rw [lexemes, hdrop]

/-- Induction over the pieces of a text, the first one taken off. -/
theorem lexemes_induction {P : List Char → Prop} (nil : P [])
    (cons : ∀ c cs rest, (Lexeme.first c cs).text ++ rest = c :: cs →
      lexemes (c :: cs) = Lexeme.first c cs :: lexemes rest → P rest → P (c :: cs))
    (text : List Char) : P text := by
  match text with
  | [] => exact nil
  | c :: cs =>
    obtain ⟨rest, htext, hlex⟩ := lexemes_cons c cs
    have hne := (Lexeme.first_text c cs).1
    have hlt : rest.length < (c :: cs).length := by
      rw [← htext, List.length_append]
      have := List.length_pos_iff.mpr hne
      omega
    exact cons c cs rest htext hlex (lexemes_induction nil cons rest)
termination_by text.length
decreasing_by exact hlt

/-- The pieces of a text put end to end are the text. -/
theorem flatMap_text_lexemes (text : List Char) : (lexemes text).flatMap (·.text) = text := by
  induction text using lexemes_induction with
  | nil => simp [lexemes]
  | cons c cs rest htext hlex ih => rw [hlex, List.flatMap_cons, ih, htext]

/-- No piece of a text is empty, or the end of the input. -/
theorem lexeme_proper {text : List Char} {l : Lexeme} (hl : l ∈ lexemes text) :
    l.text ≠ [] ∧ l.kind ≠ .token .eof := by
  induction text using lexemes_induction with
  | nil => simp [lexemes] at hl
  | cons c cs rest htext hlex ih =>
    rw [hlex] at hl
    rcases List.mem_cons.mp hl with rfl | hmem
    · exact ⟨(Lexeme.first_text c cs).1, Lexeme.first_kind_ne_eof c cs⟩
    · exact ih hmem

/-! ### What is wrong with a piece -/

theorem Literal.category_of_mem_invalidElements {offset : Nat} {es : List Literal.Element}
    {problem : Problem} (h : problem ∈ Literal.invalidElements offset es) :
    problem.cause.category = .lexical := by
  obtain ⟨pre, raw, post, -, rfl⟩ := Literal.exists_of_mem_invalidElements h
  rfl

theorem Literal.category_of_mem_problems {l : Literal} {problem : Problem}
    (h : problem ∈ l.problems) : problem.cause.category = .lexical := by
  rcases List.mem_append.mp h with hmem | hmem
  · exact Literal.category_of_mem_invalidElements hmem
  · split at hmem
    · simp at hmem
    · obtain rfl := List.mem_singleton.mp hmem
      unfold Literal.unterminated
      dsimp only
      split <;> rfl

theorem Lexeme.category_of_mem_sizeProblems {l : Literal} {problem : Problem}
    (h : problem ∈ sizeProblems l) : problem.cause.category = .lexical := by
  unfold sizeProblems at h
  split at h
  · split at h
    · obtain rfl := List.mem_singleton.mp h
      rfl
    · simp at h
    · obtain rfl := List.mem_singleton.mp h
      rfl
  · simp at h

/-- What is wrong with a piece is a lexical matter. -/
theorem category_of_mem_problems {text : List Char} {l : Lexeme} {problem : Problem}
    (hl : l ∈ lexemes text) (h : problem ∈ l.problems) : problem.cause.category = .lexical := by
  induction text using lexemes_induction with
  | nil => simp [lexemes] at hl
  | cons c cs rest htext hlex ih =>
    rw [hlex] at hl
    rcases List.mem_cons.mp hl with rfl | hmem
    · unfold Lexeme.first at h
      split at h
      · obtain rfl := List.mem_singleton.mp h
        rfl
      · split at h
        · simp [Lexeme.trivia] at h
        · simp [Lexeme.trivia] at h
        · simp [Lexeme.trivia] at h
        · simp [Lexeme.token] at h
        · simp [Lexeme.token] at h
        · exact Literal.category_of_mem_problems h
        · rcases List.mem_append.mp h with h | h
          · exact Literal.category_of_mem_problems h
          · exact Lexeme.category_of_mem_sizeProblems h
        · simp [Lexeme.token] at h
    · exact ih hmem

end FrontEnd
