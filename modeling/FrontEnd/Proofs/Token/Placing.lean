/-
Pieces at their places.

Placing the pieces of a text gives three lists: the tokens, the trivia and what is wrong.
Each of them is the concatenation of what the single pieces contribute, and the end of the
input stands behind the last token.

* `ofLexemes_eq` — the three lists;
* `exists_of_mem_placedTokens`, `exists_of_mem_placedProblems` — where a member of them
  comes from.
-/
import FrontEnd.Proofs.Token.Lexeme
import FrontEnd.Token.Tokenize

namespace FrontEnd

/-- What a piece that stands at `p` covers. -/
def Lexeme.spanAt (l : Lexeme) (p : Position) : Span := ⟨p, p.after l.text⟩

/-- The tokens among pieces, the first of which stands at `p`. -/
def placedTokens (p : Position) : List Lexeme → List Token
  | [] => []
  | l :: ls =>
    match l.kind with
    | .token kind => ⟨kind, String.ofList l.text, l.spanAt p⟩ :: placedTokens (p.after l.text) ls
    | .trivia _ => placedTokens (p.after l.text) ls

/-- The trivia among pieces, the first of which stands at `p`. -/
def placedTrivia (p : Position) : List Lexeme → List Trivia
  | [] => []
  | l :: ls =>
    match l.kind with
    | .token _ => placedTrivia (p.after l.text) ls
    | .trivia kind => ⟨kind, String.ofList l.text, l.spanAt p⟩ :: placedTrivia (p.after l.text) ls

/-- What is wrong with pieces, the first of which stands at `p`. -/
def placedProblems (p : Position) : List Lexeme → List Diagnostic
  | [] => []
  | l :: ls => l.problems.map (·.locate p l.text) ++ placedProblems (p.after l.text) ls

/-- The end of the input at `p`. -/
def Token.eofAt (p : Position) : Token := ⟨.eof, "", Span.empty p⟩

/-- The text of pieces. -/
def lexemesText (ls : List Lexeme) : List Char := ls.flatMap (·.text)

@[simp] theorem lexemesText_cons (l : Lexeme) (ls : List Lexeme) :
    lexemesText (l :: ls) = l.text ++ lexemesText ls := rfl

theorem ofLexemes_eq (p : Position) (ls : List Lexeme) :
    Lexed.ofLexemes p ls =
      ⟨⟨placedTokens p ls ++ [Token.eofAt (p.after (lexemesText ls))], placedTrivia p ls⟩,
        placedProblems p ls⟩ := by
  induction ls generalizing p with
  | nil => rfl
  | cons l ls ih =>
    rw [Lexed.ofLexemes, ih]
    simp only [Lexed.cons, placedTokens, placedTrivia, placedProblems, lexemesText_cons,
      Position.after_append]
    cases l.kind <;> rfl

/-! ### Single tokens -/

/-- Every token is a piece with its place. -/
theorem exists_of_mem_placedTokens {p : Position} {ls : List Lexeme} {t : Token}
    (h : t ∈ placedTokens p ls) :
    ∃ l ∈ ls, l.kind = .token t.kind ∧ t.text = String.ofList l.text := by
  induction ls generalizing p with
  | nil => simp [placedTokens] at h
  | cons l ls ih =>
    have hlater : t ∈ placedTokens (p.after l.text) ls →
        ∃ l' ∈ l :: ls, l'.kind = .token t.kind ∧ t.text = String.ofList l'.text := by
      intro hmem
      obtain ⟨l', hl', hkind, htext⟩ := ih hmem
      exact ⟨l', List.mem_cons_of_mem l hl', hkind, htext⟩
    unfold placedTokens at h
    split at h
    · next kind hkind =>
      rcases List.mem_cons.mp h with rfl | hmem
      · exact ⟨l, by simp, hkind, rfl⟩
      · exact hlater hmem
    · exact hlater h

/-- No token of a text but the last is the end of the input. -/
theorem kind_ne_eof_of_mem_placedTokens {p : Position} {text : List Char} {t : Token}
    (h : t ∈ placedTokens p (lexemes text)) : t.kind ≠ .eof := by
  obtain ⟨l, hl, hkind, -⟩ := exists_of_mem_placedTokens h
  intro heof
  rw [heof] at hkind
  exact (lexeme_proper hl).2 hkind

/-- Where nothing is wrong with the pieces, nothing is wrong with any of them. -/
theorem problems_of_mem {p : Position} {ls : List Lexeme} (h : placedProblems p ls = [])
    {l : Lexeme} (hl : l ∈ ls) : l.problems = [] := by
  induction ls generalizing p with
  | nil => simp at hl
  | cons l' ls ih =>
    obtain ⟨hfirst, hlater⟩ := List.append_eq_nil_iff.mp h
    rcases List.mem_cons.mp hl with rfl | hmem
    · exact List.map_eq_nil_iff.mp hfirst
    · exact ih hlater hmem

/-- Everything wrong is wrong with one of the pieces. -/
theorem exists_of_mem_placedProblems {p : Position} {ls : List Lexeme} {d : Diagnostic}
    (h : d ∈ placedProblems p ls) :
    ∃ l ∈ ls, ∃ problem ∈ l.problems, d.cause = problem.cause := by
  induction ls generalizing p with
  | nil => simp [placedProblems] at h
  | cons l ls ih =>
    rcases List.mem_append.mp h with h | h
    · obtain ⟨problem, hproblem, rfl⟩ := List.mem_map.mp h
      exact ⟨l, by simp, problem, hproblem, rfl⟩
    · obtain ⟨l', hl', hproblem⟩ := ih h
      exact ⟨l', List.mem_cons_of_mem l hl', hproblem⟩

theorem category_of_mem_placedProblems {p : Position} {text : List Char} {d : Diagnostic}
    (h : d ∈ placedProblems p (lexemes text)) : d.cause.category = .lexical := by
  obtain ⟨l, hl, problem, hproblem, hcause⟩ := exists_of_mem_placedProblems h
  rw [hcause]
  exact category_of_mem_problems hl hproblem

theorem lexemesText_lexemes (text : List Char) : lexemesText (lexemes text) = text :=
  flatMap_text_lexemes text

/-- The tokens of a text are those among its pieces, and the end of the input. -/
theorem tokens_tokenize (source : String) :
    (tokenize source).stream.tokens = placedTokens Position.start (lexemes source.toList) ++
      [Token.eofAt (Position.start.after source.toList)] := by
  rw [tokenize, ofLexemes_eq, lexemesText_lexemes]

end FrontEnd
