/-
Sets of code points as lists of ranges.

A table lists inclusive ranges of code points in ascending order, none touching
the next.  `inRanges` walks it from the low end and stops at the first range that
starts beyond the code point, so characters near the start of a table are found
at once.
-/

namespace FrontEnd.Unicode

/-- Code points from the first to the second component, both included. -/
abbrev Ranges := List (Nat × Nat)

/-- Membership in an ascending table. -/
def inRanges (n : Nat) : Ranges → Bool
  | [] => false
  | (low, high) :: rest => low ≤ n && (n ≤ high || inRanges n rest)

/-- Each range is in order and starts after a gap above the one before it. -/
def Ascending (above : Nat) : Ranges → Prop
  | [] => True
  | (low, high) :: rest => above ≤ low ∧ low ≤ high ∧ Ascending (high + 2) rest

/-- On an ascending table membership means lying in one of its ranges. -/
theorem inRanges_iff {n above : Nat} {table : Ranges} (h : Ascending above table) :
    inRanges n table = true ↔ ∃ r ∈ table, r.1 ≤ n ∧ n ≤ r.2 := by
  induction table generalizing above with
  | nil => simp [inRanges]
  | cons r rest ih =>
    obtain ⟨low, high⟩ := r
    obtain ⟨_, hle, hrest⟩ := h
    have hbelow : ∀ {table : Ranges} {above : Nat}, Ascending above table →
        ∀ r ∈ table, above ≤ r.1 := by
      intro table
      induction table with
      | nil => simp
      | cons s table ih =>
        intro above hs r hr
        obtain ⟨h1, h2, h3⟩ := hs
        cases hr with
        | head => exact h1
        | tail _ hr => have := ih h3 r hr; omega
    simp only [inRanges, Bool.and_eq_true, Bool.or_eq_true, decide_eq_true_eq, ih hrest,
      List.mem_cons, exists_eq_or_imp]
    constructor
    · rintro ⟨hlow, hhigh | hfound⟩
      · exact .inl ⟨hlow, hhigh⟩
      · exact .inr hfound
    · rintro (⟨hlow, hhigh⟩ | ⟨r, hr, hlow, hhigh⟩)
      · exact ⟨hlow, .inl hhigh⟩
      · have := hbelow hrest r hr
        exact ⟨by omega, .inr ⟨r, hr, hlow, hhigh⟩⟩

end FrontEnd.Unicode
