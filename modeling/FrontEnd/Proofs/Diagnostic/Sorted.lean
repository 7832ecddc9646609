/-
Diagnostics by place.

Sorting keeps the order of reports about one place, so it is insertion: a report is put
before the first one that does not start before it.

* `sorted_cons` — sorting as insertion;
* `sorted_filter` — sorting and leaving out some of the reports can be exchanged;
* `sorted_append` — reports that all start no later than others are sorted before them;
* `sorted_interleaved` — so are early and late reports that were made in turns;
* `sorted_shift` — reports about a text behind other lines are sorted as those about the text;
* `sorted_append_shift` — and they come behind those about the lines.
-/
import FrontEnd.Proofs.Tree.Relocate

namespace FrontEnd

/-- The first diagnostic starts no later than the second. -/
def Diagnostic.startsBy (a b : Diagnostic) : Bool := a.span.start.offset ≤ b.span.start.offset

namespace Diagnostics

theorem sorted_eq (ds : List Diagnostic) :
    (Diagnostics.mk ds).sorted = ds.mergeSort Diagnostic.startsBy := rfl

@[simp] theorem mem_sorted {d : Diagnostic} {ds : List Diagnostic} :
    d ∈ (Diagnostics.mk ds).sorted ↔ d ∈ ds := List.mem_mergeSort

theorem sorted_eq_nil {ds : List Diagnostic} : (Diagnostics.mk ds).sorted = [] ↔ ds = [] := by
  rw [← List.length_eq_zero_iff, sorted_eq, List.length_mergeSort, List.length_eq_zero_iff]

theorem startsBy_trans (a b c : Diagnostic) (hab : a.startsBy b) (hbc : b.startsBy c) :
    a.startsBy c := by
  simp only [Diagnostic.startsBy, decide_eq_true_eq] at *
  omega

theorem startsBy_total (a b : Diagnostic) : a.startsBy b || b.startsBy a := by
  simp only [Diagnostic.startsBy, Bool.or_eq_true, decide_eq_true_eq]
  omega

/-- Sorted reports fall apart into those that start before a given one and the others. -/
theorem exists_split (d : Diagnostic) (ds : List Diagnostic) :
    ∃ before behind, (Diagnostics.mk ds).sorted = before ++ behind ∧
      (∀ e ∈ before, ¬ d.startsBy e) ∧ (∀ e ∈ behind, d.startsBy e) ∧
      (Diagnostics.mk (d :: ds)).sorted = before ++ d :: behind := by
  obtain ⟨before, behind, hcons, htail, hbefore⟩ :=
    List.mergeSort_cons startsBy_trans startsBy_total d ds
  have hsorted := List.pairwise_mergeSort startsBy_trans startsBy_total (d :: ds)
  rw [hcons] at hsorted
  refine ⟨before, behind, htail, fun e he => by simpa using hbefore e he, ?_, hcons⟩
  exact (List.pairwise_cons.mp (List.pairwise_append.mp hsorted).2.1).1

/-- A report is put behind those that start before it and before the others. -/
theorem sorted_cons {d : Diagnostic} {ds before behind : List Diagnostic}
    (hds : (Diagnostics.mk ds).sorted = before ++ behind)
    (hbefore : ∀ e ∈ before, ¬ d.startsBy e) (hbehind : ∀ e ∈ behind, d.startsBy e) :
    (Diagnostics.mk (d :: ds)).sorted = before ++ d :: behind := by
  obtain ⟨before', behind', hds', hbefore', hbehind', hsorted⟩ := exists_split d ds
  -- Where a list falls apart is determined by the two sides.
  have hleft : ∀ {xs ys : List Diagnostic}, (∀ e ∈ xs, ¬ d.startsBy e) →
      (∀ e ∈ ys, d.startsBy e) → (xs ++ ys).filter (fun e => !d.startsBy e) = xs := by
    intro xs ys hxs hys
    rw [List.filter_append, List.filter_eq_self.mpr fun e he => by simpa using hxs e he,
      List.filter_eq_nil_iff.mpr fun e he => by simp [hys e he], List.append_nil]
  obtain rfl : before' = before := by
    rw [← hleft hbefore' hbehind', ← hds', hds, hleft hbefore hbehind]
  obtain rfl : behind' = behind := List.append_cancel_left (hds'.symm.trans hds)
  exact hsorted

theorem sorted_filter (p : Diagnostic → Bool) (ds : List Diagnostic) :
    (Diagnostics.mk ds).sorted.filter p = (Diagnostics.mk (ds.filter p)).sorted := by
  induction ds with
  | nil => simp [sorted_eq]
  | cons d ds ih =>
    obtain ⟨before, behind, hds, hbefore, hbehind, hsorted⟩ := exists_split d ds
    rw [hds, List.filter_append] at ih
    rw [hsorted, List.filter_append]
    by_cases hd : p d
    · rw [List.filter_cons_of_pos hd, List.filter_cons_of_pos hd]
      exact (sorted_cons ih.symm (fun e he => hbefore e ((List.mem_filter.mp he).1))
        fun e he => hbehind e ((List.mem_filter.mp he).1)).symm
    · rw [List.filter_cons_of_neg hd, List.filter_cons_of_neg hd, ih]

theorem sorted_append {ds es : List Diagnostic} (h : ∀ d ∈ ds, ∀ e ∈ es, d.startsBy e) :
    (Diagnostics.mk (ds ++ es)).sorted =
      (Diagnostics.mk ds).sorted ++ (Diagnostics.mk es).sorted := by
  induction ds with
  | nil => simp [sorted_eq]
  | cons d ds ih =>
    obtain ⟨before, behind, hds, hbefore, hbehind, hsorted⟩ := exists_split d ds
    have hall := ih fun d' hd' => h d' (List.mem_cons_of_mem d hd')
    rw [hds, List.append_assoc] at hall
    rw [List.cons_append, hsorted, List.append_assoc, List.cons_append]
    refine sorted_cons hall hbefore fun e he => ?_
    rcases List.mem_append.mp he with he | he
    · exact hbehind e he
    · exact h d (by simp) e (mem_sorted.mp he)

/-- Sorted reports are those that start by an offset, and then the others. -/
theorem sorted_split (n : Nat) (ds : List Diagnostic) :
    (Diagnostics.mk ds).sorted =
      (Diagnostics.mk (ds.filter (·.span.start.offset ≤ n))).sorted ++
        (Diagnostics.mk (ds.filter (n < ·.span.start.offset))).sorted := by
  rw [← sorted_filter, ← sorted_filter]
  have hsorted := List.pairwise_mergeSort startsBy_trans startsBy_total ds
  rw [← sorted_eq] at hsorted
  generalize (Diagnostics.mk ds).sorted = es at hsorted ⊢
  induction hsorted with
  | nil => rfl
  | @cons e es hle _ ih =>
    by_cases he : e.span.start.offset ≤ n
    · rw [List.filter_cons_of_pos (by simp [he]), List.filter_cons_of_neg (by simp [he]),
        List.cons_append, ← ih]
    · -- What follows a late report is late too.
      have hlate : ∀ d ∈ e :: es, n < d.span.start.offset := by
        intro d hd
        rcases List.mem_cons.mp hd with rfl | hd
        · omega
        · have hed := hle d hd
          simp only [Diagnostic.startsBy, decide_eq_true_eq] at hed
          omega
      rw [List.filter_eq_nil_iff.mpr (by simpa using hlate),
        List.filter_eq_self.mpr (by simpa using hlate), List.nil_append]

/-- Early and late reports of two sorts. -/
theorem sorted_interleaved {n : Nat} {ds es ds' es' : List Diagnostic}
    (hearly : ∀ d ∈ ds ++ ds', d.span.start.offset ≤ n)
    (hlate : ∀ e ∈ es ++ es', n < e.span.start.offset) :
    (Diagnostics.mk (ds ++ es ++ (ds' ++ es'))).sorted =
      (Diagnostics.mk (ds ++ ds')).sorted ++ (Diagnostics.mk (es ++ es')).sorted := by
  have hkeep : ∀ {xs : List Diagnostic}, (∀ d ∈ xs, d.span.start.offset ≤ n) →
      xs.filter (·.span.start.offset ≤ n) = xs ∧
        xs.filter (n < ·.span.start.offset) = [] := by
    intro xs hxs
    exact ⟨List.filter_eq_self.mpr (by simpa using hxs),
      List.filter_eq_nil_iff.mpr (by simpa using hxs)⟩
  have hdrop : ∀ {xs : List Diagnostic}, (∀ d ∈ xs, n < d.span.start.offset) →
      xs.filter (·.span.start.offset ≤ n) = [] ∧
        xs.filter (n < ·.span.start.offset) = xs := by
    intro xs hxs
    exact ⟨List.filter_eq_nil_iff.mpr (by simpa using hxs),
      List.filter_eq_self.mpr (by simpa using hxs)⟩
  simp only [List.forall_mem_append] at hearly hlate
  rw [sorted_split n]
  simp only [List.filter_append, hkeep hearly.1, hkeep hearly.2, hdrop hlate.1, hdrop hlate.2,
    List.append_nil, List.nil_append]

theorem sorted_shift (δ : Shift) (ds : List Diagnostic) :
    (Diagnostics.mk (ds.map (·.relocate (Position.shift δ)))).sorted =
      (Diagnostics.mk ds).sorted.map (·.relocate (Position.shift δ)) := by
  refine (List.map_mergeSort fun a _ b _ => ?_).symm
  simp [Diagnostic.relocate]

/-- Reports about a text behind other lines are sorted behind those about the lines. -/
theorem sorted_append_shift {δ : Shift} {ds : List Diagnostic}
    (h : ∀ d ∈ ds, d.span.start.offset ≤ δ.bytes) (es : List Diagnostic) :
    (Diagnostics.mk (ds ++ es.map (·.relocate (Position.shift δ)))).sorted =
      (Diagnostics.mk ds).sorted ++
        (Diagnostics.mk es).sorted.map (·.relocate (Position.shift δ)) := by
  rw [sorted_append, sorted_shift]
  intro d hd e he
  obtain ⟨e', -, rfl⟩ := List.mem_map.mp he
  simp only [Diagnostic.startsBy, Diagnostic.relocate, Span.start_relocate, Position.offset_shift]
  exact decide_eq_true (Nat.le_trans (h d hd) (Nat.le_add_left _ _))

end Diagnostics

end FrontEnd
