import Mathlib.Data.Prod.Lex
import TreeLint.Rule.Violation

/-! Stable sorts by a key. The order of the items and the order in which those of one key stood
before determine the sorted list, so any two stable sorts of one list are the same. -/

namespace TreeLint

variable {α κ : Type} [LinearOrder κ] {key : α → κ}

/-- One list holds the items of another in the order of their keys; items of one key stand as they
stood before. -/
structure StableSort (key : α → κ) (before after : List α) : Prop where
  perm : after.Perm before
  ordered : after.Pairwise fun a b => key a ≤ key b
  stable : ∀ k, after.filter (key · = k) = before.filter (key · = k)

namespace StableSort

theorem filter {before after : List α} (sorted : StableSort key before after) (p : α → Bool) :
    StableSort key (before.filter p) (after.filter p) where
  perm := sorted.perm.filter p
  ordered := sorted.ordered.filter p
  stable k := by
    simp only [List.filter_filter, Bool.and_comm _ (p _)]
    simp only [← List.filter_filter, sorted.stable]

theorem mem_iff {xs ys : List α} (same : ∀ k, xs.filter (key · = k) = ys.filter (key · = k))
    (a : α) : a ∈ xs ↔ a ∈ ys := by
  have keyed : a ∈ xs.filter (key · = key a) ↔ a ∈ ys.filter (key · = key a) := by rw [same]
  simpa only [List.mem_filter, decide_true, and_true] using keyed

/-- The first item of a list in order has the least key, which the items of that key determine. -/
theorem eq_of_ordered {xs ys : List α} (first : xs.Pairwise fun a b => key a ≤ key b)
    (second : ys.Pairwise fun a b => key a ≤ key b)
    (same : ∀ k, xs.filter (key · = k) = ys.filter (key · = k)) : xs = ys := by
  induction xs generalizing ys with
  | nil =>
    refine (List.eq_nil_iff_forall_not_mem.mpr fun y member => ?_).symm
    exact List.not_mem_nil ((mem_iff same y).mpr member)
  | cons x xs ih =>
    have inSecond := (mem_iff same x).mp List.mem_cons_self
    cases ys with
    | nil => exact absurd inSecond List.not_mem_nil
    | cons y ys =>
      have inFirst := (mem_iff same y).mpr List.mem_cons_self
      rw [List.pairwise_cons] at first second
      have least : key x = key y := by
        apply le_antisymm
        · rcases List.mem_cons.mp inFirst with rfl | later
          · exact le_refl _
          · exact first.1 y later
        · rcases List.mem_cons.mp inSecond with rfl | later
          · exact le_refl _
          · exact second.1 x later
      have head := same (key y)
      simp only [List.filter_cons, least, decide_true, if_true, List.cons.injEq] at head
      obtain ⟨rfl, tail⟩ := head
      have rest : ∀ k, xs.filter (key · = k) = ys.filter (key · = k) := by
        intro k
        by_cases here : key x = k
        · subst here; exact tail
        · simpa [List.filter_cons, here] using same k
      rw [ih first.2 second.2 rest]

theorem unique {before after other : List α} (one : StableSort key before after)
    (two : StableSort key before other) : after = other :=
  eq_of_ordered one.ordered two.ordered fun k => (one.stable k).trans (two.stable k).symm

/-- A sort by one key is a sort by every key that orders the items in the same way. -/
theorem of_key {κ' : Type} [LinearOrder κ'] {other : α → κ'} {before after : List α}
    (sorted : StableSort key before after)
    (same : ∀ a ∈ before, ∀ b ∈ before, (key a ≤ key b ↔ other a ≤ other b)) :
    StableSort other before after := by
  have member {a : α} : a ∈ after → a ∈ before := sorted.perm.mem_iff.mp
  refine ⟨sorted.perm, ?_, fun k => ?_⟩
  · exact sorted.ordered.imp_of_mem fun one two => (same _ (member one) _ (member two)).mp
  · by_cases held : ∃ a ∈ before, other a = k
    · obtain ⟨a, among, rfl⟩ := held
      have ties (b : α) (too : b ∈ before) : decide (other b = other a) = decide (key b = key a) :=
        decide_eq_decide.mpr <| by
          simp only [le_antisymm_iff, same b too a among, same a among b too]
      rw [List.filter_congr fun b too => ties b (member too), List.filter_congr ties]
      exact sorted.stable (key a)
    · have none (b : α) (too : b ∈ before) : ¬ decide (other b = k) = true :=
        fun tie => held ⟨b, too, of_decide_eq_true tie⟩
      rw [List.filter_eq_nil_iff.mpr fun b too => none b (member too),
        List.filter_eq_nil_iff.mpr none]

end StableSort

/-- The library's merge sort is stable for every order that a key gives. -/
theorem stableSort_mergeSort {le : α → α → Bool} (byKey : ∀ a b, le a b = true ↔ key a ≤ key b)
    (xs : List α) : StableSort key xs (xs.mergeSort le) := by
  have trans (a b c : α) (ab : le a b = true) (bc : le b c = true) : le a c = true :=
    (byKey a c).mpr (((byKey a b).mp ab).trans ((byKey b c).mp bc))
  have total (a b : α) : (le a b || le b a) = true := by
    simpa only [Bool.or_eq_true, byKey] using le_total (key a) (key b)
  refine ⟨List.mergeSort_perm xs le, ?_, fun k => ?_⟩
  · exact (List.pairwise_mergeSort trans total xs).imp fun h => (byKey _ _).mp h
  · have ties : (xs.filter (key · = k)).Pairwise fun a b => le a b = true := by
      refine List.pairwise_iff_forall_sublist.mpr fun {a b} pair => ?_
      have first : a ∈ xs.filter (key · = k) := pair.subset (by simp)
      have second : b ∈ xs.filter (key · = k) := pair.subset (by simp)
      simp only [List.mem_filter, decide_eq_true_eq] at first second
      exact (byKey a b).mpr (by rw [first.2, second.2])
    have kept := List.sublist_mergeSort trans total ties List.filter_sublist
    have among := kept.filter (key · = k)
    simp only [List.filter_filter, Bool.and_self] at among
    exact (among.eq_of_length ((List.mergeSort_perm xs le).filter _).length_eq.symm).symm

namespace Violation

/-- The line and the column at which a report stands, the line first. -/
def place (v : Violation) : ℤ ×ₗ ℤ := toLex (v.line.value, v.column.value)

theorem isBefore_iff (a b : Violation) : a.isBefore b = true ↔ a.place ≤ b.place := by
  simp [isBefore, place, Prod.Lex.toLex_le_toLex]

/-- The order of the reports of a file is the stable order of their places. -/
theorem stableSort_byPlace (found : List Violation) :
    StableSort place found (found.mergeSort isBefore) :=
  stableSort_mergeSort isBefore_iff found

end Violation

end TreeLint
