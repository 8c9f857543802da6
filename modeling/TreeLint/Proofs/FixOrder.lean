import TreeLint.Proofs.FixSelection

/-! Mending and the order of the reports. The sweep sees the items in the stable order of the places
of their changes, so the order in which they come tells only between changes of one place. -/

namespace TreeLint.Fixing

variable {α : Type} {fix? : α → Option Fix} {items others : List α}

theorem filter_candidates (p : ℤ ×ₗ ℤ) :
    (items.filterMap fun a => (fix? a).map fun f => (a, f)).filter (·.2.place = p) =
      (items.filter fun a => (fix? a).map Fix.place = some p).filterMap
        fun a => (fix? a).map fun f => (a, f) := by
  rw [List.filter_filterMap, List.filterMap_filter]
  refine List.filterMap_congr fun a _ => ?_
  cases offered : fix? a with
  | none => simp
  | some f => by_cases here : f.place = p <;> simp [here]

/-- The same changes are taken and left from lists in which the items of each place stand in the
same order. -/
theorem selection_congr (text : List Char)
    (same : ∀ p : ℤ ×ₗ ℤ, items.filter (fun a => (fix? a).map Fix.place = some p) =
      others.filter fun a => (fix? a).map Fix.place = some p) :
    selection fix? text items = selection fix? text others := by
  have sorted (xs : List α) : StableSort (fun x : α × Fix => x.2.place) _
      ((xs.filterMap fun a => (fix? a).map fun f => (a, f)).mergeSort fun x y => isBefore x.2 y.2) :=
    stableSort_mergeSort (fun x y => isBefore_iff x.2 y.2) _
  have canonical := StableSort.eq_of_ordered (sorted items).ordered (sorted others).ordered
    fun p => by rw [(sorted items).stable, (sorted others).stable, filter_candidates, same,
      filter_candidates]
  rw [selection, selection, canonical]

/-- Where no two changes have the same place, the items of a place are none or one, so every
permutation keeps their order. -/
theorem filter_place_eq_of_perm (perm : items.Perm others)
    (distinct : (items.filterMap fix?).Pairwise fun f g => f.place ≠ g.place) (p : ℤ ×ₗ ℤ) :
    items.filter (fun a => (fix? a).map Fix.place = some p) =
      others.filter fun a => (fix? a).map Fix.place = some p := by
  have alone (xs : List α) (apart : (xs.filterMap fix?).Pairwise fun f g => f.place ≠ g.place) :
      (xs.filter fun a => (fix? a).map Fix.place = some p).Pairwise fun _ _ => False := by
    rw [List.pairwise_filter]
    refine (List.pairwise_filterMap.mp apart).imp fun {a b} differ first second => ?_
    obtain ⟨f, offered, rfl⟩ := Option.map_eq_some_iff.mp (of_decide_eq_true first)
    obtain ⟨g, too, same⟩ := Option.map_eq_some_iff.mp (of_decide_eq_true second)
    exact differ f offered g too same.symm
  have moved := ((perm.filterMap fix?).pairwise_iff fun differ => Ne.symm differ).mp distinct
  exact (perm.filter _).eq_of_pairwise (fun _ _ _ _ never => never.elim) (alone items distinct)
    (alone others moved)

/-- Where no two changes have the same start and stop, the order of the items does not matter: the
text is the same, and so are the sequences of the items applied and of those skipped. -/
theorem apply_of_perm (fix? : α → Option Fix) (text : List Char) {items others : List α}
    (perm : items.Perm others)
    (distinct : (items.filterMap fix?).Pairwise fun f g => f.place ≠ g.place) :
    apply fix? text items = apply fix? text others := by
  rw [apply_eq, apply_eq, selection_congr text (filter_place_eq_of_perm perm distinct)]

/-- Three changes that come backwards; the last two of them overlap. -/
theorem apply_of_perm_backwards :
    let changes : List Fix := [⟨.int 3, .int 3, "-"⟩, ⟨.int 1, .int 3, "x"⟩, ⟨.int 0, .int 2, "y"⟩]
    changes.Perm changes.reverse ∧
      (changes.filterMap some).Pairwise (fun f g => f.place ≠ g.place) ∧
      apply some "abcd".toList changes = apply some "abcd".toList changes.reverse ∧
      (apply some "abcd".toList changes).text = "yc-d".toList := by
  intro changes
  have perm : changes.Perm changes.reverse := changes.reverse_perm.symm
  have distinct : (changes.filterMap some).Pairwise fun f g => f.place ≠ g.place := by decide
  refine ⟨perm, distinct, apply_of_perm some "abcd".toList perm distinct, ?_⟩
  simp [changes, apply, List.mergeSort, List.MergeSort.Internal.splitInTwo, isBefore, select, fits,
    Ordinal.value, splice, Text.slice, Text.clampOffset]

end TreeLint.Fixing
