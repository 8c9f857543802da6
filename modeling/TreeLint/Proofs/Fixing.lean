import TreeLint.Proofs.Mending

/-! What mending makes of a text. The changes that are taken follow each other within the text, and
making them is making these changes and no others. -/

namespace TreeLint.Fixing

variable {α β : Type}

/-- Changes follow each other within a text of some length, the first one no earlier than
`cursor`. -/
def Follow (length : Nat) : Int → List Fix → Prop
  | _, [] => True
  | cursor, f :: rest => cursor ≤ f.start.value ∧ f.start.value ≤ f.stop.value ∧
      f.stop.value ≤ length ∧ Follow length f.stop.value rest

theorem select_follow (length : Nat) {cursor last : Int} (ordered : List (α × Fix))
    (early : cursor ≤ max last 0) :
    Follow length cursor ((select length last ordered).1.map (·.2)) := by
  fun_induction select length last ordered generalizing cursor with
  | case1 => trivial
  | case2 last a f rest fit taken left made ih =>
    simp only [fits, Bool.and_eq_true, decide_eq_true_eq] at fit
    obtain ⟨⟨⟨after, inside⟩, within⟩, directed⟩ := fit
    have follows := @ih f.stop.value (by omega)
    rw [made] at follows
    refine ⟨?_, directed, within, follows⟩
    change cursor ≤ f.start.value
    omega
  | case3 last a f rest _ taken left made ih =>
    have follows := ih early
    rwa [made] at follows

theorem select_sublist (length : Nat) (last : Int) (ordered : List (α × Fix)) :
    (select length last ordered).1.Sublist ordered := by
  fun_induction select length last ordered with
  | case1 => exact .slnil
  | case2 last a f rest _ taken left made ih =>
    rw [made] at ih
    exact ih.cons_cons _
  | case3 last a f rest _ taken left made ih =>
    rw [made] at ih
    exact ih.cons _

theorem slice_eq {text : List Char} {first last : Int} (low : 0 ≤ first) (directed : first ≤ last)
    (high : last ≤ text.length) :
    Text.slice text first last = (text.take last.toNat).drop first.toNat := by
  have place {offset : Int} (low : 0 ≤ offset) (high : offset ≤ text.length) :
      Text.clampOffset text.length offset = offset.toNat := by
    unfold Text.clampOffset
    rw [if_neg (by omega), Nat.min_eq_left (by omega)]
  rw [Text.slice, place low (by omega), place (by omega) high]

theorem splice_mends {text : List Char} {cursor : Int} (taken : List (α × Fix))
    (low : 0 ≤ cursor) (high : cursor ≤ text.length)
    (follows : Follow text.length cursor (taken.map (·.2))) :
    Mends cursor (text.drop cursor.toNat) (taken.map (·.2)) (splice text cursor taken) := by
  induction taken generalizing cursor with
  | nil =>
    rw [splice, slice_eq low high (Int.le_refl _), Int.toNat_natCast, List.take_length]
    exact .rest cursor _
  | cons x rest ih =>
    obtain ⟨a, f⟩ := x
    obtain ⟨after, directed, within, follows⟩ := follows
    change cursor ≤ f.start.value at after
    change f.start.value ≤ f.stop.value at directed
    change f.stop.value ≤ text.length at within
    have later := ih (by omega) within follows
    have split : text.drop cursor.toNat =
        (text.take f.start.value.toNat).drop cursor.toNat ++
          (text.take f.stop.value.toNat).drop f.start.value.toNat ++
          text.drop f.stop.value.toNat := by
      have first : text.drop cursor.toNat =
          (text.take f.start.value.toNat).drop cursor.toNat ++
            text.drop f.start.value.toNat := by
        rw [← List.drop_append_of_le_length (by simp only [List.length_take]; omega),
          List.take_append_drop]
      have second : text.drop f.start.value.toNat =
          (text.take f.stop.value.toNat).drop f.start.value.toNat ++
            text.drop f.stop.value.toNat := by
        rw [← List.drop_append_of_le_length (by simp only [List.length_take]; omega),
          List.take_append_drop]
      rw [List.append_assoc, ← second, first]
    rw [List.map_cons, splice, slice_eq low after (by omega), ← List.append_assoc, split]
    refine .change ?_ ?_ later
    · simp only [List.length_drop, List.length_take]
      omega
    · simp only [List.length_drop, List.length_take]
      omega

def changes (fix? : α → Option Fix) (text : List Char) (items : List α) : List Fix :=
  (apply fix? text items).applied.filterMap fix?

theorem filterMap_fst {fix? : α → Option Fix} {taken : List (α × Fix)}
    (own : ∀ x ∈ taken, fix? x.1 = some x.2) :
    (taken.map (·.1)).filterMap fix? = taken.map (·.2) := by
  induction taken with
  | nil => rfl
  | cons x rest ih =>
    obtain ⟨first, others⟩ := List.forall_mem_cons.mp own
    rw [List.map_cons, List.filterMap_cons_some first, ih others, List.map_cons]

theorem changes_eq (fix? : α → Option Fix) (text : List Char) (items : List α) :
    changes fix? text items = (select text.length (-1)
      ((items.filterMap fun a => (fix? a).map fun f => (a, f)).mergeSort
        fun a b => isBefore a.2 b.2)).1.map (·.2) := by
  refine filterMap_fst fun x member => ?_
  have chosen := (select_sublist _ _ _).subset member
  obtain ⟨a, -, given⟩ := List.mem_filterMap.mp (List.mem_mergeSort.mp chosen)
  obtain ⟨f, held, rfl⟩ := Option.map_eq_some_iff.mp given
  exact held

theorem length_changes (fix? : α → Option Fix) (text : List Char) (items : List α) :
    (changes fix? text items).length = (apply fix? text items).applied.length := by
  rw [changes_eq, List.length_map]
  exact (List.length_map _).symm

/-- Every change comes with one of the items. -/
theorem mem_of_mem_changes {fix? : α → Option Fix} {text : List Char} {items : List α} {f : Fix}
    (member : f ∈ changes fix? text items) : ∃ a ∈ items, fix? a = some f := by
  rw [changes_eq] at member
  obtain ⟨x, taken, rfl⟩ := List.mem_map.mp member
  have chosen := List.mem_mergeSort.mp ((select_sublist _ _ _).subset taken)
  obtain ⟨a, item, given⟩ := List.mem_filterMap.mp chosen
  obtain ⟨f, held, rfl⟩ := Option.map_eq_some_iff.mp given
  exact ⟨a, item, held⟩

/-- Mending makes the changes that it applies, and leaves everything else in its place. -/
theorem apply_mends (fix? : α → Option Fix) (text : List Char) (items : List α) :
    Mends 0 text (changes fix? text items) (apply fix? text items).text := by
  rw [changes_eq]
  exact splice_mends _ (Int.le_refl 0) (Int.natCast_nonneg _) (select_follow _ _ (by decide))

theorem select_map (g : β → α) (length : Nat) (last : Int) (ordered : List (β × Fix)) :
    select length last (ordered.map fun x => (g x.1, x.2)) =
      ((select length last ordered).1.map (fun x => (g x.1, x.2)),
        (select length last ordered).2.map (fun x => (g x.1, x.2))) := by
  fun_induction select length last ordered with
  | case1 => rfl
  | case2 last a f rest fit taken left made ih =>
    rw [made] at ih
    rw [List.map_cons, select, if_pos fit, ih]
    rfl
  | case3 last a f rest fit taken left made ih =>
    rw [made] at ih
    rw [List.map_cons, select, if_neg fit, ih]
    rfl

theorem splice_map (g : β → α) (text : List Char) (cursor : Int) (taken : List (β × Fix)) :
    splice text cursor (taken.map fun x => (g x.1, x.2)) = splice text cursor taken := by
  induction taken generalizing cursor with
  | nil => rfl
  | cons x rest ih => rw [List.map_cons, splice, splice, ih]

/-- Mending looks at the changes of the items and at nothing else of them. -/
theorem apply_map (fix? : α → Option Fix) (g : β → α) (text : List Char) (items : List β) :
    (apply fix? text (items.map g)).text = (apply (fun x => fix? (g x)) text items).text ∧
      (apply fix? text (items.map g)).applied =
        (apply (fun x => fix? (g x)) text items).applied.map g ∧
      (apply fix? text (items.map g)).skipped =
        (apply (fun x => fix? (g x)) text items).skipped.map g := by
  have candidates : ((items.map g).filterMap fun a => (fix? a).map fun f => (a, f)) =
      (items.filterMap fun a => (fix? (g a)).map fun f => (a, f)).map fun x => (g x.1, x.2) := by
    rw [List.filterMap_map, List.map_filterMap]
    refine List.filterMap_congr fun a _ => ?_
    simp only [Function.comp_apply, Option.map_map]
    rfl
  unfold apply
  simp only [candidates]
  rw [← List.map_mergeSort (f := fun x : β × Fix => (g x.1, x.2))
    (r := fun a b => isBefore a.2 b.2) (fun _ _ _ _ => rfl), select_map]
  simp only [splice_map, List.map_map, true_and]
  exact ⟨rfl, rfl⟩

end TreeLint.Fixing
