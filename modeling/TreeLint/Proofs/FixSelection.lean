import Mathlib.Data.List.Sigma
import TreeLint.Proofs.Disjoint

/-! Which changes mending makes. The sweep keeps one bound only, the end of the change that it took
last; because the changes come in the order of their places, a change that starts before this bound
overlaps the change that set it. So a change is left out just when it does not stand within the text
or overlaps one that is made. -/

namespace TreeLint

theorem zipIdx_nodup {α : Type} (xs : List α) : xs.zipIdx.Nodup :=
  (List.nodup_zipIdx_map_snd xs).of_map _

namespace Fix

/-- Two changes overlap: each of them starts before the other stops. -/
def Overlaps (f g : Fix) : Prop := f.start.value < g.stop.value ∧ g.start.value < f.stop.value

theorem not_overlaps_iff {f g : Fix} : ¬ f.Overlaps g ↔ f.Apart g := by
  simp only [Overlaps, Apart]
  omega

theorem overlaps_of_early {length : Nat} {f g : Fix} (ordered : f.place ≤ g.place)
    (within : g.Within length) (early : g.start.value < f.stop.value) : f.Overlaps g := by
  have directed := within.directed
  simp only [place, Prod.Lex.toLex_le_toLex] at ordered
  refine ⟨?_, early⟩
  omega

end Fix

namespace Fixing

variable {α : Type}

theorem fits_iff {length : Nat} {last : Int} {f : Fix} :
    fits length last f = true ↔ last ≤ f.start.value ∧ f.Within length := by
  simp only [fits, Bool.and_eq_true, decide_eq_true_eq]
  constructor
  · rintro ⟨⟨⟨after, low⟩, high⟩, directed⟩
    exact ⟨after, low, directed, high⟩
  · rintro ⟨after, low, directed, high⟩
    exact ⟨⟨⟨after, low⟩, high⟩, directed⟩

theorem select_perm (length : Nat) (last : Int) (ordered : List (α × Fix)) :
    ((select length last ordered).1 ++ (select length last ordered).2).Perm ordered := by
  fun_induction select length last ordered with
  | case1 => exact .nil
  | case2 last a f rest fit taken left made ih =>
    rw [made] at ih
    exact ih.cons _
  | case3 last a f rest _ taken left made ih =>
    rw [made] at ih
    exact List.perm_middle.trans (ih.cons _)

theorem select_within (length : Nat) (last : Int) (ordered : List (α × Fix)) :
    ∀ x ∈ (select length last ordered).1, x.2.Within length := by
  fun_induction select length last ordered with
  | case1 => exact List.forall_mem_nil _
  | case2 last a f rest fit taken left made ih =>
    rw [made] at ih
    exact List.forall_mem_cons.mpr ⟨(fits_iff.mp fit).2, ih⟩
  | case3 last a f rest _ taken left made ih => rwa [made] at ih

/-- What is left of ordered changes within a text overlaps one that is taken, or is blocked by what
was taken before, which blocks changes that start before `last`. -/
theorem select_left {length : Nat} {last : Int} {ordered : List (α × Fix)} (blocked : Fix → Prop)
    (sorted : ordered.Pairwise fun x y => x.2.place ≤ y.2.place)
    (blocks : ∀ x ∈ ordered, x.2.Within length → x.2.start.value < last → blocked x.2) :
    ∀ x ∈ (select length last ordered).2, x.2.Within length →
      blocked x.2 ∨ ∃ y ∈ (select length last ordered).1, y.2.Overlaps x.2 := by
  fun_induction select length last ordered generalizing blocked with
  | case1 => exact List.forall_mem_nil _
  | case2 last a f rest fit taken left made ih =>
    rw [List.pairwise_cons] at sorted
    have later := ih f.Overlaps sorted.2 fun x member within early =>
      Fix.overlaps_of_early (sorted.1 x member) within early
    rw [made] at later
    intro x member within
    right
    rcases later x member within with here | ⟨y, chosen, overlaps⟩
    · exact ⟨(a, f), List.mem_cons_self, here⟩
    · exact ⟨y, .tail _ chosen, overlaps⟩
  | case3 last a f rest unfit taken left made ih =>
    rw [List.pairwise_cons] at sorted
    obtain ⟨here, others⟩ := List.forall_mem_cons.mp blocks
    have later := ih blocked sorted.2 others
    rw [made] at later
    refine List.forall_mem_cons.mpr ⟨fun within => .inl (here within ?_), later⟩
    by_contra late
    exact unfit (fits_iff.mpr ⟨Int.not_lt.mp late, within⟩)

/-- Items that come with changes, told apart into those whose changes are made and the others. -/
def selection (fix? : α → Option Fix) (text : List Char) (items : List α) :
    List (α × Fix) × List (α × Fix) :=
  select text.length (-1) ((items.filterMap fun a => (fix? a).map fun f => (a, f)).mergeSort
    fun x y => isBefore x.2 y.2)

variable (fix? : α → Option Fix) (text : List Char) (items : List α)

theorem apply_eq : apply fix? text items =
    ⟨splice text 0 (selection fix? text items).1, (selection fix? text items).1.map (·.1),
      (selection fix? text items).2.map (·.1)⟩ := rfl

theorem map_candidates : (items.filterMap fun a => (fix? a).map fun f => (a, f)).map (·.1) =
    items.filter fun a => (fix? a).isSome := by
  induction items with
  | nil => rfl
  | cons a rest ih => cases offered : fix? a <;> simp [offered, ih]

theorem selection_perm : ((selection fix? text items).1 ++ (selection fix? text items).2).Perm
    (items.filterMap fun a => (fix? a).map fun f => (a, f)) :=
  (select_perm _ _ _).trans (List.mergeSort_perm _ _)

theorem fix_of_mem_selection {x : α × Fix}
    (member : x ∈ (selection fix? text items).1 ++ (selection fix? text items).2) :
    fix? x.1 = some x.2 := by
  obtain ⟨a, -, given⟩ := List.mem_filterMap.mp ((selection_perm fix? text items).subset member)
  obtain ⟨f, held, rfl⟩ := Option.map_eq_some_iff.mp given
  exact held

theorem mergeSort_pairwise (candidates : List (α × Fix)) :
    (candidates.mergeSort fun x y => isBefore x.2 y.2).Pairwise
      fun x y => x.2.place ≤ y.2.place := by
  have sorted : StableSort (fun x : α × Fix => x.2.place) candidates _ :=
    stableSort_mergeSort (fun x y => isBefore_iff x.2 y.2) candidates
  exact sorted.ordered

/-- Every item that comes with a change is either applied or skipped. -/
theorem applied_append_skipped_perm :
    ((apply fix? text items).applied ++ (apply fix? text items).skipped).Perm
      (items.filter fun a => (fix? a).isSome) := by
  have both := (selection_perm fix? text items).map (·.1)
  rwa [List.map_append, map_candidates] at both

theorem within_of_applied : ∀ a ∈ (apply fix? text items).applied,
    ∃ f, fix? a = some f ∧ f.Within text.length := by
  intro a member
  rw [apply_eq] at member
  obtain ⟨x, chosen, rfl⟩ := List.mem_map.mp member
  exact ⟨x.2, fix_of_mem_selection fix? text items (List.mem_append_left _ chosen),
    select_within _ _ _ x chosen⟩

/-- The changes that are made come in the order of their places, and no two of them overlap. -/
theorem changes_pairwise : (changes fix? text items).Pairwise fun f g =>
    f.place ≤ g.place ∧ ¬ f.Overlaps g := by
  have ordered : (changes fix? text items).Pairwise fun f g => f.place ≤ g.place := by
    rw [changes_eq, List.pairwise_map]
    exact (mergeSort_pairwise _).sublist (select_sublist _ _ _)
  refine (ordered.and (apply_mends fix? text items).apart).imp fun both => ?_
  exact ⟨both.1, Fix.not_overlaps_iff.mpr both.2⟩

variable {fix? text items}

theorem exists_applied_of_skipped {a : α} {f : Fix} (skipped : a ∈ (apply fix? text items).skipped)
    (offered : fix? a = some f) (within : f.Within text.length) :
    ∃ b ∈ (apply fix? text items).applied, ∃ g, fix? b = some g ∧ g.Overlaps f := by
  rw [apply_eq] at skipped ⊢
  obtain ⟨x, left, rfl⟩ := List.mem_map.mp skipped
  have own := fix_of_mem_selection fix? text items (List.mem_append_right _ left)
  obtain rfl := Option.some.inj (own.symm.trans offered)
  -- nothing is taken before the sweep starts, and no change within the text starts below zero
  have free : ∀ y ∈ (items.filterMap fun a => (fix? a).map fun f => (a, f)).mergeSort
      (fun x y => isBefore x.2 y.2), y.2.Within text.length → y.2.start.value < -1 → False := by
    intro y _ inside early
    have := inside.low
    omega
  obtain ⟨y, chosen, overlaps⟩ :=
    (select_left (fun _ => False) (mergeSort_pairwise _) free x left within).resolve_left id
  exact ⟨y.1, List.mem_map_of_mem chosen, y.2,
    fix_of_mem_selection fix? text items (List.mem_append_left _ chosen), overlaps⟩

theorem apart_of_applied {a b : α} {f g : Fix} (one : a ∈ (apply fix? text items).applied)
    (other : b ∈ (apply fix? text items).applied) (differ : a ≠ b) (offered : fix? a = some f)
    (too : fix? b = some g) : f.Apart g := by
  have apart := (apply_mends fix? text items).apart
  rw [changes, List.pairwise_filterMap] at apart
  have symmetric : Std.Symm fun a b : α =>
      ∀ f, fix? a = some f → ∀ g, fix? b = some g → f.Apart g :=
    ⟨fun a b apart g offered f too => (apart f too g offered).symm⟩
  exact apart.forall one other differ f offered g too

/-- Of items that are told apart, one is skipped just when its change does not stand within the text
or overlaps the change of another one that is applied. -/
theorem mem_skipped_iff (distinct : items.Nodup) {a : α} (member : a ∈ items) {f : Fix}
    (offered : fix? a = some f) : a ∈ (apply fix? text items).skipped ↔
      ¬ f.Within text.length ∨ ∃ b ∈ (apply fix? text items).applied, b ≠ a ∧
        ∃ g, fix? b = some g ∧ g.Overlaps f := by
  have all := applied_append_skipped_perm fix? text items
  have apart := List.disjoint_of_nodup_append (all.nodup_iff.mpr (distinct.filter _))
  constructor
  · intro skipped
    by_cases within : f.Within text.length
    · obtain ⟨b, applied, overlapped⟩ := exists_applied_of_skipped skipped offered within
      refine .inr ⟨b, applied, ?_, overlapped⟩
      rintro rfl
      exact apart applied skipped
    · exact .inl within
  · intro hindered
    have offers : a ∈ items.filter fun a => (fix? a).isSome :=
      List.mem_filter.mpr ⟨member, by rw [offered]; rfl⟩
    rcases List.mem_append.mp (all.mem_iff.mpr offers) with applied | skipped
    · exfalso
      rcases hindered with outside | ⟨b, made, differs, g, too, overlaps⟩
      · obtain ⟨_, own, within⟩ := within_of_applied fix? text items a applied
        rw [offered, Option.some.injEq] at own
        exact outside (own ▸ within)
      · exact Fix.not_overlaps_iff.mpr (apart_of_applied made applied differs too offered) overlaps
    · exact skipped

/-- What mending comes to. The items that come with changes are those applied and those skipped. The
changes applied stand within the text, come in the order of their places and do not overlap, and the
text is the one before with them made in it and nothing else touched. Of the occurrences of items in
the list, one is skipped just when its change does not stand within the text or overlaps the change
of another one that is applied. -/
theorem apply_outcome (fix? : α → Option Fix) (text : List Char) (items : List α) :
    ((apply fix? text items).applied ++ (apply fix? text items).skipped).Perm
      (items.filter fun a => (fix? a).isSome) ∧
    (∀ a ∈ (apply fix? text items).applied, ∃ f, fix? a = some f ∧ f.Within text.length) ∧
    ((apply fix? text items).applied.filterMap fix?).Pairwise (fun f g =>
      f.place ≤ g.place ∧ ¬ f.Overlaps g) ∧
    Mends 0 text ((apply fix? text items).applied.filterMap fix?) (apply fix? text items).text ∧
    ∃ applied skipped : List (α × Nat),
      applied.map (·.1) = (apply fix? text items).applied ∧
      skipped.map (·.1) = (apply fix? text items).skipped ∧
      (applied ++ skipped).Perm (items.zipIdx.filter fun x => (fix? x.1).isSome) ∧
      ∀ x ∈ items.zipIdx, ∀ f, fix? x.1 = some f → (x ∈ skipped ↔ ¬ f.Within text.length ∨
        ∃ y ∈ applied, y ≠ x ∧ ∃ g, fix? y.1 = some g ∧ g.Overlaps f) := by
  refine ⟨applied_append_skipped_perm fix? text items, within_of_applied fix? text items,
    changes_pairwise fix? text items, apply_mends fix? text items, ?_⟩
  obtain ⟨-, applied, skipped⟩ := apply_map fix? (fun x : α × Nat => x.1) text items.zipIdx
  rw [List.zipIdx_map_fst] at applied skipped
  exact ⟨_, _, applied.symm, skipped.symm, applied_append_skipped_perm _ text items.zipIdx,
    fun x member f offered => mem_skipped_iff (zipIdx_nodup items) member offered⟩

/-- Of two changes in one place the first is made, an insertion at its start comes before it, and a
change that stops before it starts is left out. -/
example : (apply some "abcd".toList [⟨.int 1, .int 3, "x"⟩, ⟨.int 1, .int 3, "y"⟩,
    ⟨.int 1, .int 1, "-"⟩, ⟨.int 4, .int 2, "z"⟩]).text = "a-xd".toList := by
  cbv

end Fixing

end TreeLint
