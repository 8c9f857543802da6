import TreeLint.Proofs.Fixing
import TreeLint.Proofs.StableSort

/-! Changes that keep apart. Mending leaves a change out only where it overlaps another one, so of
changes that stand within the text and keep apart it makes all, in whatever order they come. -/

namespace TreeLint

namespace Fix

/-- Two changes keep apart: one stops where the other starts, or before. -/
def Apart (f g : Fix) : Prop := f.stop.value ≤ g.start.value ∨ g.stop.value ≤ f.start.value

/-- A change stands within a text of some length. -/
structure Within (length : Nat) (f : Fix) : Prop where
  low : 0 ≤ f.start.value
  directed : f.start.value ≤ f.stop.value
  high : f.stop.value ≤ length

/-- The start and the stop of a change, the start first. -/
def place (f : Fix) : ℤ ×ₗ ℤ := toLex (f.start.value, f.stop.value)

/-- Of two changes that keep apart, the one that is placed first stops before the other starts. -/
theorem stop_le_start {length : Nat} {f g : Fix} (apart : f.Apart g) (ordered : f.place ≤ g.place)
    (within : g.Within length) : f.stop.value ≤ g.start.value := by
  obtain ⟨-, directed, -⟩ := within
  rw [place, place, Prod.Lex.toLex_le_toLex] at ordered
  unfold Apart at apart
  omega

theorem Apart.symm {f g : Fix} (apart : f.Apart g) : g.Apart f := Or.symm apart

end Fix

/-- Changes that are made in a text keep apart. -/
theorem Mends.apart {cursor : Int} {text after : List Char} {changes : List Fix}
    (mends : Mends cursor text changes after) : changes.Pairwise Fix.Apart := by
  induction mends with
  | rest => exact .nil
  | change _ _ later ih =>
    exact List.pairwise_cons.mpr ⟨fun g member => .inl (later.start_le g member), ih⟩

namespace Fixing

variable {α : Type}

theorem isBefore_iff (f g : Fix) : isBefore f g = true ↔ f.place ≤ g.place := by
  simp [isBefore, Fix.place, Prod.Lex.toLex_le_toLex]

/-- Changes of which each stops before the next one starts are all taken. -/
theorem select_eq_self {length : Nat} {last : Int} {ordered : List (α × Fix)}
    (follow : ordered.Pairwise fun x y => x.2.stop.value ≤ y.2.start.value)
    (within : ∀ x ∈ ordered, x.2.Within length) (after : ∀ x ∈ ordered, last ≤ x.2.start.value) :
    select length last ordered = (ordered, []) := by
  induction ordered generalizing last with
  | nil => rfl
  | cons x rest ih =>
    obtain ⟨a, f⟩ := x
    rw [List.pairwise_cons] at follow
    obtain ⟨⟨low, directed, high⟩, others⟩ := List.forall_mem_cons.mp within
    obtain ⟨here, -⟩ := List.forall_mem_cons.mp after
    have fit : fits length last f = true := by
      simp only [fits, Bool.and_eq_true, decide_eq_true_eq]
      exact ⟨⟨⟨here, low⟩, high⟩, directed⟩
    rw [select, if_pos fit, ih follow.2 others follow.1]

/-- Changes that stand within a text and keep apart are all made. -/
theorem apply_of_apart {fix? : α → Option Fix} {text : List Char} {items : List α}
    (apart : (items.filterMap fix?).Pairwise Fix.Apart)
    (within : ∀ f ∈ items.filterMap fix?, f.Within text.length) :
    (apply fix? text items).skipped = [] ∧
      (changes fix? text items).Perm (items.filterMap fix?) := by
  let candidates := items.filterMap fun a => (fix? a).map fun f => (a, f)
  let ordered := candidates.mergeSort fun x y => isBefore x.2 y.2
  have fixes : candidates.map (·.2) = items.filterMap fix? := by
    rw [List.map_filterMap]
    refine List.filterMap_congr fun a _ => ?_
    rw [Option.map_map]
    exact Option.map_id'
  have sorted : StableSort (fun x : α × Fix => x.2.place) candidates ordered :=
    stableSort_mergeSort (fun x y => isBefore_iff x.2 y.2) candidates
  have same : (ordered.map (·.2)).Perm (items.filterMap fix?) := fixes ▸ sorted.perm.map _
  have inside : ∀ x ∈ ordered, x.2.Within text.length := by
    intro x member
    exact within x.2 (same.subset (List.mem_map_of_mem member))
  have follow : ordered.Pairwise fun x y => x.2.stop.value ≤ y.2.start.value := by
    have kept := List.pairwise_map.mp ((same.pairwise_iff Fix.Apart.symm).mpr apart)
    refine (kept.and sorted.ordered).imp_of_mem fun {x y} _ second both => ?_
    exact Fix.stop_le_start both.1 both.2 (inside y second)
  have taken : select text.length (-1) ordered = (ordered, []) := by
    refine select_eq_self follow inside fun x member => ?_
    have := (inside x member).low
    omega
  have changed : changes fix? text items = ordered.map (·.2) := by
    rw [changes_eq]
    change (select text.length (-1) ordered).1.map (·.2) = _
    rw [taken]
  refine ⟨?_, changed ▸ same⟩
  change (select text.length (-1) ordered).2.map (·.1) = []
  rw [taken]
  rfl

end Fixing

end TreeLint
