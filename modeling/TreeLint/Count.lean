/-! Sums of a count over the items of a list. -/

namespace TreeLint

def sumOver {α : Type} (count : α → Nat) : List α → Nat
  | [] => 0
  | a :: rest => count a + sumOver count rest

theorem sumOver_append {α : Type} (count : α → Nat) (xs ys : List α) :
    sumOver count (xs ++ ys) = sumOver count xs + sumOver count ys := by
  induction xs with
  | nil => simp [sumOver]
  | cons a rest ih => simp only [List.cons_append, sumOver, ih]; omega

theorem sumOver_map {α β : Type} (count : β → Nat) (f : α → β) (xs : List α) :
    sumOver count (xs.map f) = sumOver (fun a => count (f a)) xs := by
  induction xs with
  | nil => rfl
  | cons a rest ih => simp only [List.map_cons, sumOver, ih]

theorem sumOver_reverse {α : Type} (count : α → Nat) (xs : List α) :
    sumOver count xs.reverse = sumOver count xs := by
  induction xs with
  | nil => rfl
  | cons a rest ih => simp only [List.reverse_cons, sumOver_append, sumOver, ih]; omega

theorem sumOver_attach {α : Type} (count : α → Nat) (xs : List α) :
    sumOver (fun a : { a // a ∈ xs } => count a.1) xs.attach = sumOver count xs := by
  rw [← sumOver_map count Subtype.val, List.attach_map_subtype_val]

end TreeLint
