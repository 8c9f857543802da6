import Mathlib.Data.List.TakeWhile
import TreeLint.Text.Blank

/-! What is left of a text without the white space at both its ends. -/

namespace TreeLint.Text

/-- A text is a name with white space around it, which the name does not start or end with. -/
structure Trims (cs name : List Char) : Prop where
  around : ∃ before after, cs = before ++ name ++ after ∧ (∀ c ∈ before, isBlank c = true) ∧
    ∀ c ∈ after, isBlank c = true
  first : ∀ c ∈ name.head?, isBlank c = false
  last : ∀ c ∈ name.getLast?, isBlank c = false

variable {cs name : List Char}

theorem span_append {test : Char → Bool} {taken : List Char} (rest : List Char)
    (all : ∀ c ∈ taken, test c = true) (stops : ∀ c ∈ rest.head?, test c = false) :
    (taken ++ rest).takeWhile test = taken ∧ (taken ++ rest).dropWhile test = rest := by
  rw [List.takeWhile_append_of_pos all, List.dropWhile_append_of_pos all]
  cases rest with
  | nil => simp
  | cons c rest =>
    have closed : ¬ test c = true := by simp [stops c rfl]
    simp [closed]

theorem not_blank_of_head_dropWhile {c : Char} (first : c ∈ (cs.dropWhile isBlank).head?) :
    isBlank c = false := by
  have stops := List.head?_dropWhile_not isBlank cs
  rwa [first] at stops

theorem trims_strip (cs : List Char) : Trims cs (strip cs) := by
  have start : cs.takeWhile isBlank ++ cs.dropWhile isBlank = cs :=
    List.takeWhile_append_dropWhile
  have stop : (cs.dropWhile isBlank).reverse.takeWhile isBlank ++
      (cs.dropWhile isBlank).reverse.dropWhile isBlank = (cs.dropWhile isBlank).reverse :=
    List.takeWhile_append_dropWhile
  have middle : cs.dropWhile isBlank =
      strip cs ++ ((cs.dropWhile isBlank).reverse.takeWhile isBlank).reverse := by
    rw [strip, ← List.reverse_append, stop, List.reverse_reverse]
  refine ⟨⟨cs.takeWhile isBlank, ((cs.dropWhile isBlank).reverse.takeWhile isBlank).reverse, ?_,
    fun c => List.mem_takeWhile_imp, fun c member =>
    List.mem_takeWhile_imp (List.mem_reverse.mp member)⟩, fun c first => ?_, fun c last => ?_⟩
  · rw [List.append_assoc, ← middle, start]
  · refine not_blank_of_head_dropWhile (?_ : c ∈ (cs.dropWhile isBlank).head?)
    rw [middle, List.head?_append, first]
    rfl
  · rw [strip, List.getLast?_reverse] at last
    exact not_blank_of_head_dropWhile last

theorem Trims.strip_eq (trims : Trims cs name) : strip cs = name := by
  obtain ⟨⟨before, after, rfl, blank, blank'⟩, first, last⟩ := trims
  cases name with
  | nil =>
    have all : ∀ c ∈ before ++ after, isBlank c = true := fun c member =>
      (List.mem_append.mp member).elim (blank c) (blank' c)
    have none := (span_append [] all nofun).2
    simp only [List.append_nil] at none ⊢
    rw [strip, none]
    rfl
  | cons c name =>
    have front : (before ++ (c :: name ++ after)).dropWhile isBlank = c :: name ++ after :=
      (span_append (c :: name ++ after) blank first).2
    have back : (after.reverse ++ (c :: name).reverse).dropWhile isBlank = (c :: name).reverse := by
      refine (span_append _ (fun d member => blank' d (List.mem_reverse.mp member)) ?_).2
      rwa [List.head?_reverse]
    rw [strip, List.append_assoc, front, List.reverse_append, back, List.reverse_reverse]

theorem strip_eq_nil_iff : strip cs = [] ↔ allBlank cs = true := by
  rw [allBlank, List.all_eq_true]
  constructor
  · intro none
    obtain ⟨before, after, split, blank, blank'⟩ := (trims_strip cs).around
    rw [none, List.append_nil] at split
    rw [split]
    exact fun c member => (List.mem_append.mp member).elim (blank c) (blank' c)
  · intro blank
    exact Trims.strip_eq ⟨⟨cs, [], by simp, blank, nofun⟩, nofun, nofun⟩

end TreeLint.Text
