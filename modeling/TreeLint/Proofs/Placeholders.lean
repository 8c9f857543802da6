import TreeLint.Proofs.Trimming
import TreeLint.Rule.Message

/-! Placeholders: some text between pairs of braces, with no brace in it. What reading and filling
do is settled by whether a placeholder stands at the start of the text. -/

namespace TreeLint.Message

open Text

def braced (inside : List Char) : List Char := '\x7b' :: '\x7b' :: (inside ++ ['\x7d', '\x7d'])

/-- What stands between the braces of a placeholder: some characters, none of them a brace. -/
def IsInside (inside : List Char) : Prop := inside ≠ [] ∧ ∀ c ∈ inside, c ≠ '\x7b' ∧ c ≠ '\x7d'

/-- A placeholder stands at the start of a text. -/
def Opens (cs : List Char) : Prop := ∃ inside tail, IsInside inside ∧ cs = braced inside ++ tail

variable {cs inside tail : List Char} {data : List (String × String)}

theorem isInner_iff {c : Char} : isInner c = true ↔ c ≠ '\x7b' ∧ c ≠ '\x7d' := by
  simp [isInner]

theorem length_lt_braced : tail.length < (braced inside ++ tail).length := by
  simp only [braced, List.length_append, List.length_cons]
  omega

theorem placeholder?_braced (within : IsInside inside) (tail : List Char) :
    placeholder? (braced inside ++ tail) = some (inside, tail) := by
  obtain ⟨some, inner⟩ := within
  have spans := span_append ('\x7d' :: '\x7d' :: tail)
    (fun c member => isInner_iff.mpr (inner c member)) (by rintro _ ⟨⟩; decide)
  have reads : braced inside ++ tail = '\x7b' :: '\x7b' :: (inside ++ '\x7d' :: '\x7d' :: tail) := by
    simp [braced]
  rw [reads]
  simp only [placeholder?, spans]
  cases inside with
  | nil => exact absurd rfl some
  | cons c inside => rfl

theorem placeholder?_eq_some_iff : placeholder? cs = some (inside, tail) ↔
    IsInside inside ∧ cs = braced inside ++ tail := by
  constructor
  · intro found
    unfold placeholder? at found
    split at found
    · rename_i rest
      split at found
      · rename_i c inside' tail' taken dropped
        cases found
        have split : rest.takeWhile isInner ++ rest.dropWhile isInner = rest :=
          List.takeWhile_append_dropWhile
        refine ⟨⟨List.cons_ne_nil _ _, fun d member => isInner_iff.mp ?_⟩, ?_⟩
        · rw [← taken] at member
          exact List.mem_takeWhile_imp member
        · rw [← split, taken, dropped]
          simp [braced]
      · cases found
    · cases found
  · rintro ⟨within, rfl⟩
    exact placeholder?_braced within tail

theorem opens_iff : Opens cs ↔ placeholder? cs ≠ none := by
  simp only [Opens, ← placeholder?_eq_some_iff, Option.ne_none_iff_exists', Prod.exists]

theorem not_opens_nil : ¬ Opens [] := by
  rintro ⟨inside, tail, -, split⟩
  cases split

theorem fillAll_of_found (within : IsInside inside) :
    fillAll data (braced inside ++ tail) = fill data inside ++ fillAll data tail := by
  have found := placeholder?_braced within tail
  rw [braced, List.cons_append] at found ⊢
  rw [fillAll]
  split
  · rename_i inside' tail' same
    obtain ⟨rfl, rfl⟩ := Prod.mk.inj (Option.some.inj (same.symm.trans found))
    rfl
  · rename_i none
    cases none.symm.trans found

theorem fillAll_of_closed {c : Char} (closed : ¬ Opens (c :: cs)) :
    fillAll data (c :: cs) = c :: fillAll data cs := by
  rw [opens_iff, Classical.not_not] at closed
  rw [fillAll]
  split
  · rename_i found
    cases closed.symm.trans found
  · rfl

/-- Induction along the search for placeholders: behind a placeholder that opens the text it goes on
with the rest, and otherwise with the next character. -/
@[elab_as_elim]
theorem searchInduction {P : List Char → Prop} (cs : List Char) (nil : P [])
    (slot : ∀ inside tail, IsInside inside → P tail → P (braced inside ++ tail))
    (char : ∀ c cs, ¬ Opens (c :: cs) → P cs → P (c :: cs)) : P cs := by
  match cs with
  | [] => exact nil
  | c :: cs =>
    by_cases opens : Opens (c :: cs)
    · obtain ⟨inside, tail, within, split⟩ := opens
      have shorter : tail.length < (c :: cs).length := split ▸ length_lt_braced
      exact split ▸ slot inside tail within (searchInduction tail nil slot char)
    · exact char c cs opens (searchInduction cs nil slot char)
termination_by cs.length
decreasing_by
  · assumption
  · exact Nat.lt_add_one cs.length

/-- Without entries a template is left as it is. -/
theorem fillAll_nil (cs : List Char) : fillAll [] cs = cs := by
  induction cs using searchInduction with
  | nil => rw [fillAll]
  | slot inside tail within ih =>
    rw [fillAll_of_found within, ih]
    rfl
  | char c cs closed ih => rw [fillAll_of_closed closed, ih]

theorem interpolate_toList (template : String) (data : List (String × String)) :
    (interpolate template data).toList = fillAll data template.toList := by
  rw [interpolate]
  split
  · rename_i none
    rw [List.isEmpty_iff.mp none, fillAll_nil]
  · exact String.toList_ofList

end TreeLint.Message
