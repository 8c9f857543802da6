import Mathlib.Algebra.Ring.Int.Defs
import Mathlib.Data.List.Basic
import TreeLint.Fixing.Basic
import TreeLint.Text.Lines

/-! Mending a text. A relation says what it is for ordered changes to be made in a text and nothing
else to be touched; the text that mending gives is related to the one it had before. The relation
also tells which other texts would have given the same, and so when it matters that line ends were
read as line feeds. -/

namespace TreeLint

/-- Ordered changes are made in a text that starts at the offset `cursor`: the characters from the
start to the stop of each change give way to its text, and all others are kept in their order. -/
inductive Mends : Int → List Char → List Fix → List Char → Prop
  | rest (cursor : Int) (text : List Char) : Mends cursor text [] text
  | change {cursor : Int} {kept gone text after : List Char} {f : Fix} {changes : List Fix} :
      f.start.value = cursor + kept.length → f.stop.value = f.start.value + gone.length →
      Mends f.stop.value text changes after →
      Mends cursor (kept ++ gone ++ text) (f :: changes) (kept ++ f.text.toList ++ after)

/-- An offset is in the stretch of a change. -/
def Fix.Covers (f : Fix) (offset : Int) : Prop := f.start.value ≤ offset ∧ offset < f.stop.value

namespace Mends

theorem start_le {cursor : Int} {text after : List Char} {changes : List Fix}
    (mends : Mends cursor text changes after) : ∀ f ∈ changes, cursor ≤ f.start.value := by
  induction mends with
  | rest => exact List.forall_mem_nil _
  | @change cursor kept gone text after f changes starts stops _ ih =>
    refine List.forall_mem_cons.mpr ⟨by omega, fun g member => ?_⟩
    have later := ih g member
    omega

/-- A text grows by what the changes put in and shrinks by what they take out. -/
theorem length {cursor : Int} {text after : List Char} {changes : List Fix}
    (mends : Mends cursor text changes after) :
    (after.length : Int) + (changes.map fun f => f.stop.value - f.start.value).sum =
      text.length + (changes.map fun f => (f.text.toList.length : Int)).sum := by
  induction mends with
  | rest => rfl
  | change _ stops _ ih =>
    simp only [List.length_append, List.map_cons, List.sum_cons, Int.natCast_add]
    omega

/-- Two texts agree outside of the stretches of changes; the texts start at the offset `cursor`. -/
def Agree (cursor : Int) (changes : List Fix) (text other : List Char) : Prop :=
  other.length = text.length ∧
    ∀ i : Nat, (∀ f ∈ changes, ¬ f.Covers (cursor + i)) → other[i]? = text[i]?

theorem agree_of_mends {cursor : Int} {text other after : List Char} {changes : List Fix}
    (mends : Mends cursor text changes after) (same : Mends cursor other changes after) :
    Agree cursor changes text other := by
  induction mends generalizing other with
  | rest =>
    cases same
    exact ⟨rfl, fun _ _ => rfl⟩
  | @change cursor kept gone text after f changes starts stops _ ih =>
    generalize result : kept ++ f.text.toList ++ after = final at same
    cases same with
    | @change _ kept' gone' text' after' _ _ starts' stops' mends =>
      rw [List.append_assoc, List.append_assoc] at result
      obtain ⟨keptSame, ends⟩ := List.append_inj result (by omega)
      obtain rfl := keptSame
      obtain rfl := List.append_cancel_left ends
      obtain ⟨long, agree⟩ := ih mends
      have goneSame : gone'.length = gone.length := by omega
      refine ⟨by simp only [List.length_append]; omega, fun i uncovered => ?_⟩
      by_cases before : i < kept.length
      · rw [List.append_assoc, List.append_assoc, List.getElem?_append_left before,
          List.getElem?_append_left before]
      by_cases inside : i < kept.length + gone.length
      · exact absurd ⟨by omega, by omega⟩ (uncovered f List.mem_cons_self)
      · rw [List.getElem?_append_right (by simp only [List.length_append]; omega),
          List.getElem?_append_right (by simp only [List.length_append]; omega)]
        simp only [List.length_append, goneSame]
        refine agree _ fun g member covers => uncovered g (.tail _ member) ?_
        exact ⟨by have := covers.1; omega, by have := covers.2; omega⟩

theorem mends_of_agree {cursor : Int} {text other after : List Char} {changes : List Fix}
    (mends : Mends cursor text changes after) (agrees : Agree cursor changes text other) :
    Mends cursor other changes after := by
  obtain ⟨long, agree⟩ := agrees
  induction mends generalizing other with
  | rest cursor text =>
    obtain rfl : other = text := List.ext_getElem? fun i => agree i (List.forall_mem_nil _)
    exact .rest cursor other
  | @change cursor kept gone text after f changes starts stops mends ih =>
    simp only [List.length_append] at long
    have later := mends.start_le
    -- No change covers an offset before the first one, so the texts agree up to it.
    have keptSame : other.take kept.length = kept := by
      refine List.ext_getElem? fun i => ?_
      by_cases before : i < kept.length
      · have early : ∀ g ∈ f :: changes, ¬ g.Covers (cursor + i) := by
          refine List.forall_mem_cons.mpr ⟨fun covers => ?_, fun g member covers => ?_⟩
          · have := covers.1
            omega
          · have := later g member
            have := covers.1
            omega
        rw [List.getElem?_take_of_lt before, agree i early, List.append_assoc,
          List.getElem?_append_left before]
      · rw [List.getElem?_eq_none (by simp only [List.length_take]; omega),
          List.getElem?_eq_none (by omega)]
    have rest : Mends f.stop.value (other.drop (kept.length + gone.length)) changes after := by
      refine ih (by simp only [List.length_drop]; omega) fun i uncovered => ?_
      have late : ∀ g ∈ f :: changes,
          ¬ g.Covers (cursor + (kept.length + gone.length + i : Nat)) := by
        refine List.forall_mem_cons.mpr ⟨fun covers => ?_, fun g member covers => ?_⟩
        · have := covers.2
          omega
        · exact uncovered g member ⟨by have := covers.1; omega, by have := covers.2; omega⟩
      rw [List.getElem?_drop, agree _ late,
        List.getElem?_append_right (by simp only [List.length_append]; omega)]
      congr 1
      simp only [List.length_append]
      omega
    have split : other = kept ++ (other.drop kept.length).take gone.length ++
        other.drop (kept.length + gone.length) := by
      rw [List.append_assoc, ← List.drop_drop, List.take_append_drop]
      conv_lhs => rw [← List.take_append_drop kept.length other, keptSame]
    rw [split]
    refine .change starts ?_ rest
    simp only [List.length_take, List.length_drop]
    omega

/-- Another text gives the same under the same changes just when it is as long and differs in
stretches of the changes alone. -/
theorem congr_iff {cursor : Int} {text after : List Char} {changes : List Fix}
    (mends : Mends cursor text changes after) (other : List Char) :
    Mends cursor other changes after ↔ Agree cursor changes text other :=
  ⟨mends.agree_of_mends, mends.mends_of_agree⟩

end Mends

namespace Text

theorem length_withLineFeeds_le (cs : List Char) : (withLineFeeds cs).length ≤ cs.length := by
  fun_induction withLineFeeds cs with
  | case1 => exact Nat.le_refl _
  | case2 rest ih =>
    simp only [List.length_cons]
    omega
  | case3 c rest _ ih =>
    simp only [List.length_cons]
    omega

theorem length_withLineFeeds_lt {cs : List Char} {i : Nat} (first : cs[i]? = some '\r')
    (second : cs[i + 1]? = some '\n') : (withLineFeeds cs).length < cs.length := by
  fun_induction withLineFeeds cs generalizing i with
  | case1 => simp at first
  | case2 rest ih =>
    have most := length_withLineFeeds_le rest
    simp only [List.length_cons]
    omega
  | case3 c rest single ih =>
    cases i with
    | zero =>
      rw [List.getElem?_cons_zero, Option.some.injEq] at first
      rw [List.getElem?_cons_succ] at second
      cases rest with
      | nil => simp at second
      | cons d tail =>
        rw [List.getElem?_cons_zero, Option.some.injEq] at second
        exact (single tail first (second ▸ rfl)).elim
    | succ i =>
      rw [List.getElem?_cons_succ] at first second
      have shorter := ih first second
      simp only [List.length_cons]
      omega

theorem withLineFeeds_eq_map {cs : List Char}
    (single : ∀ i : Nat, cs[i]? = some '\r' → cs[i + 1]? ≠ some '\n') :
    withLineFeeds cs = cs.map fun c => if c = '\r' then '\n' else c := by
  fun_induction withLineFeeds cs with
  | case1 => rfl
  | case2 rest ih => exact (single 0 rfl rfl).elim
  | case3 c rest _ ih =>
    rw [List.map_cons, ih fun i => ?_]
    have next := single (i + 1)
    rwa [List.getElem?_cons_succ, List.getElem?_cons_succ] at next

/-- A text without carriage returns is read as it is. -/
theorem withLineFeeds_eq_self {cs : List Char} (none : '\r' ∉ cs) : withLineFeeds cs = cs := by
  rw [withLineFeeds_eq_map fun i first => absurd (List.mem_of_getElem? first) none]
  refine (List.map_congr_left fun c member => ?_).trans (List.map_id cs)
  rw [if_neg, id_eq]
  rintro rfl
  exact none member

end Text

/-- Reading line ends as line feeds leaves what changes do not touch as it was just when every
carriage return stands alone and in the stretch of a change. -/
theorem Mends.agree_withLineFeeds_iff (changes : List Fix) (text : List Char) :
    Agree 0 changes (Text.withLineFeeds text) text ↔
      ∀ i : Nat, text[i]? = some '\r' →
        text[i + 1]? ≠ some '\n' ∧ ∃ f ∈ changes, f.Covers i := by
  constructor
  · rintro ⟨long, agree⟩ i first
    have single : ∀ i : Nat, text[i]? = some '\r' → text[i + 1]? ≠ some '\n' := by
      intro i first second
      have shorter := Text.length_withLineFeeds_lt first second
      omega
    refine ⟨single i first, ?_⟩
    by_contra uncovered
    have same := agree i fun f member covers => uncovered ⟨f, member, by simpa using covers⟩
    rw [Text.withLineFeeds_eq_map single, List.getElem?_map, first, Option.map_some,
      if_pos rfl] at same
    exact absurd same (by decide)
  · intro covered
    rw [Text.withLineFeeds_eq_map fun i first => (covered i first).1]
    refine ⟨(List.length_map _).symm, fun i uncovered => ?_⟩
    rw [List.getElem?_map]
    cases here : text[i]? with
    | none => rfl
    | some c =>
      rw [Option.map_some, if_neg]
      rintro rfl
      obtain ⟨-, f, member, covers⟩ := covered i here
      exact uncovered f member (by simpa using covers)

end TreeLint
