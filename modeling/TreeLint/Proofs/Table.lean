import Mathlib.Data.List.Nodup
import TreeLint.Value.Basic

/-! Tables as lists of entries. Setting an entry changes what its key leads to and nothing else,
keeps the keys distinct, and brings in nothing but the entry. Keys that are there already keep their
places, and other keys come after them. -/

namespace TreeLint.Table

variable {κ α : Type} [DecidableEq κ]

theorem lookup_cons_eq_ite [BEq κ] [LawfulBEq κ] (entry : κ × α) (rest : List (κ × α))
    (key : κ) : (entry :: rest).lookup key =
      if entry.1 = key then some entry.2 else rest.lookup key := by
  rw [List.lookup_cons]
  by_cases same : entry.1 = key
  · simp [same]
  · simp [same, beq_eq_false_iff_ne.mpr (Ne.symm same)]

theorem lookup_map [BEq κ] [LawfulBEq κ] {β : Type} (f : α → β) (table : List (κ × α)) (key : κ) :
    (table.map fun entry => (entry.1, f entry.2)).lookup key = (table.lookup key).map f := by
  induction table with
  | nil => rfl
  | cons entry table ih =>
    rw [List.map_cons, lookup_cons_eq_ite, lookup_cons_eq_ite, ih]
    split <;> rfl

theorem lookup_put [BEq κ] [LawfulBEq κ] (table : List (κ × α)) (key : κ) (value : α)
    (other : κ) : (put table key value).lookup other =
      if key = other then some value else table.lookup other := by
  induction table with
  | nil => exact lookup_cons_eq_ite (key, value) [] other
  | cons first rest ih =>
    unfold put
    by_cases here : first.1 = key
    · rw [if_pos here, lookup_cons_eq_ite, lookup_cons_eq_ite, here]
      split <;> rfl
    · rw [if_neg here, lookup_cons_eq_ite, lookup_cons_eq_ite, ih]
      by_cases same : first.1 = other
      · rw [if_pos same, if_pos same, if_neg fun wanted => here (same.trans wanted.symm)]
      · rw [if_neg same, if_neg same]

theorem mem_of_mem_put {table : List (κ × α)} {key : κ} {value : α} {entry : κ × α}
    (member : entry ∈ put table key value) : entry = (key, value) ∨ entry ∈ table := by
  induction table with
  | nil => simpa [put] using member
  | cons first rest ih =>
    unfold put at member
    split at member
    · rcases List.mem_cons.mp member with same | later
      · exact .inl same
      · exact .inr (.tail _ later)
    · rcases List.mem_cons.mp member with same | later
      · exact .inr (same ▸ List.mem_cons_self)
      · exact (ih later).imp_right (.tail _)

theorem keys_put_nodup {table : List (κ × α)} (distinct : (table.map (·.1)).Nodup) (key : κ)
    (value : α) : ((put table key value).map (·.1)).Nodup := by
  induction table with
  | nil => exact List.nodup_singleton _
  | cons first rest ih =>
    rw [List.map_cons, List.nodup_cons] at distinct
    unfold put
    split
    · rename_i same
      rw [List.map_cons, List.nodup_cons]
      exact same ▸ distinct
    · rename_i other
      rw [List.map_cons, List.nodup_cons]
      refine ⟨fun again => ?_, ih distinct.2⟩
      obtain ⟨entry, member, same⟩ := List.mem_map.mp again
      rcases mem_of_mem_put member with rfl | old
      · exact other same.symm
      · exact distinct.1 (List.mem_map.mpr ⟨entry, old, same⟩)

theorem mem_of_mem_putAll {table entries : List (κ × α)} {entry : κ × α}
    (member : entry ∈ putAll table entries) : entry ∈ entries ∨ entry ∈ table := by
  unfold putAll at member
  induction entries generalizing table with
  | nil => exact .inr member
  | cons first rest ih =>
    rcases ih member with later | set
    · exact .inl (.tail _ later)
    · exact (mem_of_mem_put set).imp_left fun same => List.mem_cons.mpr (.inl same)

theorem keys_putAll_nodup {table : List (κ × α)} (distinct : (table.map (·.1)).Nodup)
    (entries : List (κ × α)) : ((putAll table entries).map (·.1)).Nodup := by
  unfold putAll
  induction entries generalizing table with
  | nil => exact distinct
  | cons first rest ih => exact ih (keys_put_nodup distinct first.1 first.2)

theorem mem_of_mem_ofEntries {entries : List (κ × α)} {entry : κ × α}
    (member : entry ∈ ofEntries entries) : entry ∈ entries :=
  (mem_of_mem_putAll member).resolve_right List.not_mem_nil

theorem keys_ofEntries_nodup (entries : List (κ × α)) :
    ((ofEntries entries).map (·.1)).Nodup := by
  have none : (([] : List (κ × α)).map (·.1)).Nodup := List.nodup_nil
  exact keys_putAll_nodup none entries

omit [DecidableEq κ] in
theorem lookup_none_iff [BEq κ] [LawfulBEq κ] {table : List (κ × α)} {key : κ} :
    table.lookup key = none ↔ key ∉ table.map (·.1) := by
  rw [List.lookup_eq_none_iff, List.mem_map]
  constructor
  · rintro none ⟨e, member, rfl⟩
    simpa using none e member
  · intro absent e member
    rw [bne_iff_ne]
    rintro rfl
    exact absent ⟨e, member, rfl⟩

omit [DecidableEq κ] in
theorem mem_of_lookup [BEq κ] [LawfulBEq κ] {table : List (κ × α)} {key : κ} {value : α}
    (held : table.lookup key = some value) : (key, value) ∈ table := by
  obtain ⟨before, after, rfl, -⟩ := List.lookup_eq_some_iff.mp held
  exact List.mem_append_right before List.mem_cons_self

theorem lookup_of_mem [BEq κ] [LawfulBEq κ] {table : List (κ × α)}
    (distinct : (table.map (·.1)).Nodup) {entry : κ × α} (member : entry ∈ table) :
    table.lookup entry.1 = some entry.2 := by
  induction table with
  | nil => simp at member
  | cons first rest ih =>
    rw [List.map_cons, List.nodup_cons] at distinct
    rw [lookup_cons_eq_ite]
    rcases List.mem_cons.mp member with rfl | later
    · rw [if_pos rfl]
    · have other : first.1 ≠ entry.1 := by
        intro same
        apply distinct.1
        rw [same]
        exact List.mem_map_of_mem later
      rw [if_neg other, ih distinct.2 later]

/-- A key that is not there is added at the end. -/
theorem put_of_not_mem {table : List (κ × α)} {key : κ} (absent : key ∉ table.map (·.1))
    (value : α) : put table key value = table ++ [(key, value)] := by
  induction table with
  | nil => rfl
  | cons first rest ih =>
    simp only [List.map_cons, List.mem_cons, not_or] at absent
    unfold put
    rw [if_neg (Ne.symm absent.1), ih absent.2, List.cons_append]

/-- A key that is there keeps its place. -/
theorem put_of_mem {table : List (κ × α)} (distinct : (table.map (·.1)).Nodup) {key : κ}
    (present : key ∈ table.map (·.1)) (value : α) :
    put table key value = table.map fun e => if e.1 = key then (key, value) else e := by
  induction table with
  | nil => simp at present
  | cons first rest ih =>
    rw [List.map_cons, List.nodup_cons] at distinct
    unfold put
    by_cases here : first.1 = key
    · have others : rest.map (fun e => if e.1 = key then (key, value) else e) = rest := by
        refine (List.map_congr_left fun e member => ?_).trans (List.map_id rest)
        have differs : e.1 ≠ key := by
          rintro rfl
          exact distinct.1 (here ▸ List.mem_map_of_mem member)
        rw [if_neg differs, id_eq]
      rw [if_pos here, List.map_cons, if_pos here, others]
    · have later : key ∈ rest.map (·.1) := by
        simpa [Ne.symm here] using present
      rw [if_neg here, List.map_cons, if_neg here, ih distinct.2 later]

theorem keys_put_of_mem {table : List (κ × α)} (distinct : (table.map (·.1)).Nodup) {key : κ}
    (present : key ∈ table.map (·.1)) (value : α) :
    (put table key value).map (·.1) = table.map (·.1) := by
  rw [put_of_mem distinct present, List.map_map]
  refine List.map_congr_left fun e _ => ?_
  rw [Function.comp_apply]
  split
  · rename_i here
    exact here.symm
  · rfl

/-- Setting several entries updates those that are there in their places and adds the others at
the end, in their order. -/
theorem putAll_eq [BEq κ] [LawfulBEq κ] {table entries : List (κ × α)}
    (distinct : (table.map (·.1)).Nodup) (apart : (entries.map (·.1)).Nodup) :
    putAll table entries =
      table.map (fun e => (e.1, (entries.lookup e.1).getD e.2)) ++
        entries.filter fun e => e.1 ∉ table.map (·.1) := by
  induction entries generalizing table with
  | nil => simp [putAll]
  | cons first rest ih =>
    obtain ⟨key, value⟩ := first
    rw [List.map_cons, List.nodup_cons] at apart
    have unset : rest.lookup key = none := lookup_none_iff.mpr apart.1
    have step : putAll table ((key, value) :: rest) = putAll (put table key value) rest := rfl
    rw [step, ih (keys_put_nodup distinct key value) apart.2]
    by_cases present : key ∈ table.map (·.1)
    · rw [keys_put_of_mem distinct present, List.filter_cons_of_neg (by simpa using present),
        put_of_mem distinct present, List.map_map]
      congr 1
      refine List.map_congr_left fun e _ => ?_
      rw [lookup_cons_eq_ite, Function.comp_apply]
      by_cases here : e.1 = key
      · simp [here, unset]
      · simp [here, Ne.symm here]
    · rw [put_of_not_mem present, List.map_append, List.append_assoc,
        List.filter_cons_of_pos (by simpa using present)]
      congr 1
      · refine List.map_congr_left fun e member => ?_
        have other : key ≠ e.1 := by
          rintro rfl
          exact present (List.mem_map_of_mem member)
        rw [lookup_cons_eq_ite, if_neg other]
      · simp only [List.map_cons, List.map_nil, unset, Option.getD_none, List.singleton_append]
        congr 1
        refine List.filter_congr fun e member => ?_
        have other : e.1 ≠ key := by
          rintro rfl
          exact apart.1 (List.mem_map.mpr ⟨e, member, rfl⟩)
        simp [other]

@[simp] theorem put_put (table : List (κ × α)) (key : κ) (first second : α) :
    put (put table key first) key second = put table key second := by
  induction table with
  | nil => simp [put]
  | cons entry rest ih => by_cases here : entry.1 = key <;> simp [put, here, ih]

/-- Keys are set in either order, if one of them is there already. -/
theorem put_comm {table : List (κ × α)} {key other : κ} (present : key ∈ table.map (·.1))
    (differs : other ≠ key) (value another : α) :
    put (put table key value) other another = put (put table other another) key value := by
  induction table with
  | nil => simp at present
  | cons entry rest ih =>
    by_cases here : entry.1 = key
    · simp [put, here, differs.symm]
    · have later : key ∈ rest.map (·.1) := by simpa [Ne.symm here] using present
      by_cases there : entry.1 = other <;> simp [put, here, there, differs, ih later]

@[simp] theorem mem_keys_put {table : List (κ × α)} {key other : κ} {value : α} :
    other ∈ (put table key value).map (·.1) ↔ other = key ∨ other ∈ table.map (·.1) := by
  induction table with
  | nil => simp [put]
  | cons entry rest ih =>
    by_cases here : entry.1 = key
    · simp [put, here]
    · simp only [put, here, if_false, List.map_cons, List.mem_cons, ih]
      tauto

@[simp] theorem putAll_nil (table : List (κ × α)) : putAll table [] = table := rfl

@[simp] theorem putAll_cons (table rest : List (κ × α)) (entry : κ × α) :
    putAll table (entry :: rest) = putAll (put table entry.1 entry.2) rest := rfl

theorem putAll_append (table first second : List (κ × α)) :
    putAll table (first ++ second) = putAll (putAll table first) second :=
  List.foldl_append

/-- The last entry for a key decides what it leads to. -/
theorem lookup_putAll [BEq κ] [LawfulBEq κ] (table entries : List (κ × α)) (key : κ) :
    (putAll table entries).lookup key = (entries.reverse.lookup key).or (table.lookup key) := by
  induction entries generalizing table with
  | nil => rfl
  | cons entry rest ih =>
    rw [putAll_cons, ih, lookup_put, List.reverse_cons, List.lookup_append, Option.or_assoc,
      lookup_cons_eq_ite]
    split <;> rfl

@[simp] theorem mem_keys_putAll {table entries : List (κ × α)} {key : κ} :
    key ∈ (putAll table entries).map (·.1) ↔
      key ∈ entries.map (·.1) ∨ key ∈ table.map (·.1) := by
  induction entries generalizing table with
  | nil => simp
  | cons entry rest ih => rw [putAll_cons, ih, mem_keys_put, List.map_cons, List.mem_cons]; tauto

/-- A key that is there may be set before other keys or after them. -/
theorem put_putAll {table entries : List (κ × α)} {key : κ} (present : key ∈ table.map (·.1))
    (absent : key ∉ entries.map (·.1)) (value : α) :
    put (putAll table entries) key value = putAll (put table key value) entries := by
  induction entries generalizing table with
  | nil => rfl
  | cons entry rest ih =>
    simp only [List.map_cons, List.mem_cons, not_or] at absent
    rw [putAll_cons, putAll_cons, ih (mem_keys_put.mpr (.inr present)) absent.2,
      put_comm present (Ne.symm absent.1)]

theorem putAll_put {entries : List (κ × α)} (distinct : (entries.map (·.1)).Nodup)
    (table : List (κ × α)) (key : κ) (value : α) :
    putAll table (put entries key value) = put (putAll table entries) key value := by
  induction entries generalizing table with
  | nil => rfl
  | cons entry rest ih =>
    rw [List.map_cons, List.nodup_cons] at distinct
    by_cases here : entry.1 = key
    · subst here
      have held : entry.1 ∈ (put table entry.1 entry.2).map (·.1) := mem_keys_put.mpr (.inl rfl)
      rw [putAll_cons, put_putAll held distinct.1, put_put]
      simp [put]
    · simp only [put, here, if_false, putAll_cons, ih distinct.2]

theorem putAll_putAll {first : List (κ × α)} (distinct : (first.map (·.1)).Nodup)
    (table second : List (κ × α)) :
    putAll table (putAll first second) = putAll (putAll table first) second := by
  induction second generalizing first with
  | nil => rfl
  | cons entry rest ih =>
    rw [putAll_cons, putAll_cons, ih (keys_put_nodup distinct entry.1 entry.2), putAll_put distinct]

/-- Setting the entries of a table that entries make is setting these entries. -/
theorem putAll_ofEntries (table entries : List (κ × α)) :
    putAll table (ofEntries entries) = putAll table entries := by
  have none : (([] : List (κ × α)).map (·.1)).Nodup := List.nodup_nil
  exact putAll_putAll none table entries

end TreeLint.Table
