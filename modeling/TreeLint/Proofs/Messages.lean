import TreeLint.Proofs.Placeholders

/-! Messages and their slots. A template in which braces stand in slots only is filled when each
slot has given way to its entry; filling from a table does so whenever the table has an entry for
every slot, whatever the entries hold. -/

namespace TreeLint.Message

/-- A name that is read in a slot as it stands: it has no braces and no white space. -/
def Plain (name : String) : Prop :=
  name.toList ≠ [] ∧ ∀ c ∈ name.toList, isInner c = true ∧ Text.isBlank c = false

theorem plain_ofList {cs : List Char}
    (plain : (!cs.isEmpty && cs.all fun c => isInner c && !Text.isBlank c) = true) :
    Plain (String.ofList cs) := by
  rw [Plain, String.toList_ofList]
  simpa using plain

/-- The names of the slots of a template in which braces stand nowhere else. -/
inductive Slots : List String → List Char → Prop
  | nil : Slots [] []
  | char {c : Char} {names : List String} {rest : List Char} : c ≠ '\x7b' → Slots names rest →
      Slots names (c :: rest)
  | slot {name : String} {names : List String} {rest : List Char} : Plain name →
      Slots names rest → Slots (name :: names) ((slot name).toList ++ rest)

/-- A message is a template with an entry of a table in the place of every slot. -/
inductive Filled (data : List (String × String)) : List Char → List Char → Prop
  | nil : Filled data [] []
  | char {c : Char} {rest message : List Char} : c ≠ '\x7b' → Filled data rest message →
      Filled data (c :: rest) (c :: message)
  | slot {name text : String} {rest message : List Char} : Plain name →
      data.lookup name = some text → Filled data rest message →
      Filled data ((slot name).toList ++ rest) (text.toList ++ message)

namespace Slots

theorem text {cs : List Char} (bare : '\x7b' ∉ cs) : Slots [] cs := by
  induction cs with
  | nil => exact .nil
  | cons c rest ih =>
    obtain ⟨other, bare⟩ := not_or.mp (mt List.mem_cons.mpr bare)
    exact .char (Ne.symm other) (ih bare)

theorem literal {cs : List Char} (bare : '\x7b' ∉ cs) : Slots [] (String.ofList cs).toList := by
  rw [String.toList_ofList]
  exact text bare

theorem append {one two : List String} {first second : List Char} (before : Slots one first)
    (after : Slots two second) : Slots (one ++ two) (first ++ second) := by
  induction before with
  | nil => exact after
  | char other _ ih => exact .char other ih
  | slot plain _ ih =>
    rw [List.append_assoc]
    exact .slot plain ih

theorem one {name : String} (plain : Plain name) :
    Slots [name] (Message.slot name).toList := by
  rw [← List.append_nil (Message.slot name).toList]
  exact .slot plain .nil

theorem named {cs : List Char}
    (plain : (!cs.isEmpty && cs.all fun c => isInner c && !Text.isBlank c) = true) :
    Slots [String.ofList cs] (Message.slot (String.ofList cs)).toList := one (plain_ofList plain)

theorem concat {one two : List String} {first second : String} (before : Slots one first.toList)
    (after : Slots two second.toList) : Slots (one ++ two) (first ++ second).toList := by
  rw [String.toList_append]
  exact before.append after

end Slots

theorem slot_toList (name : String) : (slot name).toList = braced name.toList := by
  simp [slot, braced, String.toList_append]

theorem Plain.isInside {name : String} (plain : Plain name) : IsInside name.toList :=
  ⟨plain.1, fun c member => isInner_iff.mp (plain.2 c member).1⟩

theorem not_opens_of_ne {c : Char} (other : c ≠ '\x7b') (rest : List Char) :
    ¬ Opens (c :: rest) := by
  rintro ⟨inside, tail, -, split⟩
  exact other (List.cons.inj split).1

theorem slotName_of_plain {name : String} (plain : Plain name) :
    slotName name.toList = name.toList := by
  obtain ⟨some, each⟩ := plain
  have trims : Text.Trims name.toList name.toList :=
    ⟨⟨[], [], by simp, nofun, nofun⟩, fun c first => (each c (List.mem_of_mem_head? first)).2,
      fun c last => (each c (List.mem_of_getLast? last)).2⟩
  have seen : ¬ Text.allBlank name.toList = true := fun blank =>
    some (trims.strip_eq.symm.trans (Text.strip_eq_nil_iff.mpr blank))
  rw [slotName, if_neg seen, trims.strip_eq]

theorem fillAll_slot {data : List (String × String)} {name text : String} (plain : Plain name)
    (given : data.lookup name = some text) (rest : List Char) :
    fillAll data ((slot name).toList ++ rest) = text.toList ++ fillAll data rest := by
  rw [slot_toList, fillAll_of_found plain.isInside, fill, slotName_of_plain plain,
    String.ofList_toList, given]

theorem fillAll_of_ne {data : List (String × String)} {c : Char} (other : c ≠ '\x7b')
    (rest : List Char) : fillAll data (c :: rest) = c :: fillAll data rest :=
  fillAll_of_closed (not_opens_of_ne other rest)

/-- Filling fills every slot when the table has entries for all of them. -/
theorem filled_fillAll {data : List (String × String)} {names : List String}
    {template : List Char} (slots : Slots names template)
    (given : ∀ name ∈ names, ∃ text, data.lookup name = some text) :
    Filled data template (fillAll data template) := by
  induction slots with
  | nil => rw [fillAll]; exact .nil
  | char other _ ih =>
    rw [fillAll_of_ne other]
    exact .char other (ih given)
  | slot plain _ ih =>
    obtain ⟨⟨text, holds⟩, others⟩ := List.forall_mem_cons.mp given
    rw [fillAll_slot plain holds]
    exact .slot plain holds (ih others)

theorem fillAll_text {data : List (String × String)} {cs : List Char} (bare : '\x7b' ∉ cs)
    (rest : List Char) : fillAll data (cs ++ rest) = cs ++ fillAll data rest := by
  induction cs with
  | nil => rfl
  | cons c cs ih =>
    obtain ⟨other, bare⟩ := not_or.mp (mt List.mem_cons.mpr bare)
    rw [List.cons_append, fillAll_of_ne (Ne.symm other), ih bare, List.cons_append]

/-- A message is filled when the names of its slots are those of the table. -/
theorem filled_interpolate {template : String} {data : List (String × String)}
    (slots : Slots (data.map (·.1)) template.toList) :
    Filled data template.toList (interpolate template data).toList := by
  have given : ∀ name ∈ data.map (·.1), ∃ text, data.lookup name = some text := by
    intro name member
    cases held : data.lookup name with
    | some text => exact ⟨text, rfl⟩
    | none =>
      obtain ⟨entry, among, rfl⟩ := List.mem_map.mp member
      simpa using List.lookup_eq_none_iff.mp held entry among
  rw [interpolate_toList]
  exact filled_fillAll slots given

/-- A message with one slot reads as the template does, with the entry in the place of the slot. -/
theorem interpolate_slot {first last : List Char} {name : String} (plain : Plain name)
    (bare : '\x7b' ∉ first) (bare' : '\x7b' ∉ last) (text : String) :
    interpolate (String.ofList first ++ slot name ++ String.ofList last) [(name, text)] =
      String.ofList first ++ text ++ String.ofList last := by
  have rest : fillAll [(name, text)] last = last := by
    have filled := @fillAll_text [(name, text)] last bare' []
    rwa [fillAll, List.append_nil] at filled
  rw [interpolate, if_neg (by simp), String.toList_append, String.toList_append,
    String.toList_ofList, String.toList_ofList, List.append_assoc, fillAll_text bare,
    fillAll_slot plain List.lookup_cons_self, rest]
  simp [String.ofList_append, String.append_assoc]

/-- A message with two slots of different names reads as the template does, with the entries in the
places of the slots. -/
theorem interpolate_slots {first between last : List Char} {name other : String}
    (plain : Plain name) (plain' : Plain other) (differ : other ≠ name) (bare : '\x7b' ∉ first)
    (bare' : '\x7b' ∉ between) (bare'' : '\x7b' ∉ last) (text text' : String) :
    interpolate (String.ofList first ++ slot name ++ String.ofList between ++ slot other ++
        String.ofList last) [(name, text), (other, text')] =
      String.ofList first ++ text ++ String.ofList between ++ text' ++ String.ofList last := by
  have second : List.lookup other [(name, text), (other, text')] = some text' := by
    rw [List.lookup_cons, beq_false_of_ne differ]
    exact List.lookup_cons_self
  have rest : fillAll [(name, text), (other, text')] last = last := by
    have filled := @fillAll_text [(name, text), (other, text')] last bare'' []
    rwa [fillAll, List.append_nil] at filled
  rw [interpolate, if_neg (by simp)]
  simp only [String.toList_append, String.toList_ofList, List.append_assoc]
  rw [fillAll_text bare, fillAll_slot plain List.lookup_cons_self, fillAll_text bare',
    fillAll_slot plain' second, rest]
  simp [String.ofList_append, String.append_assoc]

end TreeLint.Message
