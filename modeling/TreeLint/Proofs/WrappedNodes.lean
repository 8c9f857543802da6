import TreeLint.Proofs.Wrapping

/-! The nodes of a tree that is made by filling nodes in. All along a run, every node that is there
belongs to one object, and is either empty and waiting or filled from that object; every node but the
root stands in one place, and its link leads to the node that it stands in. In the end no node waits,
and from the root on the nodes are those of the tree that the recursion makes. -/

namespace TreeLint

mutual

def Slot.refs : Slot → List Nat
  | .node id => [id]
  | .list slots => Slot.refsIn slots
  | .value _ => []

def Slot.refsIn : List Slot → List Nat
  | [] => []
  | slot :: rest => slot.refs ++ Slot.refsIn rest

end

def Cell.refs (c : Cell) : List Nat := c.fields.flatMap (·.2.refs)

/-- What a field holds stands for a value, given the objects of the nodes: a node for its object, a
list item by item, and every other value for itself. -/
inductive Slot.StandsFor (origins : List Members) : Slot → Value → Prop
  | node {id : Nat} {members : Members} {type : Value} : members.lookup "type" = some type →
      origins[id]? = some members → StandsFor origins (.node id) (.object members)
  | list {slots : List Slot} {items : List Value} : slots.length = items.length →
      (∀ (i : Nat) (low : i < slots.length) (high : i < items.length),
        StandsFor origins (slots.get ⟨i, low⟩) (items.get ⟨i, high⟩)) →
      StandsFor origins (.list slots) (.list items)
  | data {members : Members} : members.lookup "type" = none →
      StandsFor origins (.value (.object members)) (.object members)
  | leaf {v : Value} : (∀ items, v ≠ .list items) → (∀ members, v ≠ .object members) →
      StandsFor origins (.value v) v

/-- A field of a node is filled from a member of its object. -/
structure Slot.FilledFrom (origins : List Members) (field : String × Slot)
    (member : String × Value) : Prop where
  key : field.1 = member.1
  data : Tree.isDataKey member.1 = true → field.2 = .value member.2
  other : Tree.isDataKey member.1 = false → field.2.StandsFor origins member.2

/-- The fields of a node are filled from the members of its object, in their order. -/
def Cell.FilledFrom (origins : List Members) (c : Cell) (members : Members) : Prop :=
  List.Forall₂ (Slot.FilledFrom origins) c.fields (members.filter (!Tree.isReservedKey ·.1))

/-- A node has the type that its object tells. -/
def Cell.TypedBy [Host] (c : Cell) (members : Members) : Prop :=
  ∃ type, members.lookup "type" = some type ∧ c.type = type.plain

namespace Slot

variable {origins more : List Members} {slots : List Slot} {items : List Value}

theorem standsFor_list_iff : StandsFor origins (.list slots) (.list items) ↔
    List.Forall₂ (StandsFor origins) slots items := by
  rw [List.forall₂_iff_get]
  constructor
  · intro stands
    cases stands with
    | list length inside => exact ⟨length, inside⟩
  · rintro ⟨length, inside⟩
    exact .list length inside

/-- Nodes that are made later do not matter to what is there. -/
theorem StandsFor.append {slot : Slot} {v : Value} (stands : slot.StandsFor origins v) :
    slot.StandsFor (origins ++ more) v := by
  induction stands with
  | node held there =>
    have bounded := (List.getElem?_eq_some_iff.mp there).1
    exact .node held (by rwa [List.getElem?_append_left bounded])
  | list length _ ih => exact .list length ih
  | data held => exact .data held
  | leaf list object => exact .leaf list object

theorem FilledFrom.append {field : String × Slot} {member : String × Value}
    (filled : FilledFrom origins field member) : FilledFrom (origins ++ more) field member :=
  ⟨filled.key, filled.data, fun other => (filled.other other).append⟩

end Slot

namespace Wrapping
open Slot

variable {origins : List Members}

theorem prefix_drop_append {α : Type} {one two whole : List α} {n : Nat}
    (block : one ++ two <+: whole.drop n) :
    one <+: whole.drop n ∧ two <+: whole.drop (n + one.length) := by
  obtain ⟨rest, split⟩ := block
  rw [List.append_assoc] at split
  refine ⟨⟨two ++ rest, split⟩, rest, ?_⟩
  rw [← List.drop_drop, ← split, List.drop_left]

mutual

/-- A value is stood for if the objects of its nodes come in a block. -/
theorem slotFrom_standsFor {first : Nat} : ∀ v : Value, nodesIn v <+: origins.drop first →
    (slotFrom first v).StandsFor origins v
  | .object members, block => by
    rw [nodesIn] at block
    rw [slotFrom]
    cases held : members.lookup "type" with
    | none => exact .data held
    | some type =>
      rw [held] at block
      obtain ⟨rest, split⟩ := block
      refine .node held ?_
      rw [← Nat.add_zero first, ← List.getElem?_drop, ← split]
      rfl
  | .list items, block => standsFor_list_iff.mpr (slotsFrom_standsFor items block)
  | .null, _ | .bool _, _ | .int _, _ | .float _, _ | .str _, _ | .moment _, _ => .leaf nofun nofun

theorem slotsFrom_standsFor {first : Nat} : ∀ items : List Value,
    nodesInItems items <+: origins.drop first →
      List.Forall₂ (StandsFor origins) (slotsFrom first items) items
  | [], _ => .nil
  | item :: rest, block => by
    obtain ⟨here, later⟩ := prefix_drop_append block
    exact .cons (slotFrom_standsFor item here) (slotsFrom_standsFor rest later)

end

theorem fieldsFrom_filledFrom (members : Members) : ∀ {first : Nat},
    fieldNodes members <+: origins.drop first →
      List.Forall₂ (Slot.FilledFrom origins) (fieldsFrom first members)
        (members.filter (!Tree.isReservedKey ·.1)) := by
  induction members with
  | nil => exact fun _ => .nil
  | cons member rest ih =>
    intro first block
    obtain ⟨key, v⟩ := member
    obtain ⟨here, later⟩ := prefix_drop_append block
    rw [fieldsFrom, List.filter_cons]
    cases reserved : Tree.isReservedKey key with
    | true => simpa [reserved] using ih (by simpa [reserved] using later)
    | false =>
      cases data : Tree.isDataKey key with
      | true =>
        refine .cons ⟨rfl, fun _ => rfl, fun other => ?_⟩ (ih (by simpa [data] using later))
        cases data.symm.trans other
      | false =>
        rw [reserved, data] at here later
        refine .cons ⟨rfl, fun other => ?_, fun _ => slotFrom_standsFor v here⟩ (ih later)
        cases data.symm.trans other

mutual

theorem refs_slotFrom {first : Nat} : ∀ v : Value,
    (slotFrom first v).refs = List.range' first (nodesIn v).length
  | .object members => by
    rw [slotFrom, nodesIn]
    cases members.lookup "type" <;> rfl
  | .list items => refsIn_slotsFrom items
  | .null | .bool _ | .int _ | .float _ | .str _ | .moment _ => rfl

theorem refsIn_slotsFrom {first : Nat} : ∀ items : List Value,
    refsIn (slotsFrom first items) = List.range' first (nodesInItems items).length
  | [] => rfl
  | item :: rest => by
    rw [slotsFrom, refsIn, refs_slotFrom item, refsIn_slotsFrom rest, List.range'_append_1,
      nodesInItems, List.length_append]

end

/-- The nodes in the fields of a node are numbered one by one. -/
theorem refs_fieldsFrom (members : Members) : ∀ {first : Nat},
    (fieldsFrom first members).flatMap (·.2.refs) =
      List.range' first (fieldNodes members).length := by
  induction members with
  | nil => exact rfl
  | cons member rest ih =>
    intro first
    obtain ⟨key, v⟩ := member
    rw [fieldsFrom, fieldNodes]
    cases reserved : Tree.isReservedKey key with
    | true => simpa [reserved] using ih
    | false =>
      cases data : Tree.isDataKey key with
      | true => simpa [data, Slot.refs] using ih
      | false => simp [ih, refs_slotFrom, List.range'_append_1]

mutual

theorem nodesIn_typed : ∀ v : Value, ∀ object ∈ nodesIn v,
    ∃ type, object.lookup "type" = some type
  | .object members, object, member => by
    rw [nodesIn] at member
    cases held : members.lookup "type" with
    | none => simp [held] at member
    | some type =>
      obtain rfl : object = members := by simpa [held] using member
      exact ⟨type, held⟩
  | .list items, object, member => nodesInItems_typed items object member
  | .null, _, member | .bool _, _, member | .int _, _, member | .float _, _, member
  | .str _, _, member | .moment _, _, member => absurd member List.not_mem_nil

theorem nodesInItems_typed : ∀ items : List Value, ∀ object ∈ nodesInItems items,
    ∃ type, object.lookup "type" = some type
  | [], _, member => absurd member List.not_mem_nil
  | item :: rest, object, member => by
    rcases List.mem_append.mp member with here | later
    · exact nodesIn_typed item object here
    · exact nodesInItems_typed rest object later

end

theorem fieldNodes_typed {members object : Members} (member : object ∈ fieldNodes members) :
    ∃ type, object.lookup "type" = some type := by
  induction members with
  | nil => exact absurd member List.not_mem_nil
  | cons entry rest ih =>
    rcases List.mem_append.mp member with here | later
    · split at here
      · exact absurd here List.not_mem_nil
      · exact nodesIn_typed _ object here
    · exact ih later

variable [Host]

theorem emptyCell_typedBy {parent : Option Nat} {members : Members} {type : Value}
    (held : members.lookup "type" = some type) : (emptyCell parent members).TypedBy members :=
  ⟨type, held, by rw [emptyCell, held]; rfl⟩

/-! Along a run. -/

/-- The nodes that are there after one has been filled: itself, those that are kept, and the empty
ones in its fields. -/
inductive FilledCell (w : Wrapping) (id : Nat) (members : Members) : Nat → Cell → Prop
  | here {old : Cell} : w.cells[id]? = some old → FilledCell w id members id
      { old with fields := old.fields ++ fieldsFrom w.cells.length members }
  | kept {j : Nat} {cell : Cell} : j ≠ id → w.cells[j]? = some cell → FilledCell w id members j cell
  | new {i : Nat} {object : Members} : (fieldNodes members)[i]? = some object →
      FilledCell w id members (w.cells.length + i) (emptyCell (some id) object)

theorem filledCell_iff {w : Wrapping} {id : Nat} (members : Members)
    (inside : id < w.cells.length) {j : Nat} {cell : Cell} :
    (w.filled id members).cells[j]? = some cell ↔ FilledCell w id members j cell := by
  have lookup : (w.filled id members).cells[j]? = if j < w.cells.length then
      (w.cells[j]?).map fun c =>
        if id = j then { c with fields := c.fields ++ fieldsFrom w.cells.length members } else c
      else (fieldNodes members)[j - w.cells.length]?.map (emptyCell (some id)) := by
    simp only [Wrapping.filled, addFields, extend, modify_append_of_lt inside,
      List.getElem?_append, List.length_modify, List.getElem?_modify, List.getElem?_map]
    rfl
  rw [lookup]
  constructor
  · intro found
    split at found
    · obtain ⟨old, there, rfl⟩ := Option.map_eq_some_iff.mp found
      by_cases same : id = j
      · subst same
        rw [if_pos rfl]
        exact .here there
      · rw [if_neg same]
        exact .kept (Ne.symm same) there
    · rename_i outside
      obtain ⟨object, there, rfl⟩ := Option.map_eq_some_iff.mp found
      have later : FilledCell w id members (w.cells.length + (j - w.cells.length)) _ := .new there
      rwa [Nat.add_sub_cancel' (Nat.le_of_not_lt outside)] at later
  · rintro (there | ⟨other, there⟩ | there)
    · rw [if_pos inside, there, Option.map_some, if_pos rfl]
    · rw [if_pos (List.getElem?_eq_some_iff.mp there).1, there, Option.map_some,
        if_neg (Ne.symm other)]
    · rw [if_neg (by omega), Nat.add_sub_cancel_left, there]
      rfl

/-- Each node that is there belongs to an object, from which it is filled unless it waits. -/
structure Belongs (w : Wrapping) (origins : List Members) : Prop where
  size : w.cells.length = origins.length
  waits : ∀ entry ∈ w.pending, origins[entry.2]? = some entry.1
  once : (w.pending.map (·.2)).Nodup
  typed : ∀ (id : Nat) (cell : Cell) (members : Members), w.cells[id]? = some cell →
    origins[id]? = some members → cell.TypedBy members
  empty : ∀ (id : Nat) (cell : Cell), w.cells[id]? = some cell → id ∈ w.pending.map (·.2) →
    cell.fields = []
  filled : ∀ (id : Nat) (cell : Cell) (members : Members), w.cells[id]? = some cell →
    origins[id]? = some members → id ∉ w.pending.map (·.2) → cell.FilledFrom origins members

/-- Every node but the root stands in one place, and is linked to the node that it stands in. -/
structure Linked (w : Wrapping) : Prop where
  root : ∃ cell : Cell, w.cells[0]? = some cell ∧ cell.parent = none
  placed : (w.cells.flatMap Cell.refs).Perm (List.range' 1 (w.cells.length - 1))
  linked : ∀ (id : Nat) (cell : Cell), w.cells[id]? = some cell → ∀ child ∈ cell.refs,
    ∃ below : Cell, w.cells[child]? = some below ∧ below.parent = some id

theorem start_belongs {members : Members} {type : Value}
    (held : members.lookup "type" = some type) : (start members).Belongs [members] where
  size := rfl
  waits := List.forall_mem_singleton.mpr rfl
  once := List.nodup_singleton _
  typed := by
    rintro (_ | _) cell _ ⟨⟩ ⟨⟩
    exact emptyCell_typedBy held
  empty := by
    rintro (_ | _) cell ⟨⟩ _
    rfl
  filled := by
    rintro (_ | _) cell _ ⟨⟩ ⟨⟩ other
    exact absurd List.mem_cons_self other

theorem start_linked (members : Members) : (start members).Linked where
  root := ⟨_, rfl, rfl⟩
  placed := .nil
  linked := by
    rintro (_ | _) cell ⟨⟩ child ⟨⟩

variable {w : Wrapping} {members : Members} {id : Nat} {rest : List (Members × Nat)}

theorem Belongs.sound (belongs : w.Belongs origins) : w.Sound := fun entry member =>
  belongs.size ▸ (List.getElem?_eq_some_iff.mp (belongs.waits entry member)).1

/-- The nodes that wait after one has been filled: the new ones, numbered on from the old ones, and
the others. -/
theorem pending_filled_ids : (Wrapping.filled ⟨w.cells, rest⟩ id members).pending.map (·.2) =
    (List.range' w.cells.length (fieldNodes members).length).reverse ++ rest.map (·.2) := by
  simp only [Wrapping.filled, addFields, extend, List.map_append, List.map_reverse,
    List.zipIdx_map_snd]

theorem mem_pending_filled {j : Nat} :
    j ∈ (Wrapping.filled ⟨w.cells, rest⟩ id members).pending.map (·.2) ↔
      (w.cells.length ≤ j ∧ j < w.cells.length + (fieldNodes members).length) ∨
        j ∈ rest.map (·.2) := by
  rw [pending_filled_ids, List.mem_append, List.mem_reverse, List.mem_range'_1]

/-- A node that is filled gets the nodes that are made for it, and no other node changes. -/
theorem refs_filled {old : Cell} (there : w.cells[id]? = some old) (empty : old.fields = []) :
    ((w.filled id members).cells.flatMap Cell.refs).Perm
      (w.cells.flatMap Cell.refs ++
        List.range' w.cells.length (fieldNodes members).length) := by
  obtain ⟨inside, same⟩ := List.getElem?_eq_some_iff.mp there
  have new : ((fieldNodes members).map (emptyCell (some id))).flatMap Cell.refs = [] := by
    rw [List.flatMap_map]
    exact List.flatMap_eq_nil_iff.mpr fun _ _ => rfl
  have changed : (w.filled id members).cells =
      (w.cells.modify id fun c =>
        { c with fields := c.fields ++ fieldsFrom w.cells.length members }) ++
          (fieldNodes members).map (emptyCell (some id)) := modify_append_of_lt inside
  obtain ⟨first, cell, last, split, place, modified⟩ := List.exists_of_modify
    (fun c : Cell => { c with fields := c.fields ++ fieldsFrom w.cells.length members }) inside
  obtain rfl : cell = old := by
    rw [← same]
    simp [split, ← place]
  have refs : Cell.refs { cell with fields := cell.fields ++ fieldsFrom w.cells.length members } =
      List.range' w.cells.length (fieldNodes members).length := by
    rw [Cell.refs, empty, List.nil_append, refs_fieldsFrom]
  have none : cell.refs = [] := by rw [Cell.refs, empty, List.flatMap_nil]
  have others : w.cells.flatMap Cell.refs = first.flatMap Cell.refs ++ last.flatMap Cell.refs := by
    rw [split, List.flatMap_append, List.flatMap_cons, none, List.nil_append]
  rw [changed, List.flatMap_append, new, List.append_nil, modified, List.flatMap_append,
    List.flatMap_cons, refs, others, List.append_assoc]
  exact List.perm_append_comm.append_left _

/-- Filling a node that waits, the nodes go on belonging to objects: the old ones to the same, and the
new ones to those in the fields of the node. -/
theorem Belongs.step (belongs : w.Belongs origins) (waits : w.pending = (members, id) :: rest) :
    (Wrapping.filled ⟨w.cells, rest⟩ id members).Belongs (origins ++ fieldNodes members) := by
  have sound := belongs.sound
  have once := belongs.once
  have waiting := belongs.waits
  rw [waits, List.map_cons, List.nodup_cons] at once
  rw [Sound, waits, List.forall_mem_cons] at sound
  rw [waits, List.forall_mem_cons] at waiting
  obtain ⟨inside, others⟩ := sound
  dsimp only at inside waiting once
  have among (j : Nat) : j ∈ w.pending.map (·.2) ↔ j = id ∨ j ∈ rest.map (·.2) := by
    rw [waits, List.map_cons, List.mem_cons]
  have before {j : Nat} {cell : Cell} (there : w.cells[j]? = some cell) : j < w.cells.length :=
    (List.getElem?_eq_some_iff.mp there).1
  have older {j : Nat} (low : j < w.cells.length) :
      (origins ++ fieldNodes members)[j]? = origins[j]? :=
    List.getElem?_append_left (belongs.size ▸ low)
  have newer (i : Nat) : (origins ++ fieldNodes members)[w.cells.length + i]? =
      (fieldNodes members)[i]? := by
    rw [belongs.size, List.getElem?_append_right (Nat.le_add_right _ _), Nat.add_sub_cancel_left]
  constructor
  case size => simp [Wrapping.filled, belongs.size]
  case waits =>
    intro entry member
    rcases List.mem_append.mp member with new | old
    · obtain ⟨low, there⟩ := List.mk_mem_zipIdx_iff_le_and_getElem?_sub.mp (List.mem_reverse.mp new)
      rw [← Nat.add_sub_cancel' low, newer]
      exact there
    · rw [older (others entry old)]
      exact waiting.2 entry old
  case once =>
    rw [pending_filled_ids, List.nodup_append, List.nodup_reverse]
    refine ⟨List.nodup_range', once.2, fun i new j old => ?_⟩
    obtain ⟨entry, member, rfl⟩ := List.mem_map.mp old
    have low := others entry member
    rw [List.mem_reverse, List.mem_range'_1] at new
    omega
  case typed =>
    intro j cell object found given
    rcases (filledCell_iff members inside).mp found with there | ⟨other, there⟩ | there
    · have typed := belongs.typed id _ object there (older inside ▸ given)
      exact typed
    · exact belongs.typed j cell object there (older (before there) ▸ given)
    · obtain rfl := Option.some.inj (there.symm.trans (newer _ ▸ given))
      obtain ⟨type, held⟩ := fieldNodes_typed (List.mem_of_getElem? there)
      exact emptyCell_typedBy held
  case empty =>
    intro j cell found waits
    rcases (filledCell_iff members inside).mp found with there | ⟨other, there⟩ | there
    · rcases mem_pending_filled.mp waits with new | old
      · exact absurd new.1 (Nat.not_le_of_lt inside)
      · exact absurd old once.1
    · rcases mem_pending_filled.mp waits with new | old
      · exact absurd new.1 (Nat.not_le_of_lt (before there))
      · exact belongs.empty j cell there ((among j).mpr (.inr old))
    · rfl
  case filled =>
    intro j cell object found given done
    rcases (filledCell_iff members inside).mp found with there | ⟨other, there⟩ | there
    · -- The fields were empty, and the objects of the new nodes come in one block.
      obtain rfl := Option.some.inj (waiting.1.symm.trans (older inside ▸ given))
      rw [Cell.FilledFrom, belongs.empty id _ there ((among id).mpr (.inl rfl)), List.nil_append]
      have block : (origins ++ fieldNodes members).drop w.cells.length = fieldNodes members := by
        rw [belongs.size, List.drop_left]
      exact fieldsFrom_filledFrom members ⟨[], by rw [List.append_nil, block]⟩
    · refine (belongs.filled j cell object there (older (before there) ▸ given) ?_).imp
        fun _ _ => Slot.FilledFrom.append
      intro waits
      exact done (mem_pending_filled.mpr (.inr (((among j).mp waits).resolve_left other)))
    · have bounded := (List.getElem?_eq_some_iff.mp there).1
      refine absurd (mem_pending_filled.mpr (.inl ⟨Nat.le_add_right _ _, ?_⟩)) done
      exact Nat.add_lt_add_left bounded _

/-- Filling an empty node, each new node gets a place in it and a link to it. -/
theorem Linked.filled {old : Cell} (linked : w.Linked) (here : w.cells[id]? = some old)
    (empty : old.fields = []) : (w.filled id members).Linked := by
  have inside := (List.getElem?_eq_some_iff.mp here).1
  constructor
  case root =>
    obtain ⟨cell, zero, top⟩ := linked.root
    by_cases same : id = 0
    · subst same
      exact ⟨_, (filledCell_iff members inside).mpr (.here zero), top⟩
    · exact ⟨cell, (filledCell_iff members inside).mpr (.kept (Ne.symm same) zero), top⟩
  case placed =>
    refine (refs_filled here empty).trans ?_
    have whole := @List.range'_append_1 1 (w.cells.length - 1) (fieldNodes members).length
    have first : 1 + (w.cells.length - 1) = w.cells.length := by omega
    have count : (w.filled id members).cells.length - 1 =
        w.cells.length - 1 + (fieldNodes members).length := by
      simp only [Wrapping.filled, addFields_length, extend_length]
      omega
    rw [count, ← whole, first]
    exact linked.placed.append_right _
  case linked =>
    intro j cell found child member
    rcases (filledCell_iff members inside).mp found with there | ⟨other, there⟩ | there
    · obtain rfl := Option.some.inj (here.symm.trans there)
      rw [Cell.refs, empty, List.nil_append, refs_fieldsFrom, List.mem_range'_1] at member
      obtain ⟨i, rfl⟩ := Nat.exists_eq_add_of_le member.1
      have made := List.getElem?_eq_getElem (Nat.lt_of_add_lt_add_left member.2)
      exact ⟨_, (filledCell_iff members inside).mpr (.new made), rfl⟩
    · obtain ⟨below, held, up⟩ := linked.linked j cell there child member
      by_cases same : child = id
      · subst same
        exact ⟨_, (filledCell_iff members inside).mpr (.here held), up⟩
      · exact ⟨below, (filledCell_iff members inside).mpr (.kept same held), up⟩
    · cases member

theorem Linked.step (linked : w.Linked) (belongs : w.Belongs origins)
    (waits : w.pending = (members, id) :: rest) :
    (Wrapping.filled ⟨w.cells, rest⟩ id members).Linked := by
  have inside : id < w.cells.length := belongs.sound (members, id) (waits ▸ List.mem_cons_self)
  have here := List.getElem?_eq_getElem inside
  have empty := belongs.empty id _ here (by simp [waits])
  exact Linked.filled (w := ⟨w.cells, rest⟩) ⟨linked.root, linked.placed, linked.linked⟩ here empty

/-- In the end no node waits, and those that were there belong to the objects that they did. -/
theorem run_outcome {last : Wrapping} (belongs : w.Belongs origins) (linked : w.Linked)
    (ran : w.run = .ok last) :
    last.pending = [] ∧ last.Linked ∧ ∃ more, last.Belongs (origins ++ more) := by
  induction w using run_induction generalizing origins with
  | done w none =>
    rw [run_of_done none] at ran
    cases ran
    exact ⟨none, linked, [], by rwa [List.append_nil]⟩
  | step w members id rest waits ih =>
    rw [run_of_waits waits] at ran
    obtain ⟨next, filled, ran⟩ := bind_ok_iff.mp ran
    have inside : id < w.cells.length := belongs.sound (members, id) (waits ▸ List.mem_cons_self)
    obtain ⟨-, rfl⟩ := (fill_ok_iff ⟨w.cells, rest⟩ inside).mp filled
    obtain ⟨none, still, more, belongs'⟩ :=
      ih _ filled (belongs.step waits) (linked.step belongs waits) ran
    exact ⟨none, still, fieldNodes members ++ more, by rwa [← List.append_assoc]⟩

theorem belongs_of_ofRoot (made : ofRoot (.object members) = .ok w) :
    w.pending = [] ∧ w.Linked ∧ ∃ more, w.Belongs (members :: more) := by
  cases held : members.lookup "type" with
  | none => simp [ofRoot, held] at made
  | some type =>
    rw [ofRoot_eq held] at made
    obtain ⟨_, -, ran⟩ := bind_ok_iff.mp made
    exact run_outcome (start_belongs held) (start_linked members) ran

omit [Host] in
/-- The link of a node leads to the node that it stands in. -/
theorem Linked.parent_iff (linked : w.Linked) {child : Nat} :
    (∃ below : Cell, w.cells[child]? = some below ∧ below.parent = some id) ↔
      ∃ owner : Cell, w.cells[id]? = some owner ∧ child ∈ owner.refs := by
  constructor
  · rintro ⟨below, there, up⟩
    -- Only the root stands nowhere, and the root has no parent.
    have inside := (List.getElem?_eq_some_iff.mp there).1
    have later : child ≠ 0 := by
      rintro rfl
      obtain ⟨cell, zero, top⟩ := linked.root
      rw [zero, Option.some.injEq] at there
      rw [← there, top] at up
      cases up
    have placed : child ∈ w.cells.flatMap Cell.refs := by
      rw [linked.placed.mem_iff, List.mem_range'_1]
      omega
    obtain ⟨owner, member, stands⟩ := List.mem_flatMap.mp placed
    obtain ⟨place, held⟩ := List.mem_iff_getElem?.mp member
    obtain ⟨below', there', up'⟩ := linked.linked place owner held child stands
    rw [there, Option.some.injEq] at there'
    rw [← there', up, Option.some.injEq] at up'
    exact ⟨owner, up' ▸ held, stands⟩
  · rintro ⟨owner, held, stands⟩
    exact linked.linked id owner held child stands

end Wrapping

end TreeLint
