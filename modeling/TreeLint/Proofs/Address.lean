import Mathlib.Data.List.Nodup
import TreeLint.Proofs.Table
import TreeLint.Proofs.Walk

/-! Addresses. An address names the fields and positions on the way to a node. A field is reached by
its name, so an address leads to one node only if no node has two fields of one name; the trees
that objects serialize are of that kind. -/

namespace TreeLint

/-- No node of a tree has two fields of one name. -/
inductive Tree.Distinct : Tree → Prop
  | node {type : String} {fields : Fields} (names : (fields.map (·.1)).Nodup)
      (inside : ∀ field ∈ fields, field.2.Distinct) : Distinct (.node type fields)
  | list {items : List Tree} (inside : ∀ item ∈ items, item.Distinct) : Distinct (.list items)
  | value (v : Value) : Distinct (.value v)

namespace Node

theorem get_distinct {n : Node} (distinct : n.toTree.Distinct) (key : String) :
    (n.get key).Distinct := by
  obtain ⟨-, inside⟩ := distinct
  unfold get
  cases found : n.fields.lookup key with
  | none => exact .value .null
  | some t =>
    exact inside (key, t) (Table.mem_of_lookup found)

theorem mem_of_mem_nodesAmong {key : String} {items : List Tree} {i : Nat} {found : Place × Node}
    (member : found ∈ nodesAmong key i items) : found.2.toTree ∈ items := by
  fun_induction nodesAmong key i items with
  | case1 => simp at member
  | case2 i type fields rest ih =>
    rcases List.mem_cons.mp member with rfl | later
    · exact List.mem_cons_self
    · exact .tail _ (ih later)
  | case3 i item rest _ ih => exact .tail _ (ih member)

theorem place_of_mem_nodesAmong {key : String} {items : List Tree} {i : Nat}
    {found : Place × Node} (member : found ∈ nodesAmong key i items) :
    ∃ j, i ≤ j ∧ found.1 = ⟨key, some j⟩ := by
  fun_induction nodesAmong key i items with
  | case1 => simp at member
  | case2 i type fields rest ih =>
    rcases List.mem_cons.mp member with rfl | later
    · exact ⟨i, Nat.le_refl i, rfl⟩
    · obtain ⟨j, bound, same⟩ := ih later
      exact ⟨j, by omega, same⟩
  | case3 i item rest _ ih =>
    obtain ⟨j, bound, same⟩ := ih member
    exact ⟨j, by omega, same⟩

theorem nodesAmong_places_nodup (key : String) (i : Nat) (items : List Tree) :
    ((nodesAmong key i items).map (·.1)).Nodup := by
  fun_induction nodesAmong key i items with
  | case1 => exact .nil
  | case2 i type fields rest ih =>
    refine List.nodup_cons.mpr ⟨fun again => ?_, ih⟩
    obtain ⟨found, member, same⟩ := List.mem_map.mp again
    obtain ⟨j, bound, place⟩ := place_of_mem_nodesAmong member
    rw [place, Place.mk.injEq, Option.some.injEq] at same
    omega
  | case3 i item rest _ ih => exact ih

theorem key_of_mem_childrenAt {n : Node} {key : String} {found : Place × Node}
    (member : found ∈ n.childrenAt key) : found.1.key = key := by
  unfold childrenAt at member
  split at member
  · rw [List.mem_singleton.mp member]
  · obtain ⟨j, -, place⟩ := place_of_mem_nodesAmong member
    rw [place]
  · simp at member

theorem childrenAt_places_nodup (n : Node) (key : String) :
    ((n.childrenAt key).map (·.1)).Nodup := by
  unfold childrenAt
  split
  · exact List.nodup_singleton _
  · exact nodesAmong_places_nodup ..
  · exact .nil

theorem childKeys_nodup {n : Node} (distinct : n.toTree.Distinct) : n.childKeys.Nodup := by
  have known : ∀ entry ∈ childKeysOfType, entry.2.Nodup := by decide +kernel
  unfold childKeys
  split
  · rename_i keys found
    exact known (n.type, keys) (Table.mem_of_lookup found)
  · obtain ⟨names, -⟩ := distinct
    exact names.filter _

theorem placedChildren_nodup {n : Node} (distinct : n.toTree.Distinct) :
    (n.placedChildren.map (·.1)).Nodup := by
  rw [placedChildren, List.map_flatMap, List.nodup_flatMap]
  refine ⟨fun key _ => n.childrenAt_places_nodup key, ?_⟩
  refine (childKeys_nodup distinct).imp fun {one two} differ => ?_
  rw [Function.onFun_apply, List.disjoint_left]
  intro place first second
  obtain ⟨found, member, rfl⟩ := List.mem_map.mp first
  obtain ⟨other, also, same⟩ := List.mem_map.mp second
  exact differ (by rw [← key_of_mem_childrenAt member, ← key_of_mem_childrenAt also, same])

theorem child_distinct {n : Node} (distinct : n.toTree.Distinct) {found : Place × Node}
    (member : found ∈ n.placedChildren) : found.2.toTree.Distinct := by
  obtain ⟨key, -, here⟩ := List.mem_flatMap.mp member
  have inField := get_distinct distinct key
  unfold childrenAt at here
  split at here
  · rename_i type fields stored
    rw [List.mem_singleton.mp here]
    rwa [stored] at inField
  · rename_i items stored
    rw [stored] at inField
    obtain ⟨-⟩ | ⟨inside⟩ | ⟨-⟩ := inField
    exact inside _ (mem_of_mem_nodesAmong here)
  · simp at here

end Node

namespace Cursor

theorem address_of_mem_children {c child : Cursor} (member : child ∈ c.children) :
    ∃ found ∈ c.node.placedChildren,
      child.node = found.2 ∧ child.address = (found.1.key, found.1.index.toList) :: c.address := by
  obtain ⟨found, placed, rfl⟩ := List.mem_map.mp member
  exact ⟨found, placed, rfl, rfl⟩

theorem child_distinct {c child : Cursor} (distinct : c.node.toTree.Distinct)
    (member : child ∈ c.children) : child.node.toTree.Distinct := by
  obtain ⟨found, placed, same, -⟩ := address_of_mem_children member
  exact same ▸ Node.child_distinct distinct placed

theorem distinct_of_below {c d : Cursor} (distinct : c.node.toTree.Distinct) (below : c.Below d) :
    d.node.toTree.Distinct := by
  induction below with
  | refl => exact distinct
  | tail _ step ih => exact child_distinct ih step

/-- The address of a node ends with the addresses of the nodes above it. -/
theorem address_of_below {c d : Cursor} (below : c.Below d) :
    ∃ more, d.address = more ++ c.address := by
  induction below with
  | refl => exact ⟨[], rfl⟩
  | tail _ step ih =>
    obtain ⟨more, up⟩ := ih
    obtain ⟨found, -, -, here⟩ := address_of_mem_children step
    exact ⟨(found.1.key, found.1.index.toList) :: more, by rw [here, up, List.cons_append]⟩

theorem children_addresses_nodup {c : Cursor} (distinct : c.node.toTree.Distinct) :
    (c.children.map address).Nodup := by
  have apart := Node.placedChildren_nodup distinct
  have injective : Function.Injective fun place : Node.Place =>
      (place.key, place.index.toList) :: c.address := by
    rintro ⟨key, index⟩ ⟨key', index'⟩ same
    simp only [List.cons.injEq, Prod.mk.injEq, and_true] at same
    obtain ⟨rfl, same⟩ := same
    cases index <;> cases index' <;> simp_all
  have moved := apart.map injective
  rw [List.map_map] at moved
  rw [children, List.map_map]
  exact moved

/-- Phase and address tell the visits of a walk apart. -/
theorem visits_nodup {c : Cursor} (distinct : c.node.toTree.Distinct) :
    (c.visits.map fun v => (v.phase, v.cursor.address)).Nodup := by
  induction c using childrenInduction with
  | node c ih =>
    have longer : ∀ child ∈ c.children, ∀ v ∈ child.visits, c.address ≠ v.cursor.address := by
      intro child member v visited same
      obtain ⟨more, up⟩ := address_of_below ((mem_visits_iff child v).mp visited)
      obtain ⟨found, -, -, here⟩ := address_of_mem_children member
      have := congrArg List.length (same.trans up)
      rw [here, List.length_append, List.length_cons] at this
      omega
    have apart : (c.children.map address).Nodup := children_addresses_nodup distinct
    have inside : ((c.children.flatMap visits).map fun v => (v.phase, v.cursor.address)).Nodup := by
      rw [List.map_flatMap, List.nodup_flatMap]
      refine ⟨fun child member => ih child member (child_distinct distinct member), ?_⟩
      refine (List.pairwise_map.mp apart).imp_of_mem fun {one two} first second differ => ?_
      rw [Function.onFun_apply, List.disjoint_left]
      intro entry here there
      obtain ⟨v, visited, rfl⟩ := List.mem_map.mp here
      obtain ⟨w, also, same⟩ := List.mem_map.mp there
      obtain ⟨more, up⟩ := address_of_below ((mem_visits_iff one v).mp visited)
      obtain ⟨more', up'⟩ := address_of_below ((mem_visits_iff two w).mp also)
      obtain ⟨found, -, -, oneIs⟩ := address_of_mem_children first
      obtain ⟨found', -, -, twoIs⟩ := address_of_mem_children second
      have ends : more' ++ two.address = more ++ one.address :=
        up'.symm.trans ((Prod.mk.inj same).2.trans up)
      have level : two.address.length = one.address.length := by
        rw [oneIs, twoIs, List.length_cons, List.length_cons]
      exact differ (List.append_inj_right' ends level).symm
    have enclosing : ∀ phase, (phase, c.address) ∉
        (c.children.flatMap visits).map fun v => (v.phase, v.cursor.address) := by
      intro phase member
      obtain ⟨v, visited, same⟩ := List.mem_map.mp member
      obtain ⟨child, isChild, visited⟩ := List.mem_flatMap.mp visited
      exact longer child isChild v visited (Prod.mk.inj same).2.symm
    rw [visits_eq]
    simp only [List.cons_append, List.map_cons, List.map_append, List.map_nil, List.nodup_cons,
      List.nodup_append, List.mem_append, List.mem_singleton, not_or, List.not_mem_nil,
      not_false_eq_true, List.nodup_nil, and_true, true_and, inside]
    exact ⟨⟨enclosing _, by simp⟩, fun entry member other last same =>
      enclosing _ (last ▸ same ▸ member)⟩

/-- Each node below the start of a walk is met once in each phase. -/
theorem visits_count {c d : Cursor} (distinct : c.node.toTree.Distinct) (below : c.Below d)
    (phase : Phase) :
    c.visits.countP (fun v => (v.phase, v.cursor.address) = (phase, d.address)) = 1 := by
  have once := List.count_eq_one_of_mem (visits_nodup distinct)
    (List.mem_map_of_mem ((mem_visits_iff c ⟨phase, d⟩).mpr below))
  rw [List.count, List.countP_map] at once
  simpa only [Function.comp_def, beq_eq_decide] using once

end Cursor

end TreeLint
