import TreeLint.Proofs.OpenNodes
import TreeLint.Proofs.RuleRuns
import TreeLint.Proofs.Serialization
import TreeLint.Proofs.WrappedNodes

/-! The tree that nodes make which are filled in one by one. Read from the root on, they are the tree
of the recursion on the value; without them, that tree is the value again, but for the links that were
written down and the types that are no texts; and the way to a node in the tree is the way that the
links lead back. -/

namespace TreeLint

/-- What a field holds is some part of a tree, where numbers are read as the nodes that they
stand for. -/
inductive Slot.Shows (cells : List Cell) : Slot → Tree → Prop
  | node {id : Nat} {cell : Cell} {fields : Fields} : cells[id]? = some cell →
      cell.fields.length = fields.length →
      (∀ (i : Nat) (low : i < cell.fields.length) (high : i < fields.length),
        (cell.fields.get ⟨i, low⟩).1 = (fields.get ⟨i, high⟩).1) →
      (∀ (i : Nat) (low : i < cell.fields.length) (high : i < fields.length),
        Shows cells (cell.fields.get ⟨i, low⟩).2 (fields.get ⟨i, high⟩).2) →
      Shows cells (.node id) (.node cell.type fields)
  | list {slots : List Slot} {items : List Tree} : slots.length = items.length →
      (∀ (i : Nat) (low : i < slots.length) (high : i < items.length),
        Shows cells (slots.get ⟨i, low⟩) (items.get ⟨i, high⟩)) →
      Shows cells (.list slots) (.list items)
  | value (v : Value) : Shows cells (.value v) (.value v)

/-- The links from the node of some number lead back the way that leads to a node of a tree, and that
number is read as the node. -/
inductive Cursor.At (cells : List Cell) : Cursor → Nat → Prop
  | root {c : Cursor} {id : Nat} {cell : Cell} : c.parent? = none →
      (Slot.node id).Shows cells c.node.toTree → cells[id]? = some cell → cell.parent = none →
      At cells c id
  | linked {c parent : Cursor} {id above : Nat} {cell : Cell} : c.parent? = some parent →
      (Slot.node id).Shows cells c.node.toTree → cells[id]? = some cell →
      cell.parent = some above → At cells parent above → At cells c id

/-- What the field of a node holds is the field of a node in a tree. -/
def Slot.FieldShows (cells : List Cell) (field : String × Slot) (shown : String × Tree) : Prop :=
  field.1 = shown.1 ∧ field.2.Shows cells shown.2

mutual

/-- The value that a tree comes from, but for what is no field; the type of a node comes first. -/
def Tree.erased : Tree → Value
  | .node type fields => .object (("type", .str type) :: Tree.erasedFields fields)
  | .list items => .list (Tree.erasedItems items)
  | .value v => v

def Tree.erasedItems : List Tree → List Value
  | [] => []
  | item :: rest => item.erased :: Tree.erasedItems rest

def Tree.erasedFields : Fields → Members
  | [] => []
  | (key, t) :: rest => (key, t.erased) :: Tree.erasedFields rest

end

namespace Slot

variable {cells : List Cell} {id : Nat} {slots : List Slot} {items : List Tree} {t u : Tree}

theorem shows_list (inside : List.Forall₂ (Shows cells) slots items) :
    Shows cells (.list slots) (.list items) := by
  obtain ⟨length, inside⟩ := List.forall₂_iff_get.mp inside
  exact .list length inside

theorem shows_node {cell : Cell} {fields : Fields} (there : cells[id]? = some cell)
    (inside : List.Forall₂ (FieldShows cells) cell.fields fields) :
    Shows cells (.node id) (.node cell.type fields) := by
  obtain ⟨length, inside⟩ := List.forall₂_iff_get.mp inside
  exact .node there length (fun i low high => (inside i low high).1)
    fun i low high => (inside i low high).2

/-- No more than one tree can be read. -/
theorem Shows.unique {slot : Slot} (one : slot.Shows cells t) (two : slot.Shows cells u) :
    t = u := by
  induction one generalizing u with
  | node there length keys inside ih =>
    cases two with
    | node there' length' keys' inside' =>
      cases there.symm.trans there'
      congr 1
      refine List.ext_get (length.symm.trans length') fun i low high => ?_
      have held := length ▸ low
      exact Prod.ext ((keys i held low).symm.trans (keys' i held high))
        (ih i held low (inside' i held high))
  | list length inside ih =>
    cases two with
    | list length' inside' =>
      congr 1
      refine List.ext_get (length.symm.trans length') fun i low high => ?_
      have held := length ▸ low
      exact ih i held low (inside' i held high)
  | value v =>
    cases two
    rfl

end Slot

namespace Slot

variable {cells : List Cell} {slot : Slot} {t : Tree} {n : Node}

theorem mem_refsIn {id : Nat} {slots : List Slot} :
    id ∈ refsIn slots ↔ ∃ slot ∈ slots, id ∈ slot.refs := by
  induction slots with
  | nil => simp [refsIn]
  | cons slot rest ih => simp [refsIn, ih]

theorem exists_ref_of_node (shown : slot.Shows cells n.toTree) :
    ∃ id ∈ slot.refs, (Slot.node id).Shows cells n.toTree := by
  obtain ⟨type, fields⟩ := n
  cases shown with
  | @node id _ _ there length keys inside =>
    exact ⟨id, List.mem_singleton_self id, .node there length keys inside⟩

/-- A child in a field, or in its list, is read from one of the nodes in that field. -/
theorem exists_ref (shown : slot.Shows cells t)
    (holds : t = n.toTree ∨ ∃ items, t = .list items ∧ n.toTree ∈ items) :
    ∃ id ∈ slot.refs, (Slot.node id).Shows cells n.toTree := by
  rcases holds with rfl | ⟨items, rfl, member⟩
  · exact exists_ref_of_node shown
  · cases shown with
    | list length inside =>
      obtain ⟨slot, among, here⟩ := exists_of_forall₂
        (List.forall₂_iff_get.mpr ⟨length, inside⟩) member
      obtain ⟨id, ref, reads⟩ := exists_ref_of_node here
      exact ⟨id, mem_refsIn.mpr ⟨slot, among, ref⟩, reads⟩

end Slot

theorem Node.exists_field_of_child {n : Node} {found : Place × Node}
    (member : found ∈ n.placedChildren) : ∃ field ∈ n.fields, field.2 = found.2.toTree ∨
      ∃ items, field.2 = .list items ∧ found.2.toTree ∈ items := by
  obtain ⟨key, -, here⟩ := List.mem_flatMap.mp member
  unfold childrenAt Node.get at here
  cases held : n.fields.lookup key with
  | none => simp [held, Tree.null] at here
  | some t =>
    refine ⟨(key, t), Table.mem_of_lookup held, ?_⟩
    rw [held] at here
    cases t with
    | node type fields =>
      rw [Option.getD_some, List.mem_singleton] at here
      exact .inl (by rw [here]; rfl)
    | list items => exact .inr ⟨items, rfl, mem_of_mem_nodesAmong here⟩
    | value v => exact absurd here List.not_mem_nil

namespace Wrapping

/-- A child of a node is read from a node that stands in it. -/
theorem exists_ref_of_child {cells : List Cell} {id : Nat} {c d : Cursor}
    (shown : (Slot.node id).Shows cells c.node.toTree) (member : d ∈ c.children) :
    ∃ owner : Cell, cells[id]? = some owner ∧
      ∃ child ∈ owner.refs, (Slot.node child).Shows cells d.node.toTree := by
  obtain ⟨found, placed, same, -⟩ := Cursor.address_of_mem_children member
  obtain ⟨field, among, holds⟩ := Node.exists_field_of_child placed
  obtain ⟨⟨type, fields⟩, above⟩ := c
  cases shown with
  | @node _ cell _ there length keys inside =>
    have each : List.Forall₂ (Slot.FieldShows cells) cell.fields fields :=
      List.forall₂_iff_get.mpr ⟨length, fun i low high => ⟨keys i low high, inside i low high⟩⟩
    obtain ⟨own, held, -, reads⟩ := exists_of_forall₂ each among
    obtain ⟨child, ref, readsChild⟩ := Slot.exists_ref reads holds
    exact ⟨cell, there, child, List.mem_flatMap.mpr ⟨own, held, ref⟩, same ▸ readsChild⟩

/-- Every node of the tree is one of those that were made, and the links lead back to the root. -/
theorem Linked.at {w : Wrapping} {n : Node} (linked : w.Linked)
    (shown : (Slot.node 0).Shows w.cells n.toTree) {c : Cursor}
    (below : (Cursor.ofRoot n).Below c) : ∃ id, c.At w.cells id := by
  induction below with
  | refl =>
    obtain ⟨cell, zero, top⟩ := linked.root
    exact ⟨0, .root rfl shown zero top⟩
  | @tail c d _ member ih =>
    obtain ⟨id, placed⟩ := ih
    have reads : (Slot.node id).Shows w.cells c.node.toTree := by
      cases placed <;> assumption
    obtain ⟨owner, there, child, ref, readsChild⟩ := exists_ref_of_child reads member
    obtain ⟨cell, held, up⟩ := linked.linked id owner there child ref
    obtain ⟨key, indices, above⟩ := Cursor.above_of_mem_children member
    have parent : d.parent? = some c := by rw [Cursor.parent?, above]
    exact ⟨child, .linked parent readsChild held up placed⟩

end Wrapping

section

variable [Host]

mutual

/-- A value whose nodes have no parents and types that are texts. The type of a node comes first. -/
def Value.bare : Value → Value
  | .object members => match members.lookup "type" with
    | some type => .object (("type", .str type.plain) :: Value.bareMembers members)
    | none => .object members
  | .list items => .list (Value.bareItems items)
  | .null => .null
  | .bool b => .bool b
  | .int n => .int n
  | .float x => .float x
  | .str s => .str s
  | .moment m => .moment m

/-- The items of a list without the parents of nodes. -/
def Value.bareItems : List Value → List Value
  | [] => []
  | item :: rest => item.bare :: Value.bareItems rest

/-- The members of a node beside its type and its parent; members that are kept as data are not
touched. -/
def Value.bareMembers : Members → Members
  | [] => []
  | (key, v) :: rest =>
    if Tree.isReservedKey key then Value.bareMembers rest
    else (key, if Tree.isDataKey key then v else v.bare) :: Value.bareMembers rest

end

namespace Wrapping

variable {w : Wrapping} {origins : List Members}

mutual

/-- Once no node waits, what stands for a value shows the tree of the value. -/
theorem Belongs.shows (belongs : w.Belongs origins) (done : w.pending = []) :
    ∀ (v : Value) (slot : Slot), slot.StandsFor origins v → slot.Shows w.cells (Tree.ofValue v)
  | .object members, slot, stands => by
    cases stands with
    | @node id _ type held there =>
      have inside : id < w.cells.length := belongs.size ▸ (List.getElem?_eq_some_iff.mp there).1
      have found := List.getElem?_eq_getElem inside
      obtain ⟨type', held', typed⟩ := belongs.typed id _ members found there
      obtain rfl := Option.some.inj (held.symm.trans held')
      have filled := belongs.filled id _ members found there (by simp [done])
      rw [Tree.ofValue, held]
      change Slot.Shows w.cells (.node id) (.node type.plain (Tree.ofMembers members))
      rw [← typed]
      exact Slot.shows_node found (belongs.showsMembers done members _ filled)
    | data held =>
      rw [Tree.ofValue, held]
      exact .value _
    | leaf _ other => exact absurd rfl (other members)
  | .list items, slot, stands => by
    cases stands with
    | list length inside =>
      exact Slot.shows_list (belongs.showsItems done items _
        (Slot.standsFor_list_iff.mp (.list length inside)))
    | leaf other => exact absurd rfl (other items)
  | .null, slot, stands | .bool _, slot, stands | .int _, slot, stands | .float _, slot, stands
  | .str _, slot, stands | .moment _, slot, stands => by
    cases stands
    exact .value _

theorem Belongs.showsItems (belongs : w.Belongs origins) (done : w.pending = []) :
    ∀ (items : List Value) (slots : List Slot), List.Forall₂ (Slot.StandsFor origins) slots items →
      List.Forall₂ (Slot.Shows w.cells) slots (Tree.ofItems items)
  | [], _, .nil => .nil
  | item :: rest, _, .cons here later =>
    .cons (belongs.shows done item _ here) (belongs.showsItems done rest _ later)

theorem Belongs.showsMembers (belongs : w.Belongs origins) (done : w.pending = []) :
    ∀ (members : Members) (fields : List (String × Slot)),
      List.Forall₂ (Slot.FilledFrom origins) fields
        (members.filter (!Tree.isReservedKey ·.1)) →
      List.Forall₂ (Slot.FieldShows w.cells) fields (Tree.ofMembers members)
  | [], fields, filled => by
    cases filled
    exact .nil
  | (key, v) :: rest, fields, filled => by
    rw [Tree.ofMembers]
    cases reserved : Tree.isReservedKey key with
    | true =>
      rw [List.filter_cons_of_neg (by simp [reserved])] at filled
      exact belongs.showsMembers done rest fields filled
    | false =>
      rw [List.filter_cons_of_pos (by simp [reserved])] at filled
      cases filled with
      | cons here later =>
        refine .cons ⟨here.key, ?_⟩ (belongs.showsMembers done rest _ later)
        cases data : Tree.isDataKey key with
        | true =>
          rw [here.data data]
          exact .value v
        | false => exact belongs.shows done v _ (here.other data)

end

end Wrapping

mutual

theorem Tree.erased_ofValue : ∀ v : Value, (Tree.ofValue v).erased = v.bare
  | .object members => by
    rw [Tree.ofValue, Value.bare]
    cases members.lookup "type" with
    | none => rfl
    | some type =>
      rw [Tree.erased, Tree.erasedFields_ofMembers members]
  | .list items => by rw [Tree.ofValue, Value.bare, Tree.erased, Tree.erasedItems_ofItems items]
  | .null | .bool _ | .int _ | .float _ | .str _ | .moment _ => rfl

theorem Tree.erasedItems_ofItems : ∀ items : List Value,
    Tree.erasedItems (Tree.ofItems items) = Value.bareItems items
  | [] => rfl
  | item :: rest => by
    rw [Tree.ofItems, Tree.erasedItems, Value.bareItems, Tree.erased_ofValue item,
      Tree.erasedItems_ofItems rest]

theorem Tree.erasedFields_ofMembers : ∀ members : Members,
    Tree.erasedFields (Tree.ofMembers members) = Value.bareMembers members
  | [] => rfl
  | (key, v) :: rest => by
    rw [Tree.ofMembers, Value.bareMembers]
    cases Tree.isReservedKey key with
    | true => exact Tree.erasedFields_ofMembers rest
    | false =>
      change Tree.erasedFields ((key, _) :: Tree.ofMembers rest) = (key, _) :: Value.bareMembers rest
      rw [Tree.erasedFields, Tree.erasedFields_ofMembers rest]
      cases Tree.isDataKey key with
      | true => rfl
      | false => rw [if_neg Bool.false_ne_true, if_neg Bool.false_ne_true, Tree.erased_ofValue v]

end

namespace Wrapping

/-- The nodes of a finished tree, next to the object of the root and to the tree that the recursion
makes of it. -/
structure Finished (w : Wrapping) (members : Members) (n : Node) : Prop where
  done : w.pending = []
  shows : ∀ t, (Slot.node 0).Shows w.cells t ↔ t = n.toTree
  erased : n.toTree.erased = (Value.object members).bare
  filled : ∃ origins : List Members, origins[0]? = some members ∧
    origins.length = w.cells.length ∧ ∀ (id : Nat) (cell : Cell) (origin : Members),
      w.cells[id]? = some cell → origins[id]? = some origin →
        cell.TypedBy origin ∧ cell.FilledFrom origins origin
  root : ∃ cell : Cell, w.cells[0]? = some cell ∧ cell.parent = none
  parents : ∀ id parent, (∃ cell : Cell, w.cells[id]? = some cell ∧ cell.parent = some parent) ↔
    ∃ owner : Cell, w.cells[parent]? = some owner ∧ id ∈ owner.refs
  places : (w.cells.flatMap Cell.refs).Perm (List.range' 1 (w.cells.length - 1))
  ways : ∀ c, (Cursor.ofRoot n).Below c → ∃ id, c.At w.cells id

theorem finished_of_ofRoot {w : Wrapping} {members : Members} {n : Node}
    (made : ofRoot (.object members) = .ok w) (rooted : Tree.root (.object members) = .ok n) :
    w.Finished members n := by
  obtain ⟨done, linked, more, belongs⟩ := belongs_of_ofRoot made
  obtain ⟨type, roots, -⟩ := Tree.root_ok_iff.mp rooted
  have same := Tree.toTree_of_root rooted
  have shown : (Slot.node 0).Shows w.cells n.toTree :=
    same ▸ belongs.shows done (.object members) (.node 0) (.node roots.held rfl)
  exact {
    done
    shows := fun t => ⟨fun other => other.unique shown, fun equal => equal ▸ shown⟩
    erased := by rw [same, Tree.erased_ofValue]
    filled := ⟨members :: more, rfl, belongs.size.symm, fun id cell origin there given =>
      ⟨belongs.typed id cell origin there given,
        belongs.filled id cell origin there given (by simp [done])⟩⟩
    root := linked.root
    parents := fun _ _ => linked.parent_iff
    places := linked.placed
    ways := fun c => linked.at shown }

omit [Host] in
theorem ends_alike {α β : Type} {x : Read α} {y : Read β}
    (alike : (do let _ ← x; return ()) = (do let _ ← y; return () : Read Unit)) :
    ((∃ a, x = .ok a) ↔ ∃ b, y = .ok b) ∧ ∀ fault, x = .error fault ↔ y = .error fault := by
  cases x <;> cases y <;> simp_all [Bind.bind, Except.bind, Pure.pure, Except.pure]

/-- Filling nodes in one by one makes what the recursion makes. Both make a tree of an object with a
type just when no more lists stand directly around a part of it than there is room for and the types
can be shown, and else stop at one fault. -/
theorem ofRoot_outcome (members : Members) :
    ((∃ w, ofRoot (.object members) = .ok w) ↔ ∃ type, Tree.Roots members type) ∧
    (∀ fault, ofRoot (.object members) = .error fault ↔
      Tree.root (.object members) = .error fault) ∧
    ∀ w, ofRoot (.object members) = .ok w →
      ∃ n, Tree.root (.object members) = .ok n ∧ w.Finished members n := by
  obtain ⟨both, faults⟩ := ends_alike (ofRoot_check (.object members))
  refine ⟨both.trans ?_, faults, fun w made => ?_⟩
  · simp [Tree.root_ok_iff]
  · obtain ⟨n, rooted⟩ := both.mp ⟨w, made⟩
    exact ⟨n, rooted, finished_of_ofRoot made rooted⟩

end Wrapping

end

namespace Wrapping

/-- A program with one statement, which names a parent. -/
def smallProgram : Members :=
  [("body", .list [.object [("parent", .int 5), ("type", .str "EmptyStatement")]]),
    ("type", .str "Program"), ("range", .list [.int 0, .int 1])]

attribute [local instance] Host.usual in
/-- The statement of a small program is made, and is linked to the node that it stands in. -/
theorem ofRoot_outcome_small : ∃ w, ofRoot (.object smallProgram) = .ok w ∧
    ∃ (id above : Nat) (cell owner : Cell), w.cells[id]? = some cell ∧
      (Slot.node id).Shows w.cells (.node "EmptyStatement" []) ∧ cell.parent = some above ∧
      w.cells[above]? = some owner ∧ id ∈ owner.refs := by
  let program : Node := ⟨"Program", [("body", .list [.node "EmptyStatement" []]),
    ("range", .value (.list [.int 0, .int 1]))]⟩
  have rooted : Tree.root (.object smallProgram) = .ok program := rfl
  obtain ⟨type, roots, -⟩ := Tree.root_ok_iff.mp rooted
  obtain ⟨ends, -, each⟩ := ofRoot_outcome smallProgram
  obtain ⟨w, made⟩ := ends.mpr ⟨type, roots⟩
  obtain ⟨n, rooted', finished⟩ := each w made
  obtain rfl := Except.ok.inj (rooted.symm.trans rooted')
  let statement := (Cursor.ofRoot program).descend "body" [0] ⟨"EmptyStatement", []⟩
  have below : (Cursor.ofRoot program).Below statement := .single (List.mem_singleton_self _)
  obtain ⟨id, placed⟩ := finished.ways statement below
  cases placed with
  | root top => cases top
  | @linked _ _ _ above cell _ shown there up _ =>
    obtain ⟨owner, held, ref⟩ := (finished.parents id above).mp ⟨cell, there, up⟩
    exact ⟨w, made, id, above, cell, owner, there, shown, up, held, ref⟩

def inLists : Nat → Value → Value
  | 0, v => v
  | n + 1, v => .list [inLists n v]

theorem wraps_inLists [Host] {around n : Nat} {v : Value}
    (wraps : Tree.Wraps around (inLists n v)) : around + n ≤ Host.listLevels := by
  induction n generalizing around with
  | zero => exact wraps.room
  | succ n ih =>
    obtain ⟨-, inside⟩ := Tree.wraps_list_iff.mp wraps
    have deeper := ih (inside _ List.mem_cons_self)
    omega

/-- Whatever room there is, a node in one list more is not made. -/
theorem deep_lists_stop : ¬ ∃ _ : Host, ∀ members type, members.lookup "type" = some type →
    ∃ w, ofRoot (.object members) = .ok w := by
  rintro ⟨host, claim⟩
  let inside : Value := .object [("type", .str "A")]
  let lists := inLists (Host.listLevels + 1) inside
  have made := claim [("type", .str "A"), ("x", lists)] (.str "A") rfl
  obtain ⟨type, roots⟩ := (ofRoot_outcome _).1.mp made
  have deep := wraps_inLists (roots.inside ("x", lists) (.tail _ List.mem_cons_self)
    ⟨rfl, rfl⟩)
  omega

end Wrapping

end TreeLint
