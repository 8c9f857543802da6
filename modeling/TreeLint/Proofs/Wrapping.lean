import Mathlib.Data.List.Basic
import TreeLint.Count
import TreeLint.Proofs.Serialized

/-! Trees made by filling nodes in, beside the recursion on values. Every node is made empty, with a
link to its parent, when the field that it stands in is filled; it then waits for its own fields to
be filled, and the latest of the nodes that wait is the next. What a value adds to the nodes and to
those that wait depends on the value alone, and the nodes can be made just when the recursion finds
nothing wrong, which it tells in the same order. -/

namespace TreeLint

/-- What a field of a node under work holds. Nodes are known by their numbers. -/
inductive Slot where
  | node (id : Nat)
  | list (slots : List Slot)
  | value (v : Value)

/-- A node under work: its type, the number of its parent, and the fields filled so far. -/
structure Cell where
  type : String
  parent : Option Nat
  fields : List (String × Slot)

/-- The nodes made so far, each at the place of its number, and the objects that wait to be filled
in, each with the number of its node; the next comes first. -/
structure Wrapping where
  cells : List Cell
  pending : List (Members × Nat)

namespace Wrapping

section

variable [Host]

/-- Make an empty node for an object of some type, which is shown within some levels. -/
def attach (w : Wrapping) (parent : Option Nat) (levels : Nat) (type : Value) (members : Members) :
    Read Wrapping := do
  type.checkWritable levels
  return ⟨w.cells ++ [⟨type.plain, parent, []⟩], (members, w.cells.length) :: w.pending⟩

mutual

/-- What a field of a node is to hold for a value, with some lists around it already. -/
def adopt (w : Wrapping) (owner around : Nat) (v : Value) : Read (Slot × Wrapping) :=
  if Host.listLevels < around then .error .tooDeep
  else match v with
    | .object members => match members.lookup "type" with
      | some type => do
        return (.node w.cells.length,
          ← w.attach (some owner) (Host.typeLevels around) type members)
      | none => .ok (.value (.object members), w)
    | .list items => do
      let (slots, next) ← adoptItems w owner (around + 1) items
      return (.list slots, next)
    | .null => .ok (.value .null, w)
    | .bool b => .ok (.value (.bool b), w)
    | .int n => .ok (.value (.int n), w)
    | .float x => .ok (.value (.float x), w)
    | .str s => .ok (.value (.str s), w)
    | .moment m => .ok (.value (.moment m), w)

/-- What a field of a node is to hold for the items of a list, one by one. -/
def adoptItems (w : Wrapping) (owner around : Nat) : List Value → Read (List Slot × Wrapping)
  | [] => .ok ([], w)
  | item :: rest => do
    let (slot, next) ← adopt w owner around item
    let (slots, last) ← adoptItems next owner around rest
    return (slot :: slots, last)

end

/-- Add fields to a node. The keys of an object are distinct, so that a field is always new. -/
def addFields (w : Wrapping) (id : Nat) (fields : List (String × Slot)) : Wrapping :=
  { w with cells := w.cells.modify id fun c => { c with fields := c.fields ++ fields } }

def fill (w : Wrapping) (id : Nat) : Members → Read Wrapping
  | [] => .ok w
  | (key, v) :: rest =>
    if Tree.isReservedKey key then w.fill id rest
    else if Tree.isDataKey key then (w.addFields id [(key, .value v)]).fill id rest
    else do
      let (slot, next) ← w.adopt id 0 v
      (next.addFields id [(key, slot)]).fill id rest

end

/-! What a value adds. -/

mutual

/-- The objects of the nodes directly in a value or in its lists, in order. -/
def nodesIn : Value → List Members
  | .object members => if (members.lookup "type").isSome then [members] else []
  | .list items => nodesInItems items
  | .null | .bool _ | .int _ | .float _ | .str _ | .moment _ => []

def nodesInItems : List Value → List Members
  | [] => []
  | item :: rest => nodesIn item ++ nodesInItems rest

end

mutual

/-- What a field holds for a value if the nodes in it are numbered from some number on. -/
def slotFrom (first : Nat) : Value → Slot
  | .object members =>
    if (members.lookup "type").isSome then .node first else .value (.object members)
  | .list items => .list (slotsFrom first items)
  | .null => .value .null
  | .bool b => .value (.bool b)
  | .int n => .value (.int n)
  | .float x => .value (.float x)
  | .str s => .value (.str s)
  | .moment m => .value (.moment m)

def slotsFrom (first : Nat) : List Value → List Slot
  | [] => []
  | item :: rest => slotFrom first item :: slotsFrom (first + (nodesIn item).length) rest

end

def fieldNodes : Members → List Members
  | [] => []
  | (key, v) :: rest =>
    (if Tree.isReservedKey key || Tree.isDataKey key then [] else nodesIn v) ++ fieldNodes rest

/-- The fields of a node if the nodes in them are numbered from some number on. -/
def fieldsFrom (first : Nat) : Members → List (String × Slot)
  | [] => []
  | (key, v) :: rest =>
    if Tree.isReservedKey key then fieldsFrom first rest
    else if Tree.isDataKey key then (key, .value v) :: fieldsFrom first rest
    else (key, slotFrom first v) :: fieldsFrom (first + (nodesIn v).length) rest

variable {w next : Wrapping} {owner around id : Nat} {nodes : List Members}
  {fields : List (String × Slot)}

@[simp] theorem addFields_nil : w.addFields id [] = w := by
  simp only [addFields, List.append_nil]
  exact congrArg (Wrapping.mk · w.pending) (List.modify_id id w.cells)

@[simp] theorem addFields_length : (w.addFields id fields).cells.length = w.cells.length :=
  List.length_modify ..

@[simp] theorem addFields_addFields (one two : List (String × Slot)) :
    (w.addFields id one).addFields id two = w.addFields id (one ++ two) := by
  simp [addFields, List.modify_modify_eq, Function.comp_def]

theorem modify_append_of_lt {α : Type} {f : α → α} {xs ys : List α} {i : Nat}
    (inside : i < xs.length) : (xs ++ ys).modify i f = xs.modify i f ++ ys := by
  obtain ⟨before, x, after, rfl, rfl, changed⟩ := List.exists_of_modify f inside
  rw [changed, List.append_assoc, List.modify_eq_take_drop]
  simp

def waiting (w : Wrapping) : List Members := w.pending.map (·.1)

@[simp] theorem addFields_waiting : (w.addFields id fields).waiting = w.waiting := rfl

/-- The size of all that waits. -/
noncomputable def weight (w : Wrapping) : Nat := sumOver sizeOf w.waiting

mutual

theorem nodesIn_size : ∀ v : Value, sumOver sizeOf (nodesIn v) ≤ sizeOf v
  | .object members => by
    rw [nodesIn]
    split <;> simp [sumOver]
  | .list items => by
    rw [nodesIn, Value.list.sizeOf_spec]
    exact Nat.le_add_left_of_le (nodesInItems_size items)
  | .null | .bool _ | .int _ | .float _ | .str _ | .moment _ => Nat.zero_le _

theorem nodesInItems_size : ∀ items : List Value,
    sumOver sizeOf (nodesInItems items) ≤ sizeOf items
  | [] => Nat.zero_le _
  | item :: rest => by
    have here := nodesIn_size item
    have later := nodesInItems_size rest
    rw [nodesInItems, sumOver_append, List.cons.sizeOf_spec]
    omega

end

variable [Host]

def emptyCell (parent : Option Nat) (members : Members) : Cell :=
  ⟨((members.lookup "type").getD .null).plain, parent, []⟩

/-- Make empty nodes below one node, and let them wait. -/
def extend (w : Wrapping) (owner : Nat) (nodes : List Members) : Wrapping :=
  ⟨w.cells ++ nodes.map (emptyCell (some owner)),
    (nodes.zipIdx w.cells.length).reverse ++ w.pending⟩

@[simp] theorem extend_nil : w.extend owner [] = w := by simp [extend]

@[simp] theorem extend_length :
    (w.extend owner nodes).cells.length = w.cells.length + nodes.length := by simp [extend]

@[simp] theorem extend_extend (one two : List Members) :
    (w.extend owner one).extend owner two = w.extend owner (one ++ two) := by
  simp [extend, List.zipIdx_append]

/-- New nodes do not touch the fields of a node that is there. -/
theorem addFields_extend (inside : id < w.cells.length) :
    (w.addFields id fields).extend owner nodes = (w.extend owner nodes).addFields id fields := by
  simp [addFields, extend, modify_append_of_lt inside]

@[simp] theorem extend_waiting : (w.extend owner nodes).waiting = nodes.reverse ++ w.waiting := by
  simp [waiting, extend, List.zipIdx_map_fst]

theorem extend_weight : (w.extend owner nodes).weight = sumOver sizeOf nodes + w.weight := by
  rw [weight, extend_waiting, sumOver_append, sumOver_reverse]
  rfl

mutual

/-- What is made for a value is settled by the value, and can be made just when its nodes can. -/
theorem adopt_eq (w : Wrapping) (owner around : Nat) : ∀ v : Value, w.adopt owner around v = do
    Tree.checkDepth around v
    return (slotFrom w.cells.length v, w.extend owner (nodesIn v))
  | .object members => by
    rw [adopt, Tree.checkDepth]
    split
    · rfl
    · cases held : members.lookup "type" with
      | none => simp [slotFrom, nodesIn, held]
      | some type => simp [slotFrom, nodesIn, held, attach, extend, emptyCell]
  | .list items => by
    rw [adopt, Tree.checkDepth]
    split
    · rfl
    · simp [slotFrom, nodesIn, adoptItems_eq w owner (around + 1)]
  | .null | .bool _ | .int _ | .float _ | .str _ | .moment _ => by
    rw [adopt, Tree.checkDepth]
    split
    · rfl
    · simp [slotFrom, nodesIn]

theorem adoptItems_eq (w : Wrapping) (owner around : Nat) :
    ∀ items : List Value, w.adoptItems owner around items = do
      Tree.checkItems around items
      return (slotsFrom w.cells.length items, w.extend owner (nodesInItems items))
  | [] => by simp [adoptItems, Tree.checkItems, slotsFrom, nodesInItems]
  | item :: rest => by
    simp [adoptItems, Tree.checkItems, slotsFrom, nodesInItems, adopt_eq w owner around item,
      adoptItems_eq _ owner around rest]

end

/-- A node with its fields filled, where the nodes in them are made. -/
def filled (w : Wrapping) (id : Nat) (members : Members) : Wrapping :=
  (w.extend id (fieldNodes members)).addFields id (fieldsFrom w.cells.length members)

/-- A node can be filled just when the nodes in its fields can be made. -/
theorem fill_eq (members : Members) : ∀ {w : Wrapping}, id < w.cells.length →
    w.fill id members = do
      Tree.checkMembers members
      return w.filled id members := by
  induction members with
  | nil =>
    intro w inside
    simp [fill, Tree.checkMembers, filled, fieldNodes, fieldsFrom]
  | cons member rest ih =>
    intro w inside
    obtain ⟨key, v⟩ := member
    rw [fill, Tree.checkMembers]
    cases reserved : Tree.isReservedKey key with
    | true => simp [reserved, ih inside, filled, fieldNodes, fieldsFrom]
    | false =>
      cases data : Tree.isDataKey key with
      | true =>
        have next : id < (w.addFields id [(key, .value v)]).cells.length := by simpa using inside
        simp [reserved, data, ih next, filled, fieldNodes, fieldsFrom, addFields_extend inside]
      | false =>
        have held : id < (w.extend id (nodesIn v)).cells.length := by
          simpa using Nat.lt_add_right _ inside
        simp [reserved, data, adopt_eq, filled, fieldNodes, fieldsFrom, addFields_extend held, ih,
          Nat.lt_add_right _ inside]

/-! The run. -/

theorem fill_weight (members : Members) : ∀ {w : Wrapping}, w.fill id members = .ok next →
    next.weight < w.weight + sizeOf members := by
  induction members with
  | nil =>
    intro w made
    cases made
    simp
  | cons member rest ih =>
    intro w made
    obtain ⟨key, v⟩ := member
    rw [fill] at made
    rw [List.cons.sizeOf_spec, Prod.mk.sizeOf_spec]
    split at made
    · have later := ih made
      omega
    · split at made
      · have later := ih made
        have same : (w.addFields id [(key, .value v)]).weight = w.weight := rfl
        omega
      · rw [adopt_eq] at made
        simp only [bind_assoc, pure_bind] at made
        obtain ⟨_, -, made⟩ := bind_ok_iff.mp made
        have here := nodesIn_size v
        have later := ih made
        have same : ((w.extend id (nodesIn v)).addFields id
            [(key, slotFrom w.cells.length v)]).weight = (w.extend id (nodesIn v)).weight := rfl
        rw [same, extend_weight] at later
        omega

/-- Fill the nodes that wait, until there are none. -/
def run (w : Wrapping) : Read Wrapping :=
  match _waits : w.pending with
  | [] => .ok w
  | (members, id) :: rest =>
    match _filled : fill ⟨w.cells, rest⟩ id members with
    | .error fault => .error fault
    | .ok next => next.run
termination_by w.weight
decreasing_by
  have less := fill_weight members ‹_›
  simp only [weight, waiting, ‹w.pending = _›, List.map_cons, sumOver] at less ⊢
  omega

/-- Make the tree of a value, which has to be an object with a `type`. The root is made first. -/
def ofRoot : Value → Read Wrapping
  | .object members => match members.lookup "type" with
    | some type => do (← attach ⟨[], []⟩ none Host.rootLevels type members).run
    | none => .error (.noEntry "type")
  | .list _ | .null | .bool _ | .int _ | .float _ | .str _ | .moment _ => .error .wrongKind

theorem run_of_done (done : w.pending = []) : w.run = .ok w := by
  rw [run]
  split
  · rfl
  · rename_i waits
    cases done.symm.trans waits

theorem run_of_waits {members : Members} {rest : List (Members × Nat)}
    (waits : w.pending = (members, id) :: rest) :
    w.run = fill ⟨w.cells, rest⟩ id members >>= run := by
  rw [run]
  split
  · rename_i done
    cases done.symm.trans waits
  · rename_i waits'
    cases waits.symm.trans waits'
    split
    · rename_i failed
      rw [failed]
      rfl
    · rename_i filled
      rw [filled]
      rfl

/-- Induction along a run. -/
theorem run_induction {P : Wrapping → Prop} (w : Wrapping) (done : ∀ w, w.pending = [] → P w)
    (step : ∀ w members id rest, w.pending = (members, id) :: rest →
      (∀ next, fill ⟨w.cells, rest⟩ id members = .ok next → P next) → P w) : P w := by
  induction w using run.induct with
  | case1 w none => exact done w none
  | case2 w members id rest waits fault failed =>
    refine step w members id rest waits fun next filled => ?_
    cases failed.symm.trans filled
  | case3 w members id rest waits next filled ih =>
    refine step w members id rest waits fun next' filled' => ?_
    cases filled.symm.trans filled'
    exact ih

/-- Every node that waits is there. -/
def Sound (w : Wrapping) : Prop := ∀ entry ∈ w.pending, entry.2 < w.cells.length

theorem fill_ok_iff (w : Wrapping) {members : Members} (inside : id < w.cells.length) :
    w.fill id members = .ok next ↔
      Tree.checkMembers members = .ok () ∧ next = w.filled id members := by
  rw [fill_eq members inside, check_bind_ok_iff]
  simp [Pure.pure, Except.pure, eq_comm]

@[simp] theorem filled_waiting {members : Members} :
    (w.filled id members).waiting = (fieldNodes members).reverse ++ w.waiting := by
  rw [filled, addFields_waiting, extend_waiting]

theorem Sound.filled {w : Wrapping} {members : Members} {rest : List (Members × Nat)}
    (sound : w.Sound) (waits : w.pending = (members, id) :: rest) :
    (Wrapping.filled ⟨w.cells, rest⟩ id members).Sound := by
  intro entry member
  rw [Wrapping.filled, addFields_length, extend_length]
  rcases List.mem_append.mp member with new | old
  · obtain ⟨-, found⟩ := List.mk_mem_zipIdx_iff_le_and_getElem?_sub.mp (List.mem_reverse.mp new)
    have bounded := (List.getElem?_eq_some_iff.mp found).1
    dsimp only at bounded ⊢
    omega
  · exact Nat.lt_add_right _ (sound entry (waits ▸ .tail _ old))

/-- What is checked for a node that waits: what is in it, and then what is further inside. -/
def checkNode (members : Members) : Read Unit := do
  Tree.checkMembers members
  Tree.checkInsideMembers members

mutual

/-- The recursion looks into the nodes in a value in the order in which they would be filled. -/
theorem checkInside_eq : ∀ v : Value, Tree.checkInside v = forM (nodesIn v).reverse checkNode
  | .object members => by
    rw [Tree.checkInside, nodesIn]
    cases members.lookup "type" with
    | none => rfl
    | some type => simp [checkNode]
  | .list items => by rw [Tree.checkInside, nodesIn, checkInsideItems_eq items]
  | .null | .bool _ | .int _ | .float _ | .str _ | .moment _ => rfl

theorem checkInsideItems_eq : ∀ items : List Value,
    Tree.checkInsideItems items = forM (nodesInItems items).reverse checkNode
  | [] => rfl
  | item :: rest => by
    rw [Tree.checkInsideItems, nodesInItems, List.reverse_append, List.forM_append,
      checkInside_eq item, checkInsideItems_eq rest]

end

theorem checkInsideMembers_eq (members : Members) :
    Tree.checkInsideMembers members = forM (fieldNodes members).reverse checkNode := by
  induction members with
  | nil => rfl
  | cons member rest ih =>
    obtain ⟨key, v⟩ := member
    rw [Tree.checkInsideMembers, fieldNodes, List.reverse_append, List.forM_append, ih,
      checkInside_eq]
    cases Tree.isReservedKey key <;> cases Tree.isDataKey key <;> simp

/-- A run ends just when nothing is wrong with the objects that wait, and else at the first fault. -/
theorem run_check (sound : w.Sound) :
    (do let _ ← w.run; return ()) = forM w.waiting checkNode := by
  induction w using run_induction with
  | done w none =>
    rw [run_of_done none, waiting, none]
    rfl
  | step w members id rest waits ih =>
    have inside : id < w.cells.length := sound (members, id) (waits ▸ List.mem_cons_self)
    have order : w.waiting = members :: rest.map (·.1) := by simp [waiting, waits]
    have filling := fill_eq members (w := ⟨w.cells, rest⟩) inside
    rw [run_of_waits waits, filling, order, List.forM_cons, checkNode]
    simp only [bind_assoc, pure_bind]
    cases checked : Tree.checkMembers members with
    | error fault => rfl
    | ok =>
      have next := ih _ ((fill_ok_iff ⟨w.cells, rest⟩ inside).mpr ⟨checked, rfl⟩)
        (sound.filled waits)
      rw [filled_waiting] at next
      rw [checkInsideMembers_eq, ← List.forM_append]
      exact next

/-- The root alone, waiting. -/
def start (members : Members) : Wrapping := ⟨[emptyCell none members], [(members, 0)]⟩

theorem start_sound (members : Members) : (start members).Sound :=
  List.forall_mem_singleton.mpr Nat.one_pos

theorem ofRoot_eq {members : Members} {type : Value} (held : members.lookup "type" = some type) :
    ofRoot (.object members) =
      type.checkWritable Host.rootLevels >>= fun _ => (start members).run := by
  simp [ofRoot, held, attach, start, emptyCell]

/-- A tree is made just when the recursion on the value makes one, and else both stop at one
fault. -/
theorem ofRoot_check (v : Value) :
    (do let _ ← ofRoot v; return ()) = (do let _ ← Tree.root v; return () : Read Unit) := by
  cases v with
  | object members =>
    cases held : members.lookup "type" with
    | none => simp [ofRoot, Tree.root, held]
    | some type =>
      have check := run_check (start_sound members)
      have order : (start members).waiting = [members] := rfl
      rw [order, List.forM_cons, List.forM_nil] at check
      simp only [ofRoot_eq held, Tree.root, held, Tree.checkInside, bind_assoc,
        pure_bind]
      rw [check, checkNode]
      simp
  | _ => rfl

end Wrapping

end TreeLint
