import Mathlib.Data.List.Forall2
import TreeLint.Proofs.Reporting
import TreeLint.Proofs.Table
import TreeLint.Proofs.Walk
import TreeLint.Tree.Position

/-! Trees that cannot be told apart. Two nodes are alike if they are of one type, list the same
fields of children, and hold alike trees in every field but the tokens; the order of the fields is
then not seen. Reading alike trees ends alike, and their walks make alike visits. -/

namespace TreeLint

variable {α β γ δ : Type}

/-- Two readings end alike: at one fault, or with results that are related. -/
inductive Read.Both (R : α → β → Prop) : Read α → Read β → Prop
  | ok {a : α} {b : β} : R a b → Both R (.ok a) (.ok b)
  | error (fault : Fault) : Both R (.error fault) (.error fault)

namespace Read.Both

variable {R : α → β → Prop} {x : Read α} {y : Read β}

theorem bind {S : γ → δ → Prop} {f : α → Read γ} {g : β → Read δ} (both : Both R x y)
    (next : ∀ a b, R a b → Both S (f a) (g b)) : Both S (x >>= f) (y >>= g) := by
  cases both with
  | ok related => exact next _ _ related
  | error fault => exact .error fault

/-- After one reading, two go on alike if they do from each of its results. -/
theorem after {S : γ → δ → Prop} (first : Read α) {f : α → Read γ} {g : α → Read δ}
    (next : ∀ a, Both S (f a) (g a)) : Both S (first >>= f) (first >>= g) := by
  cases first with
  | ok a => exact next a
  | error fault => exact .error fault

theorem bind_eq {f : α → Read γ} {g : β → Read γ} (both : Both R x y)
    (next : ∀ a b, R a b → f a = g b) : (x >>= f) = (y >>= g) := by
  cases both with
  | ok related => exact next _ _ related
  | error fault => rfl

theorem lift_bind_eq {f : α → Reporting γ} {g : β → Reporting γ} (both : Both R x y)
    (next : ∀ a b, R a b → f a = g b) :
    ((liftM x : Reporting α) >>= f) = ((liftM y : Reporting β) >>= g) := by
  cases both with
  | ok related =>
    change Reporting.andThen _ f = Reporting.andThen _ g
    simp only [Reporting.andThen, liftM, monadLift, MonadLift.monadLift, next _ _ related]
  | error fault => rfl

end Read.Both

theorem forall₂_flatMap {R : α → β → Prop} {S : γ → δ → Prop} {f : α → List γ} {g : β → List δ}
    {xs : List α} {ys : List β} (related : List.Forall₂ R xs ys)
    (each : ∀ x ∈ xs, ∀ y, R x y → List.Forall₂ S (f x) (g y)) :
    List.Forall₂ S (xs.flatMap f) (ys.flatMap g) := by
  induction related with
  | nil => exact .nil
  | @cons x y _ _ here _ ih =>
    rw [List.flatMap_cons, List.flatMap_cons]
    apply List.rel_append (each x List.mem_cons_self y here)
    exact ih fun x later => each x (.tail _ later)

/-- Induction from the items of a list, and from what the fields of a node read as. -/
@[elab_as_elim]
theorem Tree.fieldInduction {P : Tree → Prop} (t : Tree) (value : ∀ v, P (.value v))
    (list : ∀ items : List Tree, (∀ item ∈ items, P item) → P (.list items))
    (node : ∀ type fields, (∀ key, P (Node.get ⟨type, fields⟩ key)) → P (.node type fields)) :
    P t := by
  match t with
  | .value v => exact value v
  | .list items => exact list items fun item member => fieldInduction item value list node
  | .node type fields =>
    refine node type fields fun key => ?_
    cases held : fields.lookup key with
    | none =>
      rw [Node.get, held]
      exact value .null
    | some inside =>
      have smaller := Node.sizeOf_lt_of_lookup held
      rw [Node.get, held]
      exact fieldInduction inside value list node
termination_by sizeOf t
decreasing_by
  · have := List.sizeOf_lt_of_mem member
    simp only [Tree.list.sizeOf_spec]
    omega
  · simp only [Tree.node.sizeOf_spec]
    omega

/-- Trees whose nodes differ in nothing but tokens and the order of the fields, where that order is
not the order of the children. -/
inductive Tree.Alike : Tree → Tree → Prop
  | value (v : Value) : Alike (.value v) (.value v)
  | list {items others : List Tree} : items.length = others.length →
      (∀ (i : Nat) (low : i < items.length) (high : i < others.length),
        Alike (items.get ⟨i, low⟩) (others.get ⟨i, high⟩)) →
      Alike (.list items) (.list others)
  | node {type : String} {fields others : Fields} :
      Node.childKeys ⟨type, fields⟩ = Node.childKeys ⟨type, others⟩ →
      (∀ key, key ≠ "tokens" → Alike (Node.get ⟨type, fields⟩ key) (Node.get ⟨type, others⟩ key)) →
      Alike (.node type fields) (.node type others)

structure Node.Alike (n m : Node) : Prop where
  type : n.type = m.type
  childKeys : n.childKeys = m.childKeys
  get : ∀ key, key ≠ "tokens" → (n.get key).Alike (m.get key)

namespace Tree

variable {t u : Tree}

theorem alike_node_iff {n m : Node} : n.toTree.Alike m.toTree ↔ n.Alike m := by
  obtain ⟨type, fields⟩ := n
  obtain ⟨other, others⟩ := m
  constructor
  · intro alike
    cases alike with
    | node keys inside => exact ⟨rfl, keys, inside⟩
  · rintro ⟨same, keys, inside⟩
    cases same
    exact .node keys inside

theorem alike_list_iff {items others : List Tree} :
    (Tree.list items).Alike (.list others) ↔ List.Forall₂ Alike items others := by
  rw [List.forall₂_iff_get]
  constructor
  · intro alike
    cases alike with
    | list length inside => exact ⟨length, inside⟩
  · rintro ⟨length, inside⟩
    exact .list length inside

namespace Alike

theorem refl (t : Tree) : t.Alike t := by
  induction t using fieldInduction with
  | value v => exact .value v
  | list items ih => exact .list rfl fun i low _ => ih _ (List.getElem_mem low)
  | node type fields ih => exact .node rfl fun key _ => ih key

theorem asNode (alike : t.Alike u) : Read.Both Node.Alike t.asNode u.asNode := by
  cases alike with
  | value v => exact .error .noFields
  | list => exact .error .noFields
  | node keys inside => exact .ok ⟨rfl, keys, inside⟩

theorem asNode? (alike : t.Alike u) : Read.Both (Option.Rel Node.Alike) t.asNode? u.asNode? := by
  cases alike with
  | value v => cases v <;> first | exact .ok .none | exact .error .noFields
  | list => exact .error .noFields
  | node keys inside => exact .ok (.some ⟨rfl, keys, inside⟩)

theorem string? (alike : t.Alike u) : t.string? = u.string? := by
  cases alike <;> rfl

theorem isTruthy (alike : t.Alike u) : t.isTruthy = u.isTruthy := by
  cases alike with
  | value v => rfl
  | @list items others length _ =>
    have empty : items.isEmpty = others.isEmpty := by
      rw [Bool.eq_iff_iff, List.isEmpty_iff_length_eq_zero, List.isEmpty_iff_length_eq_zero, length]
    rw [Tree.isTruthy, Tree.isTruthy, empty]
  | node => rfl

theorem items (alike : t.Alike u) : Read.Both (List.Forall₂ Alike) t.items u.items := by
  cases alike with
  | value v =>
    simp only [Tree.items]
    cases v.itemsOrNone with
    | error fault => exact .error fault
    | ok items => exact .ok (List.forall₂_same.mpr fun t _ => refl t)
  | list length inside => exact .ok (alike_list_iff.mp (.list length inside))
  | node => exact .error .wrongKind

/-- A reading of a place goes on alike where nothing is there and at alike nodes. -/
theorem at_both {R : α → β → Prop} {f : Option Node → Read α} {g : Option Node → Read β}
    (alike : t.Alike u) (none : Read.Both R (f none) (g none))
    (some : ∀ n m, n.Alike m → Read.Both R (f (some n)) (g (some m))) :
    Read.Both R (t.asNode? >>= f) (u.asNode? >>= g) := by
  apply alike.asNode?.bind
  intro a b related
  cases related with
  | none => exact none
  | some node => exact some _ _ node

theorem at_eq {f g : Option Node → Read α} (alike : t.Alike u) (none : f none = g none)
    (some : ∀ n m, n.Alike m → f (some n) = g (some m)) :
    (t.asNode? >>= f) = (u.asNode? >>= g) := by
  apply alike.asNode?.bind_eq
  intro a b related
  cases related with
  | none => exact none
  | some node => exact some _ _ node

theorem lift_at_eq {f g : Option Node → Reporting α} (alike : t.Alike u) (none : f none = g none)
    (some : ∀ n m, n.Alike m → f (some n) = g (some m)) :
    ((liftM t.asNode? : Reporting (Option Node)) >>= f) =
      ((liftM u.asNode? : Reporting (Option Node)) >>= g) := by
  apply alike.asNode?.lift_bind_eq
  intro a b related
  cases related with
  | none => exact none
  | some node => exact some _ _ node

end Alike

end Tree

namespace Node

theorem tokens_not_mem_childKeys (n : Node) : "tokens" ∉ n.childKeys := by
  have known : ∀ entry ∈ childKeysOfType, "tokens" ∉ entry.2 := by decide
  unfold childKeys
  split
  · rename_i keys found
    exact known (n.type, keys) (Table.mem_of_lookup found)
  · simp [isPlainKey]

namespace Alike

variable {n m : Node}

/-- Alike nodes hold alike trees in a field. -/
theorem field (alike : n.Alike m) (key : String) (other : (key == "tokens") = false) :
    (n.get key).Alike (m.get key) :=
  alike.get key (beq_eq_false_iff_ne.mp other)

theorem refl (n : Node) : n.Alike n := ⟨rfl, rfl, fun _ _ => .refl _⟩

theorem toTree (alike : n.Alike m) : n.toTree.Alike m.toTree := Tree.alike_node_iff.mpr alike

theorem nameText (alike : n.Alike m) : n.nameText = m.nameText := (alike.field "name" rfl).string?

theorem isExport (alike : n.Alike m) : n.isExport = m.isExport := by
  rw [Node.isExport, Node.isExport, alike.type]

theorem pair? {t u : Tree} (alike : t.Alike u) : pair? t = pair? u := by
  cases alike <;> rfl

theorem start (alike : n.Alike m) : n.start = m.start := by
  unfold Node.start
  rw [pair? (alike.field "range" rfl)]
  have held := alike.field "start" rfl
  generalize n.get "start" = one at held
  generalize m.get "start" = two at held
  cases held <;> rfl

theorem stop (alike : n.Alike m) : n.stop = m.stop := by
  unfold Node.stop
  rw [pair? (alike.field "range" rfl)]
  have held := alike.field "end" rfl
  generalize n.get "end" = one at held
  generalize m.get "end" = two at held
  cases held <;> rfl

theorem coordinate (alike : n.Alike m) (key : String) : n.coordinate key = m.coordinate key := by
  unfold Node.coordinate
  have held := alike.field "loc" rfl
  generalize n.get "loc" = one at held
  generalize m.get "loc" = two at held
  cases held <;> rfl

theorem written (alike : n.Alike m) (host : Host) : n.written host = m.written host := by
  unfold Node.written
  rw [alike.start, alike.type]

end Alike

end Node

namespace Tree.Alike

variable {t u : Tree}

theorem written (alike : t.Alike u) (host : Host) (levels : Nat) :
    t.written host levels = u.written host levels := by
  induction alike generalizing levels with
  | value v => rfl
  | @list items others length alike ih =>
    have each : List.Forall₂ (fun t u => ∀ levels, t.written host levels = u.written host levels)
        items others :=
      List.forall₂_iff_get.mpr ⟨length, ih⟩
    have inside (levels : Nat) :
        writtenItems host items levels = writtenItems host others levels := by
      clear ih alike length
      induction each with
      | nil => rfl
      | cons here _ more => rw [writtenItems, writtenItems, here, more]
    cases levels with
    | zero => rfl
    | succ levels => rw [Tree.written, Tree.written, inside]
  | @node type fields others keys inside =>
    have alike : Node.Alike ⟨type, fields⟩ ⟨type, others⟩ := ⟨rfl, keys, inside⟩
    rw [Tree.written, Tree.written, alike.written]

theorem plain (alike : t.Alike u) (host : Host) (levels : Nat) :
    t.plain host levels = u.plain host levels := by
  have written := alike.written host levels
  cases alike with
  | value v => rfl
  | list => exact written
  | node => exact written

end Tree.Alike

namespace Node

def PlacedAlike (one two : Place × Node) : Prop := one.1 = two.1 ∧ one.2.Alike two.2

theorem nodesAmong_alike (key : String) {items others : List Tree}
    (alike : List.Forall₂ Tree.Alike items others) (i : Nat) :
    List.Forall₂ PlacedAlike (nodesAmong key i items) (nodesAmong key i others) := by
  induction alike generalizing i with
  | nil => exact .nil
  | cons here _ ih =>
    cases here with
    | value => exact ih (i + 1)
    | list => exact ih (i + 1)
    | node keys inside => exact .cons ⟨rfl, rfl, keys, inside⟩ (ih (i + 1))

theorem childrenAt_alike {n m : Node} {key : String} (alike : (n.get key).Alike (m.get key)) :
    List.Forall₂ PlacedAlike (n.childrenAt key) (m.childrenAt key) := by
  unfold childrenAt
  generalize n.get key = one at alike
  generalize m.get key = two at alike
  cases alike with
  | value v => exact .nil
  | list length inside =>
    exact nodesAmong_alike key (Tree.alike_list_iff.mp (.list length inside)) 0
  | node keys inside => exact .cons ⟨rfl, rfl, keys, inside⟩ .nil

theorem Alike.placedChildren {n m : Node} (alike : n.Alike m) :
    List.Forall₂ PlacedAlike n.placedChildren m.placedChildren := by
  unfold Node.placedChildren
  rw [← alike.childKeys]
  refine forall₂_flatMap (R := Eq) (List.forall₂_same.mpr fun _ _ => rfl) ?_
  rintro key member _ rfl
  apply childrenAt_alike
  apply alike.get key
  rintro rfl
  exact n.tokens_not_mem_childKeys member

end Node

/-- Steps down alike nodes into one field. -/
structure Descent.Alike (one two : Descent) : Prop where
  parent : one.parent.Alike two.parent
  key : one.key = two.key
  indices : one.indices = two.indices

/-- Alike nodes below alike parents. -/
structure Cursor.Alike (c d : Cursor) : Prop where
  node : c.node.Alike d.node
  above : List.Forall₂ Descent.Alike c.above d.above

/-- Visits to alike nodes in one phase. -/
structure Visit.Alike (v w : Visit) : Prop where
  phase : v.phase = w.phase
  cursor : v.cursor.Alike w.cursor

namespace Cursor.Alike

variable {c d : Cursor}

theorem parent? (alike : c.Alike d) : Option.Rel Cursor.Alike c.parent? d.parent? := by
  obtain ⟨node, above⟩ := c
  obtain ⟨other, others⟩ := d
  cases alike.above with
  | nil => exact .none
  | cons step rest => exact .some ⟨step.parent, rest⟩

theorem address (alike : c.Alike d) : c.address = d.address := by
  rw [← List.forall₂_eq_eq_eq]
  unfold Cursor.address
  rw [List.forall₂_map_left_iff, List.forall₂_map_right_iff]
  refine alike.above.imp ?_
  intro one two step
  rw [step.key, step.indices]

theorem children (alike : c.Alike d) : List.Forall₂ Cursor.Alike c.children d.children := by
  unfold Cursor.children
  rw [List.forall₂_map_left_iff, List.forall₂_map_right_iff]
  refine alike.node.placedChildren.imp ?_
  rintro ⟨place, child⟩ ⟨_, other⟩ ⟨rfl, below⟩
  exact ⟨below, .cons ⟨alike.node, rfl, rfl⟩ alike.above⟩

theorem visits (alike : c.Alike d) : List.Forall₂ Visit.Alike c.visits d.visits := by
  induction c using Cursor.childrenInduction generalizing d with
  | node c ih =>
    rw [Cursor.visits_eq, Cursor.visits_eq]
    have inside : List.Forall₂ Visit.Alike (c.children.flatMap Cursor.visits)
        (d.children.flatMap Cursor.visits) :=
      forall₂_flatMap alike.children fun child member _ below => ih child member below
    apply List.rel_append
    · exact .cons ⟨rfl, alike⟩ inside
    · exact .cons ⟨rfl, alike⟩ .nil

end Cursor.Alike

/-- The walks of alike trees make alike visits. -/
theorem Node.Alike.walk {n m : Node} (alike : n.Alike m) :
    List.Forall₂ Visit.Alike n.walk m.walk := by
  rw [walk_eq_visits, walk_eq_visits]
  exact Cursor.Alike.visits ⟨alike, .nil⟩

end TreeLint
