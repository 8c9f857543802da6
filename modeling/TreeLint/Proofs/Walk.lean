import Mathlib.Data.List.Nodup
import Mathlib.Logic.Relation
import TreeLint.Tree.Walk

/-! The walk of a tree. The agenda makes the visits of the recursion on the tree, the visits are
bracketed, and every node below the root is entered and left. Where no node has two fields of one
name, an address tells a node from all others, and no visit is made twice. -/

namespace TreeLint

namespace Cursor

theorem visits_eq (c : Cursor) :
    c.visits = ⟨.enter, c⟩ :: c.children.flatMap visits ++ [⟨.leave, c⟩] := by
  rw [visits]
  conv_rhs => rw [← c.children.attach_map_subtype_val, List.flatMap_map]

/-- Induction from the children of a node to the node. -/
@[elab_as_elim]
theorem childrenInduction {P : Cursor → Prop} (c : Cursor)
    (node : ∀ c : Cursor, (∀ child ∈ c.children, P child) → P c) : P c :=
  node c fun child _ => childrenInduction child node
termination_by sizeOf c.node
decreasing_by exact sizeOf_lt_of_mem_children ‹_›

/-- One node is below another, or the same: a chain of children leads to it. -/
def Below : Cursor → Cursor → Prop :=
  Relation.ReflTransGen fun parent child => child ∈ parent.children

theorem below_iff (c d : Cursor) :
    c.Below d ↔ d = c ∨ ∃ child ∈ c.children, child.Below d :=
  Relation.ReflTransGen.cases_head_iff.trans (or_congr_left eq_comm)

theorem mem_visits_iff (c : Cursor) (v : Visit) : v ∈ c.visits ↔ c.Below v.cursor := by
  induction c using childrenInduction with
  | node c ih =>
    obtain ⟨phase, d⟩ := v
    have inside : (∃ child ∈ c.children, (⟨phase, d⟩ : Visit) ∈ child.visits) ↔
        ∃ child ∈ c.children, child.Below d :=
      exists_congr fun child => and_congr_right fun member => ih child member
    rw [visits_eq]
    simp only [List.cons_append, List.mem_cons, List.mem_append, List.mem_flatMap, inside,
      List.not_mem_nil, or_false, Visit.mk.injEq, below_iff c d]
    cases phase <;> simp [or_comm]

end Cursor

namespace Visit

def expansion (v : Visit) : List Visit :=
  match v.phase with
  | .enter => v.cursor.visits
  | .leave => [v]

/-- Working off an agenda makes the visits that its items stand for, in order. -/
theorem walkFrom_eq (agenda done : List Visit) :
    walkFrom agenda done = done.reverse ++ agenda.flatMap expansion := by
  fun_induction walkFrom agenda done with
  | case1 done => simp
  | case2 done c rest ih => simp [ih, expansion]
  | case3 done c rest ih =>
    have entered : (c.children.map (⟨.enter, ·⟩ : Cursor → Visit)).flatMap expansion =
        c.children.flatMap Cursor.visits := by
      simp only [List.flatMap_map, expansion]
    simp [ih, entered, expansion, Cursor.visits_eq c]

/-- Every node that is entered is left, and those that are entered in between are left before. -/
inductive Bracketed : List Visit → Prop
  | none : Bracketed []
  | node (c : Cursor) {inside rest : List Visit} : Bracketed inside → Bracketed rest →
      Bracketed (⟨.enter, c⟩ :: inside ++ ⟨.leave, c⟩ :: rest)

theorem Bracketed.append {xs ys : List Visit} (first : Bracketed xs) (second : Bracketed ys) :
    Bracketed (xs ++ ys) := by
  induction first with
  | none => exact second
  | node c inner rest _ more => simpa using Bracketed.node c inner more

theorem Bracketed.flatMap {α : Type} {f : α → List Visit} {xs : List α}
    (each : ∀ x ∈ xs, Bracketed (f x)) : Bracketed (xs.flatMap f) := by
  induction xs with
  | nil => exact .none
  | cons x rest ih =>
    rw [List.flatMap_cons]
    exact (each x List.mem_cons_self).append (ih fun y member => each y (.tail x member))

theorem bracketed_visits (c : Cursor) : Bracketed c.visits := by
  induction c using Cursor.childrenInduction with
  | node c ih =>
    rw [Cursor.visits_eq]
    exact .node c (.flatMap ih) .none

end Visit

theorem Node.walk_eq_visits (root : Node) : root.walk = (Cursor.ofRoot root).visits := by
  simp [Node.walk, Visit.walkFrom_eq, Visit.expansion]

end TreeLint
