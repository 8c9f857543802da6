import TreeLint.Count
import TreeLint.Tree.Cursor

/-! The depth-first walk of a tree. Each node is entered before its children and left after them.
The walk keeps an agenda of what is still to be done, so that its depth is bounded by no call
stack. -/

namespace TreeLint

inductive Phase where
  | enter
  | leave
  deriving DecidableEq

structure Visit where
  phase : Phase
  cursor : Cursor

namespace Node

theorem sizeOf_lt_of_mem_nodesAmong {key : String} {items : List Tree} {i : Nat}
    {found : Place × Node} (member : found ∈ nodesAmong key i items) :
    sizeOf found.2 < sizeOf items := by
  induction items generalizing i with
  | nil => simp [nodesAmong] at member
  | cons item rest ih =>
    cases item with
    | node type fields =>
      simp only [nodesAmong, List.mem_cons] at member
      rcases member with rfl | member
      · simp only [List.cons.sizeOf_spec, Tree.node.sizeOf_spec, Node.mk.sizeOf_spec]; omega
      · have := ih member; simp only [List.cons.sizeOf_spec]; omega
    | list _ => have := ih member; simp only [List.cons.sizeOf_spec]; omega
    | value _ => have := ih member; simp only [List.cons.sizeOf_spec]; omega

theorem sizeOf_lt_of_lookup {fields : Fields} {key : String} {t : Tree}
    (found : fields.lookup key = some t) : sizeOf t < sizeOf fields := by
  induction fields with
  | nil => simp at found
  | cons field rest ih =>
    obtain ⟨k, v⟩ := field
    simp only [List.lookup_cons] at found
    split at found
    · cases found; simp only [List.cons.sizeOf_spec, Prod.mk.sizeOf_spec]; omega
    · have := ih found; simp only [List.cons.sizeOf_spec]; omega

theorem sizeOf_lt_of_mem_childrenAt {n : Node} {key : String} {found : Place × Node}
    (member : found ∈ n.childrenAt key) : sizeOf found.2 < sizeOf n := by
  obtain ⟨type, fields⟩ := n
  cases stored : fields.lookup key with
  | none => simp [childrenAt, Node.get, stored, Tree.null] at member
  | some t =>
    have smaller := sizeOf_lt_of_lookup stored
    cases t with
    | node type fields =>
      simp only [childrenAt, Node.get, stored, Option.getD_some, List.mem_singleton] at member
      subst member
      simp only [Node.mk.sizeOf_spec, Tree.node.sizeOf_spec] at *
      omega
    | list items =>
      simp only [childrenAt, Node.get, stored, Option.getD_some] at member
      have := sizeOf_lt_of_mem_nodesAmong member
      simp only [Node.mk.sizeOf_spec, Tree.list.sizeOf_spec] at *
      omega
    | value v => simp [childrenAt, Node.get, stored] at member

end Node

namespace Cursor

theorem sizeOf_lt_of_mem_children {c child : Cursor} (member : child ∈ c.children) :
    sizeOf child.node < sizeOf c.node := by
  simp only [children, List.mem_map, Node.placedChildren, List.mem_flatMap] at member
  obtain ⟨found, ⟨key, _, member⟩, rfl⟩ := member
  exact Node.sizeOf_lt_of_mem_childrenAt member

def visitCount (c : Cursor) : Nat :=
  2 + sumOver (fun ⟨child, _⟩ => child.visitCount) c.children.attach
termination_by sizeOf c.node
decreasing_by exact sizeOf_lt_of_mem_children ‹_›

/-- The walk as a recursion on the tree: a node, the walks of its children, the node again. -/
def visits (c : Cursor) : List Visit :=
  ⟨.enter, c⟩ :: (c.children.attach.flatMap fun ⟨child, _⟩ => child.visits) ++ [⟨.leave, c⟩]
termination_by sizeOf c.node
decreasing_by exact sizeOf_lt_of_mem_children ‹_›

end Cursor

namespace Visit

/-- The number of visits that an entry of the agenda stands for. -/
def weight (v : Visit) : Nat :=
  match v.phase with
  | .enter => v.cursor.visitCount
  | .leave => 1

/-- Work off the agenda; `done` holds the visits made so far, the last one first. -/
def walkFrom (agenda done : List Visit) : List Visit :=
  match agenda with
  | [] => done.reverse
  | ⟨.leave, c⟩ :: rest => walkFrom rest (⟨.leave, c⟩ :: done)
  | ⟨.enter, c⟩ :: rest =>
    walkFrom (c.children.map (⟨.enter, ·⟩) ++ ⟨.leave, c⟩ :: rest) (⟨.enter, c⟩ :: done)
termination_by sumOver weight agenda
decreasing_by
  · simp [sumOver, weight]
  · have count : c.visitCount = 2 + sumOver Cursor.visitCount c.children := by
      rw [Cursor.visitCount, ← sumOver_attach Cursor.visitCount c.children]
    have entered : sumOver weight (c.children.map (⟨.enter, ·⟩)) =
        sumOver Cursor.visitCount c.children := sumOver_map ..
    simp only [sumOver_append, entered, sumOver, weight, count]
    omega

end Visit

def Node.walk (root : Node) : List Visit := Visit.walkFrom [⟨.enter, .ofRoot root⟩] []

end TreeLint
