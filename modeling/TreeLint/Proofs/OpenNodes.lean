import Mathlib.Data.List.Induction
import TreeLint.Proofs.Address

/-! The nodes that are open in the course of a walk. A node is open from the moment it is entered
until it is left, so at every visit the open nodes are the nodes above it; what a listener keeps of
the visits before is compared with these. -/

namespace TreeLint

namespace Cursor

/-- The nodes above the end of a way, the nearest first. -/
def ancestorsOf : List Descent → List Cursor
  | [] => []
  | step :: above => ⟨step.parent, above⟩ :: ancestorsOf above

/-- The nodes above a node, the parent first. -/
def ancestors (c : Cursor) : List Cursor := ancestorsOf c.above

/-- One node is truly above another: a chain of children, with one step at least, leads down. -/
def Encloses : Cursor → Cursor → Prop :=
  Relation.TransGen fun parent child => child ∈ parent.children

variable {a c child : Cursor}

theorem above_of_mem_children (member : child ∈ c.children) :
    ∃ key indices, child.above = ⟨c.node, key, indices⟩ :: c.above := by
  obtain ⟨found, -, rfl⟩ := List.mem_map.mp member
  exact ⟨_, _, rfl⟩

theorem ancestors_of_mem_children (member : child ∈ c.children) :
    child.ancestors = c :: c.ancestors := by
  obtain ⟨key, indices, above⟩ := above_of_mem_children member
  rw [ancestors, above]
  rfl

theorem eq_of_mem_children (one : child ∈ a.children) (two : child ∈ c.children) : a = c := by
  have same := (ancestors_of_mem_children one).symm.trans (ancestors_of_mem_children two)
  exact (List.cons.inj same).1

theorem length_address_lt_of_mem (member : a ∈ c.ancestors) :
    a.address.length < c.address.length := by
  obtain ⟨node, above⟩ := c
  simp only [address, List.length_map, ancestors] at *
  induction above with
  | nil => cases member
  | cons step above ih =>
    rcases List.mem_cons.mp member with rfl | later
    · exact Nat.lt_succ_self _
    · exact Nat.lt_succ_of_lt (ih later)

theorem address_ne_of_mem (member : a ∈ c.ancestors) : a.address ≠ c.address := fun same =>
  Nat.ne_of_lt (length_address_lt_of_mem member) (congrArg List.length same)

theorem not_mem_ancestors (c : Cursor) : c ∉ c.ancestors := fun member =>
  address_ne_of_mem member rfl

/-- Of a node of a tree, the nodes above it are those from which children lead to it. -/
theorem mem_ancestors_iff {root : Node} (below : (ofRoot root).Below c) :
    a ∈ c.ancestors ↔ a.Encloses c := by
  induction below with
  | refl =>
    refine ⟨fun never => absurd never List.not_mem_nil, fun encloses => ?_⟩
    obtain ⟨parent, -, step⟩ := Relation.TransGen.tail'_iff.mp encloses
    obtain ⟨key, indices, above⟩ := above_of_mem_children step
    cases above
  | @tail parent child _ step ih =>
    have split : a.Encloses child ↔ ∃ other, a.Below other ∧ child ∈ other.children :=
      Relation.TransGen.tail'_iff
    rw [ancestors_of_mem_children step, List.mem_cons, ih, split]
    constructor
    · rintro (rfl | encloses)
      · exact ⟨a, .refl, step⟩
      · exact ⟨parent, encloses.to_reflTransGen, step⟩
    · rintro ⟨other, chain, last⟩
      obtain rfl := eq_of_mem_children last step
      exact (Relation.reflTransGen_iff_eq_or_transGen.mp chain).imp_left Eq.symm

end Cursor

namespace Visit

/-- The nodes that are open before a visit, the innermost first. -/
def openBefore (v : Visit) : List Cursor :=
  match v.phase with
  | .enter => v.cursor.ancestors
  | .leave => v.cursor :: v.cursor.ancestors

def openAfter (v : Visit) : List Cursor :=
  match v.phase with
  | .enter => v.cursor :: v.cursor.ancestors
  | .leave => v.cursor.ancestors

def entered? (v : Visit) : Option Cursor :=
  match v.phase with
  | .enter => some v.cursor
  | .leave => none

/-- Visits follow each other in a tree: each finds open what the one before it left open. -/
inductive Threads : List Cursor → List Visit → List Cursor → Prop
  | none (opened : List Cursor) : Threads opened [] opened
  | next {v : Visit} {rest : List Visit} {opened opened' : List Cursor} :
      opened = v.openBefore → Threads v.openAfter rest opened' →
      Threads opened (v :: rest) opened'

variable {opened opened' : List Cursor} {made rest : List Visit}

theorem threads_append_iff : Threads opened (made ++ rest) opened' ↔
    ∃ between, Threads opened made between ∧ Threads between rest opened' := by
  constructor
  · intro threads
    induction made generalizing opened with
    | nil => exact ⟨opened, .none opened, threads⟩
    | cons v made ih =>
      cases threads with
      | next before threads =>
        obtain ⟨between, first, second⟩ := ih threads
        exact ⟨between, .next before first, second⟩
  · rintro ⟨between, first, second⟩
    induction first with
    | none => exact second
    | next before _ ih => exact .next before (ih second)

theorem threads_flatMap {cs : List Cursor} {f : Cursor → List Visit}
    (each : ∀ c ∈ cs, Threads opened (f c) opened) : Threads opened (cs.flatMap f) opened := by
  induction cs with
  | nil => exact .none opened
  | cons c cs ih =>
    obtain ⟨here, others⟩ := List.forall_mem_cons.mp each
    exact threads_append_iff.mpr ⟨opened, here, ih others⟩

/-- The walk from a node begins and ends with the nodes above it open. -/
theorem threads_visits (c : Cursor) : Threads c.ancestors c.visits c.ancestors := by
  induction c using Cursor.childrenInduction with
  | node c ih =>
    have inside : Threads (c :: c.ancestors) (c.children.flatMap Cursor.visits)
        (c :: c.ancestors) := by
      refine threads_flatMap fun child member => ?_
      have walked := ih child member
      rwa [Cursor.ancestors_of_mem_children member] at walked
    have left : Threads (c :: c.ancestors) [⟨.leave, c⟩] c.ancestors :=
      .next rfl (.none _)
    rw [Cursor.visits_eq]
    exact .next rfl (threads_append_iff.mpr ⟨_, inside, left⟩)

theorem mem_entered_iff (c : Cursor) : c ∈ made.filterMap entered? ↔ ⟨.enter, c⟩ ∈ made := by
  rw [List.mem_filterMap]
  constructor
  · rintro ⟨⟨_ | _, d⟩, member, found⟩
    · cases found
      exact member
    · cases found
  · exact fun member => ⟨_, member, rfl⟩

/-- Nodes are those that visits have entered and not yet left, the last one entered first. -/
structure Underway (made : List Visit) (opened : List Cursor) : Prop where
  mem_iff : ∀ c, c ∈ opened ↔ ⟨.enter, c⟩ ∈ made ∧ ⟨.leave, c⟩ ∉ made
  inOrder : opened.reverse.Sublist (made.filterMap entered?)
  entered : ∀ c, ⟨.leave, c⟩ ∈ made → ⟨.enter, c⟩ ∈ made

namespace Underway

variable {c : Cursor}

theorem nil : Underway [] [] := ⟨by simp, .slnil, by simp⟩

theorem enter (underway : Underway made opened) (fresh : ⟨.enter, c⟩ ∉ made) :
    Underway (made ++ [⟨.enter, c⟩]) (c :: opened) where
  mem_iff d := by
    -- A node that is entered now was not left before, as it would have been entered before.
    have unleft : (⟨.leave, c⟩ : Visit) ∉ made := fun left => fresh (underway.entered c left)
    by_cases same : d = c
    · subst same
      simp [unleft]
    · simp [same, underway.mem_iff d]
  inOrder := by
    rw [List.reverse_cons, List.filterMap_append]
    exact underway.inOrder.append (.refl _)
  entered d left := List.mem_append_left _ (underway.entered d (by simpa using left))

theorem leave (underway : Underway made (c :: opened)) (apart : c ∉ opened) :
    Underway (made ++ [⟨.leave, c⟩]) opened where
  mem_iff d := by
    have before := underway.mem_iff d
    by_cases same : d = c
    · subst same
      simp [apart]
    · simpa [same] using before
  inOrder := by
    have fewer : opened.reverse.Sublist (c :: opened).reverse :=
      List.reverse_sublist.mpr (List.sublist_cons_self c opened)
    rw [List.filterMap_append]
    exact (fewer.trans underway.inOrder).trans (List.sublist_append_left _ _)
  entered d left := by
    refine List.mem_append_left _ ?_
    rcases List.mem_append.mp left with before | last
    · exact underway.entered d before
    · cases List.mem_singleton.mp last
      exact ((underway.mem_iff c).mp List.mem_cons_self).1

end Underway

/-- Visits that begin with no open node leave open the nodes that they have entered and not left. -/
theorem underway_of_threads (threads : Threads [] made opened) (once : made.Nodup) :
    Underway made opened := by
  induction made using List.reverseRecOn generalizing opened with
  | nil =>
    cases threads
    exact .nil
  | append_singleton made v ih =>
    obtain ⟨between, first, last⟩ := threads_append_iff.mp threads
    obtain ⟨fresh, rest⟩ := List.nodup_cons.mp (List.nodup_append_comm.mp once)
    cases last with
    | next before last =>
      cases last
      subst before
      have underway := ih first rest
      obtain ⟨phase, c⟩ := v
      cases phase with
      | enter => exact underway.enter fresh
      | leave => exact underway.leave c.not_mem_ancestors

end Visit

/-- The nodes of a tree, each one before those below it. -/
def Cursor.preorder (c : Cursor) : List Cursor := c.visits.filterMap Visit.entered?

namespace Cursor

theorem preorder_eq (c : Cursor) : c.preorder = c :: c.children.flatMap preorder := by
  have first : [(⟨.enter, c⟩ : Visit)].filterMap Visit.entered? = [c] := rfl
  have last : [(⟨.leave, c⟩ : Visit)].filterMap Visit.entered? = [] := rfl
  rw [preorder, visits_eq, ← List.singleton_append, List.append_assoc, List.filterMap_append,
    List.filterMap_append, first, last, List.append_nil, List.filterMap_flatMap]
  rfl

theorem mem_preorder_iff {c d : Cursor} : d ∈ c.preorder ↔ c.Below d := by
  rw [preorder, Visit.mem_entered_iff, mem_visits_iff]

theorem nodup_visits {c : Cursor} (distinct : c.node.toTree.Distinct) : c.visits.Nodup :=
  (visits_nodup distinct).of_map _

theorem preorder_nodup {c : Cursor} (distinct : c.node.toTree.Distinct) : c.preorder.Nodup := by
  refine (nodup_visits distinct).filterMap fun one two d first second => ?_
  obtain ⟨_ | _, _⟩ := one <;> obtain ⟨_ | _, _⟩ := two <;> simp_all [Visit.entered?]

end Cursor

end TreeLint
