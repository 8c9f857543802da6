import TreeLint.Proofs.BracedText
import TreeLint.Proofs.Disjoint

/-! Well-nested trees. Where nodes stand within their parents, and subtrees with literal texts in
braces keep apart, the braces below a node keep apart too: the node above two of them has them in
different subtrees. So the changes of one run are all made. -/

namespace TreeLint

namespace Node

/-- A node stands between two offsets. -/
def Spans (n : Node) (first last : Int) : Prop :=
  ∃ start stop : Ordinal, n.start = .ok (some start) ∧ n.stop = .ok (some stop) ∧
    start.value = first ∧ stop.value = last

/-- A node stands between the ends of another one. -/
def Inside (inner outer : Node) : Prop :=
  ∃ first last first' last', inner.Spans first last ∧ outer.Spans first' last' ∧
    first' ≤ first ∧ last ≤ last'

/-- Two nodes keep apart: one ends where the other starts, or before. -/
def Apart (one two : Node) : Prop :=
  ∃ first last first' last', one.Spans first last ∧ two.Spans first' last' ∧
    (last ≤ first' ∨ last' ≤ first)

theorem Spans.unique {n : Node} {first last first' last' : Int} (one : n.Spans first last)
    (two : n.Spans first' last') : first = first' ∧ last = last' := by
  obtain ⟨start, stop, begins, ends, rfl, rfl⟩ := one
  obtain ⟨start', stop', begins', ends', rfl, rfl⟩ := two
  rw [begins, Except.ok.injEq, Option.some.injEq] at begins'
  rw [ends, Except.ok.injEq, Option.some.injEq] at ends'
  rw [begins', ends']
  exact ⟨rfl, rfl⟩

theorem Inside.trans {inner middle outer : Node} (one : inner.Inside middle)
    (two : middle.Inside outer) : inner.Inside outer := by
  obtain ⟨a, b, c, d, here, spans, low, high⟩ := one
  obtain ⟨c', d', e, f, spans', around, low', high'⟩ := two
  obtain ⟨rfl, rfl⟩ := spans.unique spans'
  exact ⟨a, b, e, f, here, around, by omega, by omega⟩

theorem Apart.symm {one two : Node} (apart : one.Apart two) : two.Apart one := by
  obtain ⟨a, b, c, d, here, there, kept⟩ := apart
  exact ⟨c, d, a, b, there, here, kept.symm⟩

theorem Apart.of_inside {one two inner : Node} (apart : one.Apart two) (inside : inner.Inside one)
    (directed : ∃ first last, inner.Spans first last ∧ first ≤ last) : inner.Apart two := by
  obtain ⟨a, b, c, d, here, there, kept⟩ := apart
  obtain ⟨e, f, a', b', spans, around, low, high⟩ := inside
  obtain ⟨rfl, rfl⟩ := here.unique around
  obtain ⟨e', f', spans', order⟩ := directed
  obtain ⟨rfl, rfl⟩ := spans.unique spans'
  exact ⟨e, f, c, d, spans, there, by omega⟩

end Node

namespace Cursor

/-- A tree is well nested in a text of some length: every node stands within the text, and within
its parent; and of the children of a node, those that a property marks keep apart. -/
structure WellNested (marked : Cursor → Prop) (length : Nat) (root : Cursor) : Prop where
  spans : ∀ c, root.Below c → ∃ first last, c.node.Spans first last ∧
    0 ≤ first ∧ first ≤ last ∧ last ≤ length
  inside : ∀ c, root.Below c → ∀ child ∈ c.children, child.node.Inside c.node
  apart : ∀ c, root.Below c →
    c.children.Pairwise fun one two => marked one → marked two → one.node.Apart two.node

theorem WellNested.below {marked : Cursor → Prop} {length : Nat} {c d : Cursor}
    (nested : WellNested marked length c) (below : c.Below d) : WellNested marked length d where
  spans e under := nested.spans e (below.trans under)
  inside e under := nested.inside e (below.trans under)
  apart e under := nested.apart e (below.trans under)

/-- A tree is well nested if its root is and the subtrees of its children are. -/
theorem WellNested.node {marked : Cursor → Prop} {length : Nat} {c : Cursor} {first last : Int}
    (spans : c.node.Spans first last) (range : 0 ≤ first ∧ first ≤ last ∧ last ≤ length)
    (inside : ∀ child ∈ c.children, child.node.Inside c.node)
    (apart : c.children.Pairwise fun one two => marked one → marked two → one.node.Apart two.node)
    (each : ∀ child ∈ c.children, WellNested marked length child) :
    WellNested marked length c where
  spans d below := by
    rcases (below_iff c d).mp below with rfl | ⟨child, member, under⟩
    · exact ⟨first, last, spans, range⟩
    · exact (each child member).spans d under
  inside d below := by
    rcases (below_iff c d).mp below with rfl | ⟨child, member, under⟩
    · exact inside
    · exact (each child member).inside d under
  apart d below := by
    rcases (below_iff c d).mp below with rfl | ⟨child, member, under⟩
    · exact apart
    · exact (each child member).apart d under

/-- A node is the container of a literal text in braces. -/
def IsBraces (c : Cursor) : Prop :=
  ∃ (d : Cursor) (b : BracedText), d.node.Braces b ∧ c = d.descend "value" [] b.container

/-- There is a container of a literal text in braces below a node, or the node is one. -/
def HoldsBraces (c : Cursor) : Prop := ∃ d, c.Below d ∧ d.IsBraces

theorem bracedTexts_eq (c : Cursor) :
    c.bracedTexts = c.node.bracedText?.toList ++ c.children.flatMap bracedTexts := by
  have first : [(⟨.enter, c⟩ : Visit)].filterMap Visit.bracedText? =
      c.node.bracedText?.toList := by
    cases found : c.node.bracedText? <;> simp [Visit.bracedText?, found]
  have last : [(⟨.leave, c⟩ : Visit)].filterMap Visit.bracedText? = [] := rfl
  unfold bracedTexts
  rw [visits_eq, ← List.singleton_append, List.append_assoc, List.filterMap_append,
    List.filterMap_append, first, last, List.append_nil, List.filterMap_flatMap]

theorem children_of_braces {c : Cursor} {b : BracedText} (braces : c.node.Braces b) :
    ∃ names, c.children = names ++ [c.descend "value" [] b.container] := by
  have keys : c.node.childKeys = ["name", "value"] := by
    rw [Node.childKeys, braces.attr]
    rfl
  have value : c.node.childrenAt "value" = [(⟨"value", none⟩, b.container)] := by
    rw [Node.childrenAt, braces.value]
    rfl
  rw [children, Node.placedChildren, keys, List.flatMap_cons, List.flatMap_singleton, value,
    List.map_append]
  exact ⟨_, rfl⟩

theorem container_mem_children {c : Cursor} {b : BracedText} (braces : c.node.Braces b) :
    c.descend "value" [] b.container ∈ c.children := by
  obtain ⟨names, split⟩ := children_of_braces braces
  rw [split]
  exact List.mem_append_right _ (List.mem_singleton_self _)

/-- There are no braces below a container of a literal. -/
theorem bracedTexts_container {c : Cursor} {b : BracedText} (braces : c.node.Braces b) :
    (c.descend "value" [] b.container).bracedTexts = [] := by
  have other {n : Node} (differs : n.type ≠ "JSXAttribute") : n.bracedText? = none := by
    refine Option.eq_none_iff_forall_ne_some.mpr fun found same => ?_
    exact differs (Node.bracedText?_eq_some_iff.mp same).attr
  have container : b.container.bracedText? = none := by
    refine other ?_
    rw [braces.container]
    decide
  have literal : b.literal.bracedText? = none := by
    refine other ?_
    rw [braces.literal]
    decide
  have inside : b.container.placedChildren = [(⟨"expression", none⟩, b.literal)] := by
    have keys : b.container.childKeys = ["expression"] := by
      rw [Node.childKeys, braces.container]
      rfl
    rw [Node.placedChildren, keys, List.flatMap_singleton, Node.childrenAt, braces.expression]
    rfl
  have leaf : b.literal.placedChildren = [] := by
    have keys : b.literal.childKeys = [] := by
      rw [Node.childKeys, braces.literal]
      rfl
    rw [Node.placedChildren, keys, List.flatMap_nil]
  rw [bracedTexts_eq, children]
  simp only [descend, container, inside, List.map_cons, List.map_nil, List.flatMap_cons,
    List.flatMap_nil, Option.toList_none, List.nil_append, List.append_nil]
  rw [bracedTexts_eq, children, leaf, literal]
  rfl

/-- Every literal text in braces below a node has its container below the node. -/
theorem container_of_mem_bracedTexts {c : Cursor} {b : BracedText} (member : b ∈ c.bracedTexts) :
    ∃ d, c.Below d ∧ d.IsBraces ∧ d.node = b.container := by
  obtain ⟨⟨phase, d⟩, visited, found⟩ := List.mem_filterMap.mp member
  cases phase with
  | leave => cases found
  | enter =>
    have braces : d.node.Braces b := Node.bracedText?_eq_some_iff.mp found
    have below : c.Below d := (mem_visits_iff c _).mp visited
    exact ⟨d.descend "value" [] b.container, below.tail (container_mem_children braces),
      ⟨d, b, braces, rfl⟩, rfl⟩

theorem WellNested.inside_of_below {marked : Cursor → Prop} {length : Nat} {c d : Cursor}
    (nested : WellNested marked length c) (below : c.Below d) : d.node.Inside c.node := by
  induction below with
  | refl =>
    obtain ⟨first, last, spans, -⟩ := nested.spans c .refl
    exact ⟨first, last, first, last, spans, spans, Int.le_refl _, Int.le_refl _⟩
  | tail above step ih => exact (nested.inside _ above _ step).trans ih

theorem holdsBraces_of_mem {c : Cursor} {b : BracedText} (member : b ∈ c.bracedTexts) :
    c.HoldsBraces := by
  obtain ⟨d, below, braces, -⟩ := container_of_mem_bracedTexts member
  exact ⟨d, below, braces⟩

theorem WellNested.container_inside {marked : Cursor → Prop} {length : Nat} {c : Cursor}
    {b : BracedText} (nested : WellNested marked length c) (member : b ∈ c.bracedTexts) :
    b.container.Inside c.node ∧ ∃ first last, b.container.Spans first last ∧
      0 ≤ first ∧ first ≤ last ∧ last ≤ length := by
  obtain ⟨d, below, -, same⟩ := container_of_mem_bracedTexts member
  rw [← same]
  exact ⟨nested.inside_of_below below, nested.spans d below⟩

/-- In a well-nested tree braces keep apart. -/
theorem WellNested.bracedTexts_apart {length : Nat} {c : Cursor}
    (nested : WellNested HoldsBraces length c) :
    c.bracedTexts.Pairwise fun one two => one.container.Apart two.container := by
  induction c using childrenInduction with
  | node c ih =>
    have under (child : Cursor) (member : child ∈ c.children) :
        WellNested HoldsBraces length child := nested.below (.single member)
    have siblings := nested.apart c .refl
    -- Braces in different subtrees are apart as these are.
    have across {one two : Cursor} {b b' : BracedText} (first : one ∈ c.children)
        (second : two ∈ c.children) (here : b ∈ one.bracedTexts) (there : b' ∈ two.bracedTexts)
        (apart : one.node.Apart two.node) : b.container.Apart b'.container := by
      obtain ⟨within, low, high, spans, -, directed, -⟩ := (under one first).container_inside here
      have half := apart.of_inside within ⟨low, high, spans, directed⟩
      obtain ⟨within, low, high, spans, -, directed, -⟩ := (under two second).container_inside there
      exact (half.symm.of_inside within ⟨low, high, spans, directed⟩).symm
    have inside : (c.children.flatMap bracedTexts).Pairwise
        fun one two => one.container.Apart two.container := by
      rw [List.pairwise_flatMap]
      refine ⟨fun child member => ih child member (under child member), ?_⟩
      refine siblings.imp_of_mem fun {one two} first second apart b here b' there => ?_
      exact across first second here there
        (apart (holdsBraces_of_mem here) (holdsBraces_of_mem there))
    rw [bracedTexts_eq]
    cases found : c.node.bracedText? with
    | none => exact inside
    | some b =>
      have braces := Node.bracedText?_eq_some_iff.mp found
      obtain ⟨names, split⟩ := children_of_braces braces
      refine List.pairwise_cons.mpr ⟨fun other member => ?_, inside⟩
      obtain ⟨child, among, there⟩ := List.mem_flatMap.mp member
      rw [split] at among siblings
      rcases List.mem_append.mp among with named | last
      · have apart := (List.pairwise_append.mp siblings).2.2 child named _
          (List.mem_singleton_self _) (holdsBraces_of_mem there) ⟨_, .refl, c, b, braces, rfl⟩
        have member : child ∈ c.children := split ▸ among
        obtain ⟨within, low, high, spans, -, directed, -⟩ :=
          (under child member).container_inside there
        exact (apart.of_inside within ⟨low, high, spans, directed⟩).symm
      · rw [List.mem_singleton.mp last, bracedTexts_container braces] at there
        cases there

end Cursor

/-- A change puts a literal in the place of its container. -/
def BracedText.ReplacedBy (half? : Char → Option Nat) (b : BracedText) (f : Fix) : Prop :=
  b.container.Spans f.start.value f.stop.value ∧ f.text = b.source half?

variable {half? : Char → Option Nat}

theorem BracedText.replacedBy_of_offers {b : BracedText} {v : Violation} {first last : Int}
    (offers : Rules.CurlyText.Offers half? b v) (spans : b.container.Spans first last) :
    ∃ f, v.fix = some f ∧ b.ReplacedBy half? f := by
  obtain ⟨start, stop, begins, ends, rfl, rfl⟩ := spans
  unfold Rules.CurlyText.Offers Fix.replacing at offers
  rw [begins, ends] at offers
  refine ⟨⟨start, stop, b.source half?⟩, (Except.ok.inj offers).symm, ?_, rfl⟩
  exact ⟨start, stop, begins, ends, rfl, rfl⟩

theorem BracedText.replacedBy_of_offers_all {braces : List BracedText} {reports : List Violation}
    (offers : List.Forall₂ (Rules.CurlyText.Offers half?) braces reports)
    (spans : ∀ b ∈ braces, ∃ first last, b.container.Spans first last) :
    List.Forall₂ (ReplacedBy half?) braces (reports.filterMap Violation.fix) := by
  induction offers with
  | nil => exact .nil
  | cons offer _ ih =>
    obtain ⟨⟨first, last, here⟩, others⟩ := List.forall_mem_cons.mp spans
    obtain ⟨f, held, replaced⟩ := replacedBy_of_offers offer here
    rw [List.filterMap_cons_some held]
    exact .cons replaced (ih others)

theorem BracedText.ReplacedBy.apart {b b' : BracedText} {f f' : Fix} (one : b.ReplacedBy half? f)
    (two : b'.ReplacedBy half? f') (apart : b.container.Apart b'.container) : f.Apart f' := by
  obtain ⟨first, last, first', last', here, there, kept⟩ := apart
  obtain ⟨rfl, rfl⟩ := here.unique one.1
  obtain ⟨rfl, rfl⟩ := there.unique two.1
  exact kept

/-- Changes keep apart as the containers do that they replace. -/
theorem BracedText.apart_of_replacedBy {braces : List BracedText} {fixes : List Fix}
    (replaced : List.Forall₂ (ReplacedBy half?) braces fixes)
    (apart : braces.Pairwise fun one two => one.container.Apart two.container) :
    fixes.Pairwise Fix.Apart := by
  induction replaced with
  | nil => exact .nil
  | @cons b f _ _ here others ih =>
    rw [List.pairwise_cons] at apart
    refine List.pairwise_cons.mpr ⟨fun f' member => ?_, ih apart.2⟩
    obtain ⟨b', among, there⟩ := exists_of_forall₂ others member
    exact here.apart there (apart.1 b' among)

namespace Lint
open Rules

/-- In a well-nested tree all braces of literal texts are mended in one go: no change is left out,
there is one change for each, and the text afterwards is the text before with each container
replaced by its literal. -/
theorem braces_mended [Host] {config : Configuration} {file : ParsedFile}
    {cwd : Option String} {result : LintResult} {setting : RuleSetting}
    (nested : (Cursor.ofRoot file.source.root).WellNested Cursor.HoldsBraces
      file.source.text.length)
    (enabled : (CurlyText.rule, setting) ∈ config.enabledRules)
    (heeded : (contextFor file cwd CurlyText.rule setting).isIgnored = .ok false)
    (ran : run config file cwd = .ok result) :
    let braces := (Cursor.ofRoot file.source.root).bracedTexts
    let outcome := Fixing.apply Violation.fix file.source.text result.violations
    outcome.skipped = [] ∧ outcome.applied.length = braces.length ∧
      ∃ changes fixes, List.Forall₂ (BracedText.ReplacedBy Host.half?) braces fixes ∧
        changes.Perm fixes ∧
        Mends 0 file.source.text changes outcome.text := by
  intro braces outcome
  obtain ⟨reports, offers, same⟩ := offers_of_run enabled heeded ran
  have replaced : List.Forall₂ (BracedText.ReplacedBy Host.half?) braces
      (reports.filterMap Violation.fix) := by
    refine BracedText.replacedBy_of_offers_all offers fun b member => ?_
    obtain ⟨-, first, last, spans, -⟩ := nested.container_inside member
    exact ⟨first, last, spans⟩
  have apart := BracedText.apart_of_replacedBy replaced nested.bracedTexts_apart
  have within : ∀ f ∈ reports.filterMap Violation.fix, f.Within file.source.text.length := by
    intro f member
    obtain ⟨b, among, spans, -⟩ := exists_of_forall₂ replaced member
    obtain ⟨-, first, last, spans', low, directed, high⟩ := nested.container_inside among
    obtain ⟨rfl, rfl⟩ := spans.unique spans'
    exact ⟨low, directed, high⟩
  obtain ⟨skipped, made⟩ := Fixing.apply_of_apart ((same.pairwise_iff Fix.Apart.symm).mpr apart)
    fun f member => within f (same.subset member)
  have count : outcome.applied.length = braces.length := by
    rw [← Fixing.length_changes, made.length_eq, same.length_eq, replaced.length_eq]
  exact ⟨skipped, count, _, _, replaced, made.trans same, Fixing.apply_mends ..⟩

/-- The container of a literal, which stand between the same offsets. -/
def bracesAt (first last : Int) : Node :=
  ⟨"JSXExpressionContainer", [("range", .value (.list [.int first, .int last])),
    ("expression", .node "Literal" [("range", .value (.list [.int first, .int last])),
      ("value", .value (.str "x")), ("raw", .value (.str "'x'"))])]⟩

/-- A file that is an attribute with an attribute for its name; both have braces. -/
def doubleFile (a b c d : Int) : ParsedFile where
  filename := some "a.tsx"
  source := ⟨"0123456789ab".toList, ⟨"JSXAttribute", [("range", .value (.list [.int 0, .int 12])),
    ("name", .node "JSXAttribute" [("range", .value (.list [.int a, .int b])),
      ("value", (bracesAt a b).toTree)]),
    ("value", (bracesAt c d).toTree)]⟩, []⟩
  sourcePath := none

theorem bracesAt_nested (marked : Cursor → Prop) {above : List Descent} {first last : Int}
    (range : 0 ≤ first ∧ first ≤ last ∧ last ≤ 12) :
    Cursor.WellNested marked 12 ⟨bracesAt first last, above⟩ := by
  have spans : (bracesAt first last).Spans first last :=
    ⟨.int first, .int last, rfl, rfl, rfl, rfl⟩
  refine .node spans range ?_ (List.pairwise_singleton _ _) ?_
  · refine List.forall_mem_singleton.mpr ⟨first, last, first, last, ?_, spans, by omega, by omega⟩
    exact ⟨.int first, .int last, rfl, rfl, rfl, rfl⟩
  · refine List.forall_mem_singleton.mpr (.node ?_ range ?_ .nil ?_)
    · exact ⟨.int first, .int last, rfl, rfl, rfl, rfl⟩
    · exact List.forall_mem_nil _
    · exact List.forall_mem_nil _

theorem doubleFile_nested (marked : Cursor → Prop) {a b c d : Int} (name : 0 ≤ a ∧ a ≤ b ∧ b ≤ 12)
    (value : 0 ≤ c ∧ c ≤ d ∧ d ≤ 12)
    (apart : ∀ above, marked ⟨bracesAt c d, above⟩ → b ≤ c ∨ d ≤ a) :
    Cursor.WellNested marked (doubleFile a b c d).source.text.length
      (.ofRoot (doubleFile a b c d).source.root) := by
  have long : (doubleFile a b c d).source.text.length = 12 := by rfl
  have root : (doubleFile a b c d).source.root.Spans 0 12 :=
    ⟨.int 0, .int 12, rfl, rfl, rfl, rfl⟩
  have spans (type : String) (rest : Fields) (first last : Int) :
      (⟨type, ("range", .value (.list [.int first, .int last])) :: rest⟩ : Node).Spans first last :=
    ⟨.int first, .int last, rfl, rfl, rfl, rfl⟩
  rw [long]
  refine .node root (by decide) ?_ ?_ ?_
  · refine List.forall_mem_cons.mpr ⟨?_, List.forall_mem_singleton.mpr ?_⟩
    · exact ⟨a, b, 0, 12, spans .., root, name.1, name.2.2⟩
    · exact ⟨c, d, 0, 12, spans .., root, value.1, value.2.2⟩
  · refine List.pairwise_pair.mpr fun _ marks => ?_
    exact ⟨a, b, c, d, spans .., spans .., apart _ marks⟩
  · refine List.forall_mem_cons.mpr ⟨?_, List.forall_mem_singleton.mpr (bracesAt_nested _ value)⟩
    refine .node (spans ..) name ?_ (List.pairwise_singleton _ _) ?_
    · refine List.forall_mem_singleton.mpr ⟨a, b, a, b, spans .., spans .., by omega, by omega⟩
    · exact List.forall_mem_singleton.mpr (bracesAt_nested _ name)

def bracedAt (first last : Int) : BracedText :=
  ⟨bracesAt first last, ⟨"Literal", [("range", .value (.list [.int first, .int last])),
    ("value", .value (.str "x")), ("raw", .value (.str "'x'"))]⟩, "x"⟩

theorem doubleFile_bracedTexts (a b c d : Int) :
    (Cursor.ofRoot (doubleFile a b c d).source.root).bracedTexts =
      [bracedAt c d, bracedAt a b] := by
  let root := Cursor.ofRoot (doubleFile a b c d).source.root
  let name := root.descend "name" [] ⟨"JSXAttribute",
    [("range", .value (.list [.int a, .int b])), ("value", (bracesAt a b).toTree)]⟩
  have outer : root.node.Braces (bracedAt c d) := ⟨rfl, rfl, rfl, rfl, rfl, rfl⟩
  have inner : name.node.Braces (bracedAt a b) := ⟨rfl, rfl, rfl, rfl, rfl, rfl⟩
  have below : root.children = [name, root.descend "value" [] (bracesAt c d)] := rfl
  have under : name.children = [name.descend "value" [] (bracesAt a b)] := rfl
  have leaf := Cursor.bracedTexts_container outer
  have leaf' := Cursor.bracedTexts_container inner
  change root.bracedTexts = _
  rw [Cursor.bracedTexts_eq, Node.bracedText?_eq_some_iff.mpr outer, below, List.flatMap_cons,
    List.flatMap_singleton, Cursor.bracedTexts_eq name, Node.bracedText?_eq_some_iff.mpr inner,
    under, List.flatMap_singleton]
  change _ ++ (_ ++ (name.descend "value" [] (bracedAt a b).container).bracedTexts ++
    (root.descend "value" [] (bracedAt c d).container).bracedTexts) = _
  rw [leaf, leaf']
  rfl

attribute [local instance] Host.usual in
/-- Braces that touch are both mended. -/
theorem braces_mended_touching : ∃ result, run curlyOnly (doubleFile 0 4 4 8) none = .ok result ∧
    let braces := (Cursor.ofRoot (doubleFile 0 4 4 8).source.root).bracedTexts
    let outcome := Fixing.apply Violation.fix (doubleFile 0 4 4 8).source.text result.violations
    outcome.skipped = [] ∧ outcome.applied.length = braces.length ∧
      ∃ changes fixes, List.Forall₂ (BracedText.ReplacedBy Host.half?) braces fixes ∧
        changes.Perm fixes ∧
        Mends 0 (doubleFile 0 4 4 8).source.text changes outcome.text := by
  have gives : (run curlyOnly (doubleFile 0 4 4 8) none).toOption.isSome = true := by
    decide +kernel
  obtain ⟨result, ran⟩ := exists_ok_of_isSome gives
  have enabled : (CurlyText.rule, ⟨.warn, []⟩) ∈ curlyOnly.enabledRules := by
    rw [curlyOnly_enabled]
    exact List.mem_singleton_self _
  refine ⟨result, ran, braces_mended ?_ enabled ?_ ran⟩
  · exact doubleFile_nested _ (by decide) (by decide) fun _ _ => .inl (by decide)
  · rfl

/-- There is an attribute below a node, or the node is one. -/
def HoldsAttribute (c : Cursor) : Prop := ∃ d, c.Below d ∧ d.node.type = "JSXAttribute"

theorem bracesAt_holds_none {above : List Descent} {first last : Int} :
    ¬ HoldsAttribute ⟨bracesAt first last, above⟩ := by
  rintro ⟨d, below, attr⟩
  rcases (Cursor.below_iff _ _).mp below with rfl | ⟨child, member, under⟩
  · have other : "JSXExpressionContainer" ≠ "JSXAttribute" := by decide
    exact other attr
  · obtain rfl := List.mem_singleton.mp member
    rcases (Cursor.below_iff _ _).mp under with rfl | ⟨child, member, -⟩
    · have other : "Literal" ≠ "JSXAttribute" := by decide
      exact other attr
    · cases member

attribute [local instance] Host.usual in
/-- Where subtrees with attributes keep apart, a change is still left out if the name of an
attribute has braces that overlap those of the value. -/
theorem braces_left_out :
    ¬ ∀ (config : Configuration) (file : ParsedFile) (cwd : Option String)
      (result : LintResult) (setting : RuleSetting),
      (Cursor.ofRoot file.source.root).WellNested HoldsAttribute file.source.text.length →
      (CurlyText.rule, setting) ∈ config.enabledRules →
      (contextFor file cwd CurlyText.rule setting).isIgnored = .ok false →
      run config file cwd = .ok result →
      let braces := (Cursor.ofRoot file.source.root).bracedTexts
      let outcome := Fixing.apply Violation.fix file.source.text result.violations
      outcome.skipped = [] ∧ outcome.applied.length = braces.length ∧
        ∃ changes fixes, List.Forall₂ (BracedText.ReplacedBy Host.half?) braces fixes ∧
          changes.Perm fixes ∧
          Mends 0 file.source.text changes outcome.text := by
  intro claim
  have gives : (run curlyOnly (doubleFile 3 5 2 8) none).toOption.isSome = true := by
    decide +kernel
  obtain ⟨result, ran⟩ := exists_ok_of_isSome gives
  have nested := doubleFile_nested HoldsAttribute (a := 3) (b := 5) (c := 2) (d := 8) (by decide)
    (by decide) fun _ holds => absurd holds bracesAt_holds_none
  obtain ⟨-, -, changes, fixes, replaced, same, mends⟩ := claim curlyOnly
    (doubleFile 3 5 2 8) none result ⟨.warn, []⟩ nested
    (by rw [curlyOnly_enabled]; exact List.mem_singleton_self _) (by rfl) ran
  have apart := (same.pairwise_iff Fix.Apart.symm).mp mends.apart
  rw [doubleFile_bracedTexts] at replaced
  cases replaced with
  | @cons _ f _ _ first replaced =>
    cases replaced with
    | @cons _ g _ _ second _ =>
      have spans (first last : Int) : (bracesAt first last).Spans first last :=
        ⟨.int first, .int last, rfl, rfl, rfl, rfl⟩
      have kept := (List.pairwise_cons.mp apart).1 g List.mem_cons_self
      obtain ⟨begins, ends⟩ := (spans 2 8).unique first.1
      obtain ⟨begins', ends'⟩ := (spans 3 5).unique second.1
      unfold Fix.Apart at kept
      omega

end Lint

end TreeLint
