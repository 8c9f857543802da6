import TreeLint.Proofs.Address
import TreeLint.Proofs.Reporting
import TreeLint.Proofs.TreeShape
import TreeLint.Shape.Component
import TreeLint.Shape.Doc

/-! Readings that succeed. On a tree of the shape that the grammars give it, every question about
the shape of a node has an answer, and what the answer leads to is again of that shape. -/

namespace TreeLint

variable {α β : Type}

/-- A reading succeeds, and its result has a property. -/
def Gives (P : α → Prop) (x : Read α) : Prop := ∃ a, x = .ok a ∧ P a

theorem gives_ok {P : α → Prop} {a : α} (holds : P a) : Gives P (.ok a : Read α) := ⟨a, rfl, holds⟩

theorem gives_bind {P : α → Prop} {Q : β → Prop} {x : Read α} {f : α → Read β} (first : Gives P x)
    (second : ∀ a, P a → Gives Q (f a)) : Gives Q (x >>= f) := by
  obtain ⟨a, rfl, holds⟩ := first
  exact second a holds

theorem Gives.imp {P Q : α → Prop} {x : Read α} (gives : Gives P x) (weaker : ∀ a, P a → Q a) :
    Gives Q x := by
  obtain ⟨a, read, holds⟩ := gives
  exact ⟨a, read, weaker a holds⟩

namespace Value

theorem checkItems_ok {items : List Value} {height : Nat}
    (each : ∀ item ∈ items, item.checkWritable height = .ok ()) :
    checkItems items height = .ok () := by
  induction items with
  | nil => rfl
  | cons item rest ih =>
    obtain ⟨here, others⟩ := List.forall_mem_cons.mp each
    unfold checkItems
    rw [here]
    exact ih others

theorem checkMembers_ok {members : Members} {height : Nat}
    (each : ∀ member ∈ members, member.2.checkWritable height = .ok ()) :
    checkMembers members height = .ok () := by
  induction members with
  | nil => rfl
  | cons member rest ih =>
    obtain ⟨here, others⟩ := List.forall_mem_cons.mp each
    unfold checkMembers
    rw [here]
    exact ih others

/-- A value can be shown if it is not higher than the levels that there are. -/
theorem Within.checkWritable {height : Nat} {v : Value} (within : v.Within height) :
    v.checkWritable height = .ok () := by
  induction within with
  | null | bool | float | str => rfl
  | @int height n small =>
    have writable : Text.isWritable n = true := decide_eq_true small
    unfold Value.checkWritable
    rw [if_pos writable]
  | list _ ih => exact checkItems_ok ih
  | object _ ih => exact checkMembers_ok ih

section

variable [Host]

theorem gives_shown {levels : Nat} {v : Value} (within : v.Within levels) :
    Gives (fun _ => True) (v.shown levels) := by
  have writable : Gives (fun _ => True) (v.checkWritable levels) :=
    ⟨(), within.checkWritable, trivial⟩
  exact gives_bind writable fun _ _ => gives_ok trivial

theorem gives_shownPlain {levels : Nat} {v : Value} (within : v.Within levels) :
    Gives (fun _ => True) (v.shownPlain levels) := by
  have writable : Gives (fun _ => True) (v.checkWritable levels) :=
    ⟨(), within.checkWritable, trivial⟩
  exact gives_bind writable fun _ _ => gives_ok trivial

end

end Value

variable [Host]

/-- All of a tree is as the grammars have it. -/
abbrev Tree.Sound (t : Tree) : Prop := t.Everywhere fun n => n.Shaped ∧ n.TextWithin

/-- A node and all below it are as the grammars have them. -/
abbrev Node.Sound (n : Node) : Prop := n.toTree.Sound

namespace Node

variable {n : Node}

theorem Sound.shaped (sound : n.Sound) : n.Shaped := by
  cases sound with
  | node here _ => exact here.1

theorem Sound.textWithin (sound : n.Sound) : n.TextWithin := by
  cases sound with
  | node here _ => exact here.2

theorem Sound.get (sound : n.Sound) (key : String) : (n.get key).Sound := by
  cases sound with
  | node _ inside => exact inside key

theorem Sound.gives_start (sound : n.Sound) : Gives (fun _ => True) n.start := by
  unfold start
  split
  · rename_i first second pair
    obtain ⟨a, b, rfl, rfl⟩ := sound.shaped.range first second pair
    exact gives_ok trivial
  · split
    · exact gives_ok trivial
    · exact gives_ok trivial

theorem Sound.gives_stop (sound : n.Sound) : Gives (fun _ => True) n.stop := by
  unfold stop
  split
  · rename_i first second pair
    obtain ⟨a, b, rfl, rfl⟩ := sound.shaped.range first second pair
    exact gives_ok trivial
  · split
    · exact gives_ok trivial
    · exact gives_ok trivial

theorem Sound.gives_written (sound : n.Sound)
    (places : ∀ o, n.start = .ok (some o) → o.toValue.Within 1) :
    Gives (fun _ => True) (n.written ‹Host›) := by
  have low : Gives (fun start => (start.elim Value.null Ordinal.toValue).Within 1) n.start := by
    obtain ⟨start, read, -⟩ := sound.gives_start
    refine ⟨start, read, ?_⟩
    cases start with
    | none => exact .null 0
    | some o => exact places o read
  exact gives_bind low fun _ low => gives_bind (Value.gives_shown low) fun _ _ => gives_ok trivial

end Node

namespace Tree

/-- A place holds a sound node, or nothing. -/
def Place (t : Tree) : Prop := t.IsNodeOrNone ∧ t.Sound

def Nodes (items : List Tree) : Prop := ∀ item ∈ items, ∃ n : Node, item = n.toTree ∧ n.Sound

theorem gives_asNode? {t : Tree} (place : t.Place) :
    Gives (fun found => ∀ n, found = some n → t = n.toTree ∧ n.Sound) t.asNode? := by
  obtain ⟨rfl | ⟨n, rfl⟩, sound⟩ := place
  · exact gives_ok fun n found => by cases found
  · refine gives_ok fun m found => ?_
    cases found
    exact ⟨rfl, sound⟩

/-- What is asked of the node at a sound place has an answer if it has one without a node, and at
any sound node. -/
theorem gives_at {Q : β → Prop} {t : Tree} {f : Option Node → Read β} (place : t.Place)
    (absent : Gives Q (f none)) (held : ∀ n : Node, n.Sound → Gives Q (f (some n))) :
    Gives Q (t.asNode? >>= f) := by
  refine gives_bind (gives_asNode? place) fun found given => ?_
  cases found with
  | none => exact absent
  | some n =>
    obtain ⟨-, sound⟩ := given n rfl
    exact held n sound

omit [Host] in
theorem gives_node {Q : β → Prop} {n : Node} {f : Node → Read β} (held : Gives Q (f n)) :
    Gives Q (n.toTree.asNode >>= f) := held

theorem nodes_of_areNodes {items : List Tree} (sound : (Tree.list items).Sound)
    (nodes : AreNodes items) : Nodes items := by
  intro item member
  cases sound with
  | list inside =>
    obtain ⟨n, rfl⟩ := nodes item member
    exact ⟨n, rfl, inside _ member⟩

theorem gives_items {t : Tree} (sound : t.Sound) (nodes : t.AreNodesOrNone) :
    Gives Nodes t.items := by
  obtain rfl | ⟨items, rfl, each⟩ := nodes
  · exact gives_ok (List.forall_mem_nil _)
  · exact gives_ok (nodes_of_areNodes sound each)

mutual

/-- A tree can be written if the values in it are not too high. -/
theorem gives_written {t : Tree} {levels : Nat} (sound : t.Sound) (within : t.Within levels) :
    Gives (fun _ => True) (t.written ‹Host› levels) := by
  cases within with
  | value within =>
    unfold written
    exact Value.gives_shown within
  | node room places =>
    unfold written
    rw [if_neg (Nat.not_lt.mpr room)]
    exact Node.Sound.gives_written sound places
  | list each =>
    cases sound with
    | list inside =>
      unfold written
      exact gives_bind (gives_writtenItems inside each) fun _ _ => gives_ok trivial

theorem gives_writtenItems {items : List Tree} {levels : Nat}
    (sound : ∀ item ∈ items, item.Sound) (within : ∀ item ∈ items, item.Within levels) :
    Gives (fun _ => True) (writtenItems ‹Host› items levels) := by
  cases items with
  | nil =>
    unfold writtenItems
    exact gives_ok trivial
  | cons item rest =>
    obtain ⟨here, others⟩ := List.forall_mem_cons.mp sound
    obtain ⟨low, more⟩ := List.forall_mem_cons.mp within
    unfold writtenItems
    refine gives_bind (gives_written here low) fun _ _ => ?_
    exact gives_bind (gives_writtenItems others more) fun _ _ => gives_ok trivial

end

theorem gives_plain {t : Tree} {levels : Nat} (sound : t.Sound) (within : t.Within levels) :
    Gives (fun _ => True) (t.plain ‹Host› levels) := by
  cases t with
  | value v =>
    cases within with
    | value within => exact Value.gives_shownPlain within
  | node type fields => exact gives_written sound within
  | list items => exact gives_written sound within

end Tree

namespace Node

variable {n : Node}

theorem Sound.place (sound : n.Sound) {key : String} (known : (n.type, key) ∈ nodeFields) :
    (n.get key).Place :=
  ⟨sound.shaped.nodes key known, sound.get key⟩

theorem Sound.naming (sound : n.Sound) {key : String} (known : key ∈ namingFields) :
    (n.get key).Place :=
  ⟨sound.shaped.naming key known, sound.get key⟩

theorem Sound.gives_items (sound : n.Sound) (key : String) (known : (n.type, key) ∈ listFields) :
    Gives Tree.Nodes (n.get key).items :=
  Tree.gives_items (sound.get key) (sound.shaped.lists key known)

end Node

namespace Shape
open TreeLint.Tree

theorem gives_identifierName {t : Tree} (place : t.Place) :
    Gives (fun _ => True) (identifierName t) :=
  gives_bind (gives_asNode? place) fun _ _ => gives_ok trivial

theorem gives_literalText {t : Tree} (place : t.Place) : Gives (fun _ => True) (literalText t) := by
  exact gives_at place (gives_ok trivial) fun _ _ => gives_ok trivial

omit [Host] in
theorem gives_quasiText {key : String} (n : Node) :
    Gives (fun _ => True) (quasiText key n.toTree) := by
  unfold quasiText
  refine gives_bind (P := fun _ => True) (gives_ok trivial) fun part _ => ?_
  split
  · exact gives_ok trivial
  · exact gives_ok trivial

theorem gives_quasiTexts {key : String} {items : List Tree} (nodes : Nodes items) :
    Gives (fun _ => True) (items.mapM (quasiText key)) := by
  induction items with
  | nil => exact gives_ok trivial
  | cons item rest ih =>
    obtain ⟨⟨n, rfl, -⟩, others⟩ := List.forall_mem_cons.mp nodes
    rw [List.mapM_cons]
    refine gives_bind (gives_quasiText n) fun _ _ => ?_
    exact gives_bind (ih others) fun _ _ => gives_ok trivial

theorem gives_templateText {n : Node} (sound : n.Sound) (template : n.type = "TemplateLiteral")
    (key : String) : Gives (fun _ => True) (templateText n key) := by
  refine gives_bind (sound.gives_items "quasis" (by rw [template]; decide)) fun items nodes => ?_
  exact gives_bind (gives_quasiTexts nodes) fun _ _ => gives_ok trivial

theorem gives_elementTag {opening : Node} (sound : opening.Sound)
    (isOpening : opening.type = "JSXOpeningElement") :
    Gives (fun _ => True) (elementTag opening) := by
  have name : (opening.get "name").Place := sound.place (by rw [isOpening]; decide)
  exact gives_at name (gives_ok trivial) fun _ _ => gives_ok trivial

/-- The name of an attribute is read; what has a name is an attribute. -/
theorem gives_attributeName {attr : Node} (sound : attr.Sound) :
    Gives (fun name => name ≠ none → attr.type = "JSXAttribute") (attributeName attr) := by
  unfold attributeName
  by_cases isAttribute : attr.type = "JSXAttribute"
  · rw [if_neg (by simp [isAttribute])]
    have name : (attr.get "name").Place := sound.place (by rw [isAttribute]; decide)
    exact (gives_identifierName name).imp fun _ _ _ => isAttribute
  · rw [if_pos (by simpa using isAttribute)]
    exact gives_ok fun named => absurd rfl named

theorem gives_attributeAmong {name : String} {items : List Tree} (nodes : Nodes items) :
    Gives (fun found => ∀ attr, found = some attr → attr.Sound ∧ attr.type = "JSXAttribute")
      (attributeAmong name items) := by
  induction items with
  | nil => exact gives_ok fun attr found => by cases found
  | cons item rest ih =>
    obtain ⟨⟨attr, rfl, sound⟩, others⟩ := List.forall_mem_cons.mp nodes
    unfold attributeAmong
    refine gives_node ?_
    refine gives_bind (gives_attributeName sound) fun given named => ?_
    by_cases here : given = some name
    · rw [if_pos here]
      refine gives_ok fun attr found => ?_
      cases found
      exact ⟨sound, named (by rw [here]; exact Option.some_ne_none name)⟩
    · rw [if_neg here]
      exact ih others

theorem gives_findAttribute {opening : Node} (sound : opening.Sound)
    (isOpening : opening.type = "JSXOpeningElement") (name : String) :
    Gives (fun found => ∀ attr, found = some attr → attr.Sound ∧ attr.type = "JSXAttribute")
      (findAttribute opening name) :=
  gives_bind (sound.gives_items "attributes" (by rw [isOpening]; decide)) fun _ nodes =>
    gives_attributeAmong nodes

theorem gives_isMeaningful {child : Node} (sound : child.Sound) :
    Gives (fun _ => True) (isMeaningful ‹Host› child) := by
  unfold isMeaningful
  split
  · rename_i isText
    have text := sound.textWithin (by simpa using isText)
    dsimp only
    split
    · exact gives_bind (gives_plain (sound.get "value") text) fun _ _ => gives_ok trivial
    · exact gives_ok trivial
  · split
    · rename_i container
      have inside : (child.get "expression").Place := by
        refine sound.place ?_
        rw [show child.type = "JSXExpressionContainer" by simpa using container]
        decide
      exact gives_at inside (gives_ok trivial) fun _ _ => gives_ok trivial
    · exact gives_ok trivial

theorem gives_meaningful {items : List Tree} (nodes : Nodes items) :
    Gives (fun _ => True) (meaningful ‹Host› items) := by
  induction items with
  | nil => exact gives_ok trivial
  | cons item rest ih =>
    obtain ⟨⟨child, rfl, sound⟩, others⟩ := List.forall_mem_cons.mp nodes
    unfold meaningful
    refine gives_node ?_
    refine gives_bind (gives_isMeaningful sound) fun rendered _ => ?_
    split
    · exact gives_bind (ih others) fun _ _ => gives_ok trivial
    · exact ih others

theorem gives_wrapsSingleChild {n : Node} (sound : n.Sound)
    (known : (n.type, "children") ∈ Node.listFields) :
    Gives (fun _ => True) (wrapsSingleChild ‹Host› n) := by
  have children : Gives (fun _ => True) (meaningfulChildren ‹Host› n) :=
    gives_bind (sound.gives_items "children" known) fun _ nodes => gives_meaningful nodes
  refine gives_bind children fun rendered _ => ?_
  split
  · exact gives_ok trivial
  · exact gives_ok trivial

theorem gives_isFragmentElement {n : Node} (sound : n.Sound) (element : n.type = "JSXElement") :
    Gives (fun _ => True) (isFragmentElement n) := by
  have place : (n.get "openingElement").Place := sound.place (by rw [element]; decide)
  refine gives_bind (gives_asNode? place) fun found given => ?_
  cases found with
  | none => exact gives_ok trivial
  | some opening =>
    obtain ⟨held, inside⟩ := given opening rfl
    have isOpening := sound.shaped.opening element opening held
    have named : (opening.get "name").Place := inside.place (by rw [isOpening]; decide)
    refine gives_at named (gives_ok trivial) fun name below => ?_
    dsimp only
    split
    · exact gives_ok trivial
    · split
      · rename_i member
        have isMember : name.type = "JSXMemberExpression" := by simpa using member
        have object : (name.get "object").Place := below.place (by rw [isMember]; decide)
        have property : (name.get "property").Place := below.place (by rw [isMember]; decide)
        refine gives_bind (gives_identifierName object) fun owner _ => ?_
        split
        · exact gives_bind (gives_identifierName property) fun _ _ => gives_ok trivial
        · exact gives_ok trivial
      · exact gives_ok trivial

theorem gives_isFunctionValue {t : Tree} (place : t.Place) :
    Gives (fun _ => True) (isFunctionValue t) := by
  exact gives_at place (gives_ok trivial) fun _ _ => gives_ok trivial

theorem gives_returnsElement {statement : Node} (sound : statement.Sound) :
    Gives (fun _ => True) (returnsElement statement) := by
  unfold returnsElement
  by_cases returns : statement.type = "ReturnStatement"
  · rw [if_neg (by simp [returns])]
    have argument : (statement.get "argument").Place := sound.place (by rw [returns]; decide)
    exact gives_at argument (gives_ok trivial) fun _ _ => gives_ok trivial
  · rw [if_pos (by simpa using returns)]
    exact gives_ok trivial

theorem gives_someReturnsElement {items : List Tree} (nodes : Nodes items) :
    Gives (fun _ => True) (someReturnsElement items) := by
  induction items with
  | nil => exact gives_ok trivial
  | cons item rest ih =>
    obtain ⟨⟨statement, rfl, sound⟩, others⟩ := List.forall_mem_cons.mp nodes
    unfold someReturnsElement
    refine gives_node ?_
    refine gives_bind (gives_returnsElement sound) fun returns _ => ?_
    split
    · exact gives_ok trivial
    · exact ih others

theorem gives_returnsJsx {function : Node} (sound : function.Sound)
    (known : (function.type, "body") ∈ Node.nodeFields) :
    Gives (fun _ => True) (returnsJsx function) := by
  refine gives_at (sound.place known) (gives_ok trivial) fun body inside => ?_
  dsimp only
  by_cases block : body.type = "BlockStatement"
  · rw [if_neg (by simp [block])]
    refine gives_bind (inside.gives_items "body" (by rw [block]; decide)) fun items nodes => ?_
    exact gives_someReturnsElement nodes
  · rw [if_pos (by simpa using block)]
    exact gives_ok trivial

theorem gives_hasComponentName {n : Node} (sound : n.Sound) :
    Gives (fun _ => True) (hasComponentName n) :=
  gives_bind (gives_identifierName (sound.naming (by decide))) fun _ _ => gives_ok trivial

theorem gives_declaresComponentName {n : Node} (sound : n.Sound) :
    Gives (fun _ => True) (declaresComponentName n) := by
  unfold declaresComponentName
  split
  · exact gives_hasComponentName sound
  · exact gives_ok trivial

theorem gives_isComponentDeclarator {n : Node} (sound : n.Sound) :
    Gives (fun _ => True) (isComponentDeclarator n) := by
  refine gives_bind (gives_isFunctionValue (sound.naming (by decide))) fun _ _ => ?_
  split
  · exact gives_hasComponentName sound
  · exact gives_ok trivial

end Shape

/-- A node and all nodes above it are sound. -/
structure Cursor.Sound (c : Cursor) : Prop where
  node : c.node.Sound
  above : ∀ step ∈ c.above, step.parent.Sound

theorem Cursor.Sound.parent {c parent : Cursor} (sound : c.Sound) (up : c.parent? = some parent) :
    parent.Sound := by
  obtain ⟨node, above⟩ := c
  cases above with
  | nil => cases up
  | cons step above =>
    cases up
    obtain ⟨here, others⟩ := List.forall_mem_cons.mp sound.above
    exact ⟨here, others⟩

namespace Shape

theorem gives_isComponent {c : Cursor} (sound : c.Sound) :
    Gives (fun _ => True) (isComponent c) := by
  unfold isComponent
  dsimp only
  split
  · rename_i function
    have known : (c.node.type, "body") ∈ Node.nodeFields := by
      simp only [List.contains_eq_mem, List.mem_cons, List.not_mem_nil, or_false,
        decide_eq_true_eq] at function
      rcases function with same | same | same <;> (rw [same]; decide)
    refine gives_bind (gives_hasComponentName sound.node) fun _ _ => ?_
    split
    · exact gives_ok trivial
    · split
      · exact gives_returnsJsx sound.node known
      · rename_i parent up
        refine gives_bind (gives_declaresComponentName (sound.parent up).node) fun _ _ => ?_
        split
        · exact gives_ok trivial
        · exact gives_returnsJsx sound.node known
  · split
    · exact gives_hasComponentName sound.node
    · exact gives_ok trivial

theorem gives_hasDoc {c : Cursor} (source : SourceCode) (sound : c.Sound) :
    Gives (fun _ => True) (hasDoc source c) := by
  have statement : (documentedStatement c).node.Sound := by
    unfold documentedStatement
    split
    · exact sound.node
    · rename_i parent up
      split
      · exact (sound.parent up).node
      · exact sound.node
  have comments : Gives (fun _ => True) (source.commentsBefore (documentedStatement c).node) := by
    refine gives_bind statement.gives_start fun start _ => ?_
    cases start with
    | none => exact gives_ok trivial
    | some start =>
      dsimp only
      split
      · exact gives_ok trivial
      · exact gives_ok trivial
  exact gives_bind comments fun _ _ => gives_ok trivial

end Shape

namespace Cursor

theorem Sound.child {c child : Cursor} (sound : c.Sound) (member : child ∈ c.children) :
    child.Sound := by
  obtain ⟨⟨place, n⟩, placed, rfl⟩ := List.mem_map.mp member
  refine ⟨?_, List.forall_mem_cons.mpr ⟨sound.node, sound.above⟩⟩
  obtain ⟨key, -, here⟩ := List.mem_flatMap.mp placed
  have inField := sound.node.get key
  unfold Node.childrenAt at here
  split at here
  · rename_i type fields stored
    rw [stored] at inField
    cases List.mem_singleton.mp here
    exact inField
  · rename_i items stored
    rw [stored] at inField
    cases inField with
    | list inside => exact inside _ (Node.mem_of_mem_nodesAmong here)
  · cases here

theorem Sound.below {c d : Cursor} (sound : c.Sound) (below : c.Below d) : d.Sound := by
  induction below with
  | refl => exact sound
  | tail _ step ih => exact ih.child step

end Cursor

end TreeLint
