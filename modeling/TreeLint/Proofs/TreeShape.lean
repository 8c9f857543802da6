import TreeLint.Proofs.Table
import TreeLint.Proofs.Walk
import TreeLint.Source.Code

/-! The shape of trees that parsers of the grammars make. It is said field by field which fields
hold a node and which hold a list of nodes; a field may also be empty, and all other fields hold
what they will. -/

namespace TreeLint

/-- A value is of at most some height. A value that holds no others is one high, and a container is
higher by one than what it holds; an integer has no more digits than may be written. -/
inductive Value.Within : Nat → Value → Prop
  | null (height : Nat) : Within (height + 1) .null
  | bool (height : Nat) (b : Bool) : Within (height + 1) (.bool b)
  | int (height : Nat) {n : Int} : n.natAbs < Text.leastUnwritable → Within (height + 1) (.int n)
  | float (height : Nat) (x : Binary64) : Within (height + 1) (.float x)
  | str (height : Nat) (s : String) : Within (height + 1) (.str s)
  | list {height : Nat} {items : List Value} : (∀ item ∈ items, Within height item) →
      Within (height + 1) (.list items)
  | object {height : Nat} {members : Members} : (∀ member ∈ members, Within height member.2) →
      Within (height + 1) (.object members)

/-- A tree is of at most some height, where a node counts as high as it takes to show one; and a node
starts at no place that cannot be written. -/
inductive Tree.Within [Host] : Nat → Tree → Prop
  | value {height : Nat} {v : Value} : v.Within height → Within height (.value v)
  | node {height : Nat} {type : String} {fields : Fields} : Host.nodeLevels ≤ height →
      (∀ o, Node.start ⟨type, fields⟩ = .ok (some o) → o.toValue.Within 1) →
      Within height (.node type fields)
  | list {height : Nat} {items : List Tree} : (∀ item ∈ items, Within height item) →
      Within (height + 1) (.list items)

namespace Tree

/-- A place holds a node, or nothing. -/
def IsNodeOrNone (t : Tree) : Prop := t = .null ∨ ∃ n : Node, t = n.toTree

def AreNodes (items : List Tree) : Prop := ∀ item ∈ items, ∃ n : Node, item = n.toTree

/-- A place holds a list of nodes, or nothing. -/
def AreNodesOrNone (t : Tree) : Prop := t = .null ∨ ∃ items, t = .list items ∧ AreNodes items

end Tree

namespace Node

def listFields : List (String × String) :=
  [("Program", "body"), ("BlockStatement", "body"), ("VariableDeclaration", "declarations"),
   ("ObjectExpression", "properties"), ("JSXOpeningElement", "attributes"),
   ("JSXElement", "children"), ("JSXFragment", "children"), ("TemplateLiteral", "quasis")]

/-- Fields with lists of nodes, in nodes of any type, if they hold lists at all. -/
def bodyFields : List String := ["body", "members"]

def nodeFields : List (String × String) :=
  [("FunctionDeclaration", "body"), ("FunctionExpression", "body"),
   ("ArrowFunctionExpression", "body"), ("TSInterfaceDeclaration", "body"),
   ("JSXAttribute", "value"), ("Property", "value"), ("JSXExpressionContainer", "expression"),
   ("ReturnStatement", "argument"), ("JSXOpeningElement", "name"), ("JSXAttribute", "name"),
   ("JSXMemberExpression", "object"), ("JSXMemberExpression", "property"),
   ("ImportDeclaration", "source"), ("TSTypeAliasDeclaration", "typeAnnotation"),
   ("JSXElement", "openingElement")]

/-- Fields with nodes, in nodes of any type. -/
def namingFields : List String := ["id", "init", "key"]

/-- A node has the shape that the grammars give it. -/
structure Shaped (n : Node) : Prop where
  lists : ∀ key, (n.type, key) ∈ listFields → (n.get key).AreNodesOrNone
  bodies : ∀ key ∈ bodyFields, ∀ items, n.get key = .list items → Tree.AreNodes items
  nodes : ∀ key, (n.type, key) ∈ nodeFields → (n.get key).IsNodeOrNone
  naming : ∀ key ∈ namingFields, (n.get key).IsNodeOrNone
  opening : n.type = "JSXElement" → ∀ opening : Node,
    n.get "openingElement" = opening.toTree → opening.type = "JSXOpeningElement"
  range : ∀ first second, pair? (n.get "range") = some (first, second) →
    ∃ a b, first = .int a ∧ second = .int b

/-- A node has the right shape if it has none of the fields with single nodes and no offsets. -/
theorem shaped_of_absent {n : Node}
    (lists : ∀ key, (n.type, key) ∈ listFields → (n.get key).AreNodesOrNone)
    (untyped : ∀ key, (n.type, key) ∉ nodeFields)
    (absent : ∀ key ∈ "range" :: bodyFields ++ namingFields, n.get key = .null) :
    n.Shaped where
  lists := lists
  bodies := by
    intro key known items held
    rw [absent key (by simp [known])] at held
    cases held
  nodes key known := absurd known (untyped key)
  naming key known := .inl (absent key (by simp [known]))
  opening isElement := absurd (by rw [isElement]; decide) (untyped "openingElement")
  range := by
    intro first second pair
    rw [absent "range" List.mem_cons_self] at pair
    cases pair

/-- If a node is a text of an element, what it holds can be written. -/
def TextWithin [Host] (n : Node) : Prop :=
  n.type = "JSXText" → (n.get "value").Within Host.textLevels

/-- The comments of a root stand in a list, and their offsets are whole. -/
def CommentsShaped (root : Node) : Prop :=
  root.get "comments" = .null ∨ ∃ items, root.get "comments" = .value (.list items) ∧
    ∀ members, .object members ∈ items → ∀ first second,
      members.lookup "range" = some (.list [first, second]) →
        ∃ a b, first = .int a ∧ second = .int b

/-- What the comments of a root hold can be written. -/
def CommentsWithin [Host] (root : Node) : Prop :=
  ∀ items, root.get "comments" = .value (.list items) → ∀ members, .object members ∈ items →
    ∀ key ∈ ["type", "value"], ∀ v, members.lookup key = some v →
      v.Within Host.commentLevels

end Node

/-- All nodes in a tree have a property. -/
inductive Tree.Everywhere (P : Node → Prop) : Tree → Prop
  | node {type : String} {fields : Fields} : P ⟨type, fields⟩ →
      (∀ key, Everywhere P (Node.get ⟨type, fields⟩ key)) → Everywhere P (.node type fields)
  | list {items : List Tree} : (∀ item ∈ items, Everywhere P item) → Everywhere P (.list items)
  | value (v : Value) : Everywhere P (.value v)

theorem Tree.Everywhere.of_fields {P : Node → Prop} {n : Node} (holds : P n)
    (each : ∀ field ∈ n.fields, field.2.Everywhere P) : n.toTree.Everywhere P := by
  refine .node holds fun key => ?_
  unfold Node.get
  cases found : n.fields.lookup key with
  | none => exact .value .null
  | some t =>
    exact each (key, t) (Table.mem_of_lookup found)

theorem Tree.Everywhere.and {P Q : Node → Prop} {t : Tree} (one : t.Everywhere P)
    (two : t.Everywhere Q) : t.Everywhere fun n => P n ∧ Q n := by
  induction one with
  | node holds _ ih =>
    cases two with
    | node too inside => exact .node ⟨holds, too⟩ fun key => ih key (inside key)
  | list _ ih =>
    cases two with
    | list inside => exact .list fun item member => ih item member (inside item member)
  | value v => exact .value v

end TreeLint
