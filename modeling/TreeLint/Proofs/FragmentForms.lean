import TreeLint.Proofs.AlikeTrees
import TreeLint.Proofs.BracedText

/-! Fragments and the forms in which they are written. A fragment with one child alone that is
rendered adds nothing to it, in whatever form. Of the forms of that child only the short one counts;
so writing fragments in other forms makes a difference only where an only child gets the short form
or loses it. -/

namespace TreeLint

/-- The forms in which a fragment is written: `<>`, `<Fragment>` and `<React.Fragment>`. -/
inductive FragmentForm where
  | short
  | element
  | qualified

namespace Tree

variable [Host]

/-- A tree is shown as a text, where there is room to show it. -/
def ShownAs (t : Tree) (text : String) : Prop := ∃ levels, t.plain ‹Host› levels = .ok text

mutual

/-- The written form of a tree does not depend on the room. -/
theorem written_unique {t : Tree} {levels levels' : Nat} {text text' : String}
    (one : t.written ‹Host› levels = .ok text) (two : t.written ‹Host› levels' = .ok text') :
    text = text' := by
  unfold written at one two
  cases t with
  | node type fields =>
    dsimp only at one two
    split at one
    · cases one
    · split at two
      · cases two
      · exact Except.ok.inj (one.symm.trans two)
  | value v =>
    obtain ⟨-, -, one⟩ := bind_ok_iff.mp one
    obtain ⟨-, -, two⟩ := bind_ok_iff.mp two
    exact Except.ok.inj (one.symm.trans two)
  | list items =>
    cases levels with
    | zero => cases one
    | succ levels =>
      cases levels' with
      | zero => cases two
      | succ levels' =>
        obtain ⟨forms, here, made⟩ := bind_ok_iff.mp one
        obtain ⟨forms', there, made'⟩ := bind_ok_iff.mp two
        obtain rfl := writtenItems_unique here there
        exact Except.ok.inj (made.symm.trans made')

theorem writtenItems_unique {items : List Tree} {levels levels' : Nat}
    {forms forms' : List String}
    (one : writtenItems ‹Host› items levels = .ok forms)
    (two : writtenItems ‹Host› items levels' = .ok forms') : forms = forms' := by
  unfold writtenItems at one two
  cases items with
  | nil => exact Except.ok.inj (one.symm.trans two)
  | cons item rest =>
    obtain ⟨form, here, one⟩ := bind_ok_iff.mp one
    obtain ⟨others, later, one⟩ := bind_ok_iff.mp one
    obtain ⟨form', here', two⟩ := bind_ok_iff.mp two
    obtain ⟨others', later', two⟩ := bind_ok_iff.mp two
    obtain rfl := written_unique here here'
    obtain rfl := writtenItems_unique later later'
    exact Except.ok.inj (one.symm.trans two)

end

theorem ShownAs.unique {t : Tree} {text text' : String} (one : t.ShownAs text)
    (two : t.ShownAs text') : text = text' := by
  obtain ⟨levels, one⟩ := one
  obtain ⟨levels', two⟩ := two
  cases t with
  | value v =>
    obtain ⟨-, -, one⟩ := bind_ok_iff.mp one
    obtain ⟨-, -, two⟩ := bind_ok_iff.mp two
    exact Except.ok.inj (one.symm.trans two)
  | node type fields => exact written_unique one two
  | list items => exact written_unique one two

end Tree

namespace Node

structure HasTag (n name : Node) : Prop where
  type : n.type = "JSXElement"
  opening : ∃ opening : Node, n.get "openingElement" = opening.toTree ∧
    opening.get "name" = name.toTree

inductive WrittenAs (n : Node) : FragmentForm → Prop
  | short (type : n.type = "JSXFragment") : WrittenAs n .short
  | element {name : Node} (tag : n.HasTag name) (identifier : name.type = "JSXIdentifier")
      (text : name.nameText = some "Fragment") : WrittenAs n .element
  | qualified {name object property : Node} (tag : n.HasTag name)
      (member : name.type = "JSXMemberExpression") (first : name.get "object" = object.toTree)
      (library : object.nameText = some "React") (second : name.get "property" = property.toTree)
      (text : property.nameText = some "Fragment") : WrittenAs n .qualified

def IsFragment (n : Node) : Prop := ∃ form, n.WrittenAs form

/-- A node is a literal text without a visible character. -/
def IsBlankText (n : Node) : Prop :=
  n.type = "Literal" ∧ ∃ text, n.get "value" = .value (.str text) ∧ Text.isBlankString text = true

variable {n child child' : Node} {items : List Tree} {found found' : List Node} {told : Bool}

theorem WrittenAs.type {form : FragmentForm} (written : n.WrittenAs form) :
    n.type = "JSXFragment" ∨ n.type = "JSXElement" := by
  cases written with
  | short type => exact .inl type
  | element tag => exact .inr tag.type
  | qualified tag => exact .inr tag.type

theorem writtenAs_short_iff : n.WrittenAs .short ↔ n.type = "JSXFragment" :=
  ⟨fun written => by cases written; assumption, .short⟩

theorem IsFragment.hasTag (fragment : n.IsFragment) (element : n.type = "JSXElement") :
    ∃ name, n.HasTag name := by
  obtain ⟨form, written⟩ := fragment
  cases written with
  | short type => simp [element] at type
  | element tag => exact ⟨_, tag⟩
  | qualified tag => exact ⟨_, tag⟩

theorem HasTag.unique {name name' : Node} (one : n.HasTag name) (two : n.HasTag name') :
    name = name' := by
  obtain ⟨opening, tag, named⟩ := one.opening
  obtain ⟨opening', tag', named'⟩ := two.opening
  obtain rfl := Node.toTree_injective (tag.symm.trans tag')
  exact Node.toTree_injective (named.symm.trans named')

/-- The tag of an element tells whether it is a fragment. -/
theorem HasTag.isFragment_iff {name : Node} (tag : n.HasTag name) : n.IsFragment ↔
    (name.type = "JSXIdentifier" ∧ name.nameText = some "Fragment") ∨
      (name.type = "JSXMemberExpression" ∧
        (∃ object : Node, name.get "object" = object.toTree ∧ object.nameText = some "React") ∧
        ∃ property : Node, name.get "property" = property.toTree ∧
          property.nameText = some "Fragment") := by
  constructor
  · rintro ⟨form, written⟩
    cases written with
    | short type => simp [tag.type] at type
    | element tag' identifier text =>
      obtain rfl := tag.unique tag'
      exact .inl ⟨identifier, text⟩
    | qualified tag' member first library second text =>
      obtain rfl := tag.unique tag'
      exact .inr ⟨member, ⟨_, first, library⟩, _, second, text⟩
  · rintro (⟨identifier, text⟩ | ⟨member, ⟨object, first, library⟩, property, second, text⟩)
    · exact ⟨.element, .element tag identifier text⟩
    · exact ⟨.qualified, .qualified tag member first library second text⟩

section

variable [Host]

/-- A child that is not rendered: a text without a visible character, or a container that holds
nothing, or nothing but such a text. -/
inductive RendersNothing (n : Node) : Prop
  | absent (type : n.type = "JSXText") (absent : (n.get "value").isTruthy = false)
  | blank (type : n.type = "JSXText") (text : String) (value : (n.get "value").ShownAs text)
      (blank : Text.isBlankString text = true)
  | empty (type : n.type = "JSXExpressionContainer") (empty : n.get "expression" = .null)
  | holds (type : n.type = "JSXExpressionContainer") (inside : Node)
      (holds : n.get "expression" = inside.toTree)
      (nothing : inside.type = "JSXEmptyExpression" ∨ inside.IsBlankText)

/-- Of the children, those that are rendered, in order. -/
inductive Rendered : List Tree → List Node → Prop
  | none : Rendered [] []
  | skipped {t : Tree} {items : List Tree} {found : List Node} (child : Node)
      (same : t = child.toTree) (nothing : child.RendersNothing) (rest : Rendered items found) :
      Rendered (t :: items) found
  | kept {t : Tree} {items : List Tree} {found : List Node} (child : Node)
      (same : t = child.toTree) (something : ¬ child.RendersNothing)
      (rest : Rendered items found) : Rendered (t :: items) (child :: found)

/-- One child of a node alone is rendered. -/
def OnlyChild (n child : Node) : Prop :=
  ∃ items, n.get "children" = .list items ∧ Rendered items [child]

/-- A fragment around one child that is no short fragment. -/
def IsRedundant (n : Node) : Prop :=
  n.IsFragment ∧ ∃ child, n.OnlyChild child ∧ ¬ child.WrittenAs .short

theorem RendersNothing.type (nothing : n.RendersNothing) :
    n.type = "JSXText" ∨ n.type = "JSXExpressionContainer" := by
  rcases nothing with ⟨type, -⟩ | ⟨type, -⟩ | ⟨type, -⟩ | ⟨type, -⟩
  · exact .inl type
  · exact .inl type
  · exact .inr type
  · exact .inr type

theorem Rendered.unique (one : Rendered items found) (two : Rendered items found') :
    found = found' := by
  induction one generalizing found' with
  | none =>
    cases two
    rfl
  | skipped child same nothing rest ih =>
    cases two with
    | skipped _ _ _ rest' => exact ih rest'
    | kept child' same' something rest' =>
      obtain rfl := Node.toTree_injective (same.symm.trans same')
      exact absurd nothing something
  | kept child same something rest ih =>
    cases two with
    | skipped child' same' nothing rest' =>
      obtain rfl := Node.toTree_injective (same.symm.trans same')
      exact absurd nothing something
    | kept child' same' _ rest' =>
      obtain rfl := Node.toTree_injective (same.symm.trans same')
      rw [ih rest']

theorem OnlyChild.unique (one : n.OnlyChild child) (two : n.OnlyChild child') : child = child' := by
  obtain ⟨items, held, rendered⟩ := one
  obtain ⟨items', held', rendered'⟩ := two
  obtain rfl : items = items' := Tree.list.inj (held.symm.trans held')
  exact (List.cons.inj (rendered.unique rendered')).1

theorem isRedundant_iff (fragment : n.IsFragment) (only : n.OnlyChild child) :
    n.IsRedundant ↔ ¬ child.WrittenAs .short := by
  constructor
  · rintro ⟨-, other, alone, long⟩
    rwa [only.unique alone]
  · exact fun long => ⟨fragment, child, only, long⟩

end

end Node

/-- Trees that differ in how fragments are written: a fragment of one stands for one of the other
with the same children, in whatever form; every other node is kept, with what its text says. -/
inductive Tree.Respelled : Tree → Tree → Prop
  | value (v : Value) : Respelled (.value v) (.value v)
  | list {items others : List Tree} (length : items.length = others.length)
      (each : ∀ (i : Nat) (low : i < items.length) (high : i < others.length),
        Respelled (items.get ⟨i, low⟩) (others.get ⟨i, high⟩)) :
      Respelled (.list items) (.list others)
  | kept {type : String} {fields others : Fields}
      (text : type = "JSXText" → Node.get ⟨type, fields⟩ "value" = Node.get ⟨type, others⟩ "value")
      (forms : ∀ form, Node.WrittenAs ⟨type, fields⟩ form ↔ Node.WrittenAs ⟨type, others⟩ form)
      (inside : ∀ key, Respelled (Node.get ⟨type, fields⟩ key) (Node.get ⟨type, others⟩ key)) :
      Respelled (.node type fields) (.node type others)
  | fragment {type type' : String} {fields others : Fields} {form form' : FragmentForm}
      (one : Node.WrittenAs ⟨type, fields⟩ form) (two : Node.WrittenAs ⟨type', others⟩ form')
      (children : Respelled (Node.get ⟨type, fields⟩ "children")
        (Node.get ⟨type', others⟩ "children")) :
      Respelled (.node type fields) (.node type' others)

/-- Nodes that are respelled as trees. -/
def Node.Respelled (n m : Node) : Prop := n.toTree.Respelled m.toTree

namespace Tree.Respelled

variable {t u : Tree} {n : Node} {items others : List Tree}

theorem refl (t : Tree) : t.Respelled t := by
  induction t using fieldInduction with
  | value v => exact .value v
  | list items ih => exact .list rfl fun i low _ => ih _ (List.getElem_mem low)
  | node type fields ih => exact .kept (fun _ => rfl) (fun _ => Iff.rfl) ih

theorem symm (respelled : t.Respelled u) : u.Respelled t := by
  induction respelled with
  | value v => exact .value v
  | list length _ ih => exact .list length.symm fun i low high => ih i high low
  | kept text forms _ ih =>
    exact .kept (fun type => (text type).symm) (fun form => (forms form).symm) ih
  | fragment one two _ ih => exact .fragment two one ih

theorem list_iff :
    (Tree.list items).Respelled (.list others) ↔ List.Forall₂ Tree.Respelled items others := by
  rw [List.forall₂_iff_get]
  constructor
  · intro respelled
    cases respelled with
    | list length each => exact ⟨length, each⟩
  · rintro ⟨length, each⟩
    exact .list length each

theorem eq_value {v : Value} (respelled : (Tree.value v).Respelled u) : u = .value v := by
  cases respelled with
  | value => rfl

theorem exists_list (respelled : (Tree.list items).Respelled u) :
    ∃ others, u = .list others ∧ List.Forall₂ Tree.Respelled items others := by
  cases respelled with
  | list length each => exact ⟨_, rfl, list_iff.mp (.list length each)⟩

theorem exists_node (respelled : n.toTree.Respelled u) : ∃ m : Node, u = m.toTree ∧ n.Respelled m := by
  obtain ⟨type, fields⟩ := n
  cases respelled with
  | @kept _ _ others text forms inside => exact ⟨⟨type, others⟩, rfl, .kept text forms inside⟩
  | @fragment _ type' _ others _ _ one two children =>
    exact ⟨⟨type', others⟩, rfl, .fragment one two children⟩

end Tree.Respelled

namespace Node.Respelled

variable {n m child : Node} {items others : List Tree} {found : List Node}

theorem symm (respelled : n.Respelled m) : m.Respelled n := Tree.Respelled.symm respelled

theorem children (respelled : n.Respelled m) :
    (n.get "children").Respelled (m.get "children") := by
  obtain ⟨type, fields⟩ := n
  obtain ⟨type', others⟩ := m
  cases respelled with
  | kept text forms inside => exact inside "children"
  | fragment one two children => exact children

theorem isFragment (respelled : n.Respelled m) (fragment : n.IsFragment) : m.IsFragment := by
  obtain ⟨type, fields⟩ := n
  obtain ⟨type', others⟩ := m
  obtain ⟨form, written⟩ := fragment
  cases respelled with
  | kept text forms inside => exact ⟨form, (forms form).mp written⟩
  | fragment one two children => exact ⟨_, two⟩

/-- Nodes that are no fragments keep their types, and what stands in their fields is respelled. -/
theorem field (respelled : n.Respelled m) (noShort : n.type ≠ "JSXFragment")
    (noElement : n.type ≠ "JSXElement") :
    m.type = n.type ∧ ∀ key, (n.get key).Respelled (m.get key) := by
  obtain ⟨type, fields⟩ := n
  obtain ⟨type', others⟩ := m
  cases respelled with
  | kept text forms inside => exact ⟨rfl, inside⟩
  | fragment one two children => exact absurd one.type (not_or.mpr ⟨noShort, noElement⟩)

theorem text (respelled : n.Respelled m) (isText : n.type = "JSXText") :
    m.get "value" = n.get "value" := by
  obtain ⟨type, fields⟩ := n
  obtain ⟨type', others⟩ := m
  cases respelled with
  | kept text forms inside => exact (text isText).symm
  | fragment one two children => exact absurd one.type (by simp_all)

theorem isBlankText (respelled : n.Respelled m) (blank : n.IsBlankText) : m.IsBlankText := by
  obtain ⟨literal, text, value, blank⟩ := blank
  obtain ⟨type, inside⟩ := respelled.field (by simp [literal]) (by simp [literal])
  have same := inside "value"
  rw [value] at same
  exact ⟨type.trans literal, text, same.eq_value, blank⟩

variable [Host]

theorem rendersNothing (respelled : n.Respelled m) (nothing : n.RendersNothing) :
    m.RendersNothing := by
  rcases nothing with ⟨type, absent⟩ | ⟨type, text, value, blank⟩ | ⟨type, empty⟩ |
    ⟨type, inside, holds, nothing⟩ <;>
    obtain ⟨same, fields⟩ := respelled.field (by simp [type]) (by simp [type])
  · exact .absent (same.trans type) (by rwa [respelled.text type])
  · exact .blank (same.trans type) text (by rwa [respelled.text type]) blank
  · have here := fields "expression"
    rw [empty] at here
    exact .empty (same.trans type) here.eq_value
  · have here := fields "expression"
    rw [holds] at here
    obtain ⟨inside', holds', below⟩ := here.exists_node
    refine .holds (same.trans type) inside' holds' ?_
    rcases nothing with empty | blank
    · exact .inl ((below.field (by simp [empty]) (by simp [empty])).1.trans empty)
    · exact .inr (below.isBlankText blank)

theorem rendered (rendered : Rendered items found)
    (respelled : List.Forall₂ Tree.Respelled items others) :
    ∃ found', Rendered others found' ∧ List.Forall₂ Node.Respelled found found' := by
  induction rendered generalizing others with
  | none =>
    cases respelled
    exact ⟨[], .none, .nil⟩
  | skipped child same nothing _ ih =>
    subst same
    cases respelled with
    | cons here others =>
      obtain ⟨child', rfl, below⟩ := here.exists_node
      obtain ⟨found', rendered, alike⟩ := ih others
      exact ⟨found', .skipped child' rfl (below.rendersNothing nothing) rendered, alike⟩
  | kept child same something _ ih =>
    subst same
    cases respelled with
    | cons here others =>
      obtain ⟨child', rfl, below⟩ := here.exists_node
      obtain ⟨found', rendered, alike⟩ := ih others
      exact ⟨child' :: found', .kept child' rfl
        (fun nothing => something (below.symm.rendersNothing nothing)) rendered,
        .cons below alike⟩

theorem onlyChild (respelled : n.Respelled m) (only : n.OnlyChild child) :
    ∃ child', m.OnlyChild child' ∧ child.Respelled child' := by
  obtain ⟨items, held, alone⟩ := only
  have here := respelled.children
  rw [held] at here
  obtain ⟨others, held', each⟩ := here.exists_list
  obtain ⟨found', rendered, alike⟩ := rendered alone each
  cases alike with
  | cons below rest =>
    cases rest
    exact ⟨_, ⟨others, held', rendered⟩, below⟩

end Node.Respelled

variable [Host]

/-- The only child of a node is written in the short form if that of another is, and the other way
round. -/
def Node.KeepsShort (n m : Node) : Prop :=
  ∀ child child', n.OnlyChild child → m.OnlyChild child' →
    (child.WrittenAs .short ↔ child'.WrittenAs .short)

/-- Rewriting fragments makes a difference to a fragment just when its only child is changed from
the short form to an element, or back. -/
theorem Node.Respelled.isRedundant_iff {n m : Node} (respelled : n.Respelled m) :
    (n.IsRedundant ↔ m.IsRedundant) ↔ (n.IsFragment → n.KeepsShort m) := by
  by_cases fragment : n.IsFragment
  · have fragment' := respelled.isFragment fragment
    constructor
    · intro same _ child child' only only'
      rwa [Node.isRedundant_iff fragment only, Node.isRedundant_iff fragment' only',
        not_iff_not] at same
    · intro keeps
      by_cases alone : ∃ child, n.OnlyChild child
      · obtain ⟨child, only⟩ := alone
        obtain ⟨child', only', -⟩ := respelled.onlyChild only
        rw [Node.isRedundant_iff fragment only, Node.isRedundant_iff fragment' only', not_iff_not]
        exact keeps fragment child child' only only'
      · refine iff_of_false (fun redundant => ?_) fun redundant => ?_
        · obtain ⟨-, child, only, -⟩ := redundant
          exact alone ⟨child, only⟩
        · obtain ⟨-, child', only', -⟩ := redundant
          obtain ⟨child, only, -⟩ := respelled.symm.onlyChild only'
          exact alone ⟨child, only⟩
  · refine iff_of_true (iff_of_false (fun redundant => fragment redundant.1) fun redundant => ?_)
      fun isFragment => absurd isFragment fragment
    exact fragment (respelled.symm.isFragment redundant.1)

end TreeLint
