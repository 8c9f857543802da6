import Mathlib.Data.List.TakeWhile
import TreeLint.Proofs.BracedText
import TreeLint.Proofs.NodeReports

/-! Required members behind optional ones. The members that have an order are the property signatures
with a name; all others are passed over, wherever they stand. One flag, which the first optional
property sets, is all that the check remembers: so it reports the required properties with an
optional one before them, and nothing just when a block of required ones comes before a block of
optional ones. -/

namespace TreeLint

namespace Rules.MemberOrder
open Reporting

/-- A property with a name, as a member of an interface or of an object type. -/
structure Property where
  key : Node
  name : String
  isOptional : Bool

/-- A member is the signature of a property with a name. -/
structure Property.IsSignedBy (p : Property) (member : Node) : Prop where
  type : member.type = "TSPropertySignature"
  key : member.get "key" = p.key.toTree
  name : p.key.nameText = some p.name
  visible : p.name ≠ ""
  optional : (member.get "optional").isTruthy = p.isOptional

/-- A member that has no place in the order: it is no property signature, or one without a key, or
one whose key has no name. -/
def IsUnordered (t : Tree) : Prop :=
  ∃ member : Node, t = member.toTree ∧ (member.type ≠ "TSPropertySignature" ∨
    member.get "key" = .null ∨
    ∃ key : Node, member.get "key" = key.toTree ∧ (key.nameText = none ∨ key.nameText = some ""))

def property? (t : Tree) : Option Property :=
  match t with
  | .node type fields => match namedKey? ⟨type, fields⟩ with
    | .ok (some (key, name)) => some ⟨key, name, (Node.get ⟨type, fields⟩ "optional").isTruthy⟩
    | _ => none
  | _ => none

variable {context : RuleContext} {c : Cursor} {member key : Node} {name parent : String}
  {seen : Bool} {t : Tree} {items : List Tree} {p : Property} {ps : List Property}
  {reports : List Violation}

theorem namedKey?_of_key (signature : member.type = "TSPropertySignature")
    (held : member.get "key" = key.toTree) :
    namedKey? member = .ok ((key.nameText.filter (· != "")).map fun name => (key, name)) := by
  rw [namedKey?, if_neg (by simpa using signature), Tree.asNode?_eq_some_iff.mpr held]
  rfl

theorem namedKey?_of_signed (signed : p.IsSignedBy member) :
    namedKey? member = .ok (some (p.key, p.name)) := by
  rw [namedKey?_of_key signed.type signed.key, signed.name, Option.filter_some_pos]
  · rfl
  · simpa using signed.visible

theorem namedKey?_of_unordered (unordered : IsUnordered member.toTree) :
    namedKey? member = .ok none := by
  obtain ⟨other, same, reason⟩ := unordered
  obtain rfl := Node.toTree_injective same
  by_cases signature : member.type = "TSPropertySignature"
  · rcases reason with differs | empty | ⟨key, held, unnamed⟩
    · exact absurd signature differs
    · rw [namedKey?, if_neg (by simpa using signature), Tree.asNode?_eq_none_iff.mpr empty]
      rfl
    · rw [namedKey?_of_key signature held]
      rcases unnamed with none | empty
      · rw [none]
        rfl
      · rw [empty]
        rfl
  · rw [namedKey?, if_pos (by simpa using signature)]
    rfl

/-- A member that is read is without a place in the order, or the signature of a property. -/
theorem cases_of_namedKey? {named : Option (Node × String)} (read : namedKey? member = .ok named) :
    (named = none ∧ IsUnordered member.toTree) ∨
      ∃ p : Property, p.IsSignedBy member ∧ named = some (p.key, p.name) := by
  by_cases unordered : IsUnordered member.toTree
  · rw [namedKey?_of_unordered unordered] at read
    exact .inl ⟨(Except.ok.inj read).symm, unordered⟩
  · have signature : member.type = "TSPropertySignature" := by
      by_contra differs
      exact unordered ⟨member, rfl, .inl differs⟩
    have below := read
    rw [namedKey?, if_neg (by simpa using signature)] at below
    obtain ⟨_ | key, found, -⟩ := bind_ok_iff.mp below
    · exact absurd ⟨member, rfl, .inr (.inl (Tree.asNode?_eq_none_iff.mp found))⟩ unordered
    · have held := Tree.asNode?_eq_some_iff.mp found
      have visible : key.nameText ≠ none ∧ key.nameText ≠ some "" := by
        refine ⟨fun none => ?_, fun empty => ?_⟩
        · exact unordered ⟨member, rfl, .inr (.inr ⟨key, held, .inl none⟩)⟩
        · exact unordered ⟨member, rfl, .inr (.inr ⟨key, held, .inr empty⟩)⟩
      obtain ⟨name, named⟩ := Option.ne_none_iff_exists'.mp visible.1
      have signed : (⟨key, name, (member.get "optional").isTruthy⟩ : Property).IsSignedBy member :=
        ⟨signature, held, named, fun empty => visible.2 (empty ▸ named), rfl⟩
      rw [namedKey?_of_signed signed] at read
      exact .inr ⟨_, signed, (Except.ok.inj read).symm⟩

theorem property?_of_signed (signed : p.IsSignedBy member) : property? member.toTree = some p := by
  obtain ⟨key, name, isOptional⟩ := p
  have held : (member.get "optional").isTruthy = isOptional := signed.optional
  subst held
  simp only [property?, Node.toTree, namedKey?_of_signed signed]

theorem property?_of_unordered (unordered : IsUnordered t) : property? t = none := by
  have ⟨member, same, _⟩ := unordered
  subst same
  simp only [property?, Node.toTree, namedKey?_of_unordered unordered]

theorem property?_eq_some_iff :
    property? t = some p ↔ ∃ member : Node, t = member.toTree ∧ p.IsSignedBy member := by
  constructor
  · intro found
    unfold property? at found
    split at found
    · rename_i type fields
      split at found
      · rename_i key name read
        rcases cases_of_namedKey? read with ⟨never, -⟩ | ⟨q, signed, named⟩
        · cases never
        · cases named
          cases found
          refine ⟨⟨type, fields⟩, rfl, ?_⟩
          rwa [signed.optional]
      · cases found
    · cases found
  · rintro ⟨member, rfl, signed⟩
    exact property?_of_signed signed

/-- Required properties behind an optional one, where `seen` tells whether one came before. -/
def late (seen : Bool) (ps : List Property) : List Property :=
  (if seen then ps else ps.dropWhile (!·.isOptional)).filter (!·.isOptional)

theorem late_cons (seen : Bool) (p : Property) (ps : List Property) :
    late seen (p :: ps) =
      if p.isOptional then late true ps else if seen then p :: late seen ps else late seen ps := by
  cases seen <;> cases optional : p.isOptional <;> simp [late, optional]

/-- A violation tells that a required property comes behind an optional one. -/
def Tells (context : RuleContext) (parent : String) (p : Property) (v : Violation) : Prop :=
  context.Marks p.key "requiredBeforeOptional" [("name", p.name), ("parent", parent)]
    ("Required field '" ++ p.name ++ "' should come before all optional fields in '" ++ parent ++
      "'.") v

theorem tells_of_report (known : context.info = info)
    (reported : context.reportAt p.key "requiredBeforeOptional"
      [("name", p.name), ("parent", parent)] = ⟨reports, .ok ()⟩) :
    ∃ v, reports = [v] ∧ Tells context parent p v := by
  have held : context.info.messages.lookup "requiredBeforeOptional" =
      some ("Required field '" ++ Message.slot "name" ++
        "' should come before all optional fields in '" ++ Message.slot "parent" ++ "'.") := by
    rw [known]
    rfl
  obtain ⟨v, rfl, marks⟩ := RuleContext.marks_of_reportAt held reported
  have plain : Message.Plain "name" := Message.plain_ofList (by decide)
  have plain' : Message.Plain "parent" := Message.plain_ofList (by decide)
  have filled : Message.interpolate ("Required field '" ++ Message.slot "name" ++
      "' should come before all optional fields in '" ++ Message.slot "parent" ++ "'.")
      [("name", p.name), ("parent", parent)] = "Required field '" ++ p.name ++
        "' should come before all optional fields in '" ++ parent ++ "'." :=
    Message.interpolate_slots plain plain' (by decide) (by decide) (by decide) (by decide) _ _
  rw [filled] at marks
  exact ⟨v, rfl, marks⟩

/-- A member without a place in the order makes no difference to the check. -/
theorem checkMembers_of_unordered (context : RuleContext) (parent : String) (seen : Bool)
    (rest : List Tree) (unordered : IsUnordered t) :
    checkMembers context parent seen (t :: rest) = checkMembers context parent seen rest := by
  have ⟨member, same, _⟩ := unordered
  subst same
  rw [checkMembers, Tree.asNode_eq_ok_iff.mpr rfl, lift_ok_bind, namedKey?_of_unordered unordered,
    lift_ok_bind]

theorem checkMembers_ok (known : context.info = info)
    (ran : checkMembers context parent seen items = ⟨reports, .ok ()⟩) :
    List.Forall₂ (Tells context parent) (late seen (items.filterMap property?)) reports := by
  induction items generalizing seen reports with
  | nil =>
    cases ran
    cases seen <;> exact .nil
  | cons t rest ih =>
    rw [checkMembers] at ran
    obtain ⟨member, given, checked⟩ := lift_bind_eq_iff.mp ran
    obtain rfl := Tree.asNode_eq_ok_iff.mp given
    obtain ⟨named, read, checked⟩ := lift_bind_eq_iff.mp checked
    rcases cases_of_namedKey? read with ⟨rfl, unordered⟩ | ⟨p, signed, rfl⟩
    · rw [List.filterMap_cons_none (property?_of_unordered unordered)]
      exact ih checked
    · rw [List.filterMap_cons_some (property?_of_signed signed), late_cons]
      dsimp only at checked
      rw [signed.optional] at checked
      cases optional : p.isOptional with
      | true =>
        rw [optional] at checked
        exact ih checked
      | false =>
        rw [optional] at checked
        cases seen with
        | false => exact ih checked
        | true =>
          obtain ⟨first, ⟨⟩, second, reported, later, rfl⟩ := bind_eq_iff.mp checked
          obtain ⟨v, rfl, tells⟩ := tells_of_report known reported
          exact .cons tells (ih later)

/-- At a place of a list of members stands the signature of a property. -/
def Holds (items : List Tree) (i : Nat) (p : Property) : Prop :=
  ∃ member : Node, items[i]? = some member.toTree ∧ p.IsSignedBy member

/-- At a place of a list of members stands a required property, and an optional one before it. -/
def IsLate (items : List Tree) (i : Nat) : Prop :=
  ∃ p, Holds items i p ∧ p.isOptional = false ∧ ∃ j < i, ∃ q, Holds items j q ∧ q.isOptional = true

theorem holds_iff {i : Nat} : Holds items i p ↔ ∃ t, items[i]? = some t ∧ property? t = some p := by
  simp only [Holds, property?_eq_some_iff]
  constructor
  · rintro ⟨member, placed, signed⟩
    exact ⟨_, placed, member, rfl, signed⟩
  · rintro ⟨_, placed, member, rfl, signed⟩
    exact ⟨member, placed, signed⟩

theorem late_append_singleton (ps : List Property) (p : Property) :
    late false (ps ++ [p]) =
      late false ps ++ if ps.any (·.isOptional) && !p.isOptional then [p] else [] := by
  induction ps with
  | nil => cases optional : p.isOptional <;> simp [late, optional]
  | cons q ps ih =>
    rw [List.cons_append, late_cons, late_cons, ih]
    cases optional : q.isOptional
    · simp [optional]
    · cases last : p.isOptional <;> simp [late, optional, last]

theorem exists_optional_iff : (∃ j < items.length, ∃ q, Holds items j q ∧ q.isOptional = true) ↔
    (items.filterMap property?).any (·.isOptional) = true := by
  simp only [holds_iff, List.any_eq_true, List.mem_filterMap]
  constructor
  · rintro ⟨j, short, q, ⟨t, placed, found⟩, optional⟩
    exact ⟨q, ⟨t, List.mem_of_getElem? placed, found⟩, optional⟩
  · rintro ⟨q, ⟨t, member, found⟩, optional⟩
    obtain ⟨j, placed⟩ := List.mem_iff_getElem?.mp member
    exact ⟨j, (List.getElem?_eq_some_iff.mp placed).1, q, ⟨t, placed, found⟩, optional⟩

theorem holds_append_of_lt {i : Nat} (short : i < items.length) (more : List Tree) :
    Holds (items ++ more) i p ↔ Holds items i p := by
  simp only [Holds, List.getElem?_append_left short]

theorem isLate_append_of_lt {i : Nat} (short : i < items.length) (more : List Tree) :
    IsLate (items ++ more) i ↔ IsLate items i := by
  simp only [IsLate, holds_append_of_lt short]
  refine exists_congr fun p => and_congr_right fun _ => and_congr_right fun _ => ?_
  refine exists_congr fun j => and_congr_right fun before => ?_
  simp only [holds_append_of_lt (before.trans short)]

theorem lt_of_holds {i : Nat} (holds : Holds items i p) : i < items.length := by
  obtain ⟨member, placed, -⟩ := holds
  exact (List.getElem?_eq_some_iff.mp placed).1

theorem isLate_append_singleton {i : Nat} : IsLate (items ++ [t]) i ↔ IsLate items i ∨
    i = items.length ∧ ∃ p, property? t = some p ∧ p.isOptional = false ∧
      (items.filterMap property?).any (·.isOptional) = true := by
  by_cases short : i < items.length
  · rw [isLate_append_of_lt short]
    simp [Nat.ne_of_lt short]
  · have outside : ¬ IsLate items i := fun ⟨_, holds, _⟩ => short (lt_of_holds holds)
    simp only [outside, false_or]
    constructor
    · rintro ⟨p, holds, required, before⟩
      obtain rfl : i = items.length := by
        have := lt_of_holds holds
        simp only [List.length_append, List.length_singleton] at this
        omega
      obtain ⟨u, placed, found⟩ := holds_iff.mp holds
      rw [List.getElem?_concat_length, Option.some.injEq] at placed
      subst placed
      refine ⟨rfl, p, found, required, exists_optional_iff.mp ?_⟩
      obtain ⟨j, earlier, q, holds, optional⟩ := before
      exact ⟨j, earlier, q, (holds_append_of_lt earlier _).mp holds, optional⟩
    · rintro ⟨rfl, p, found, required, some⟩
      refine ⟨p, holds_iff.mpr ⟨t, List.getElem?_concat_length, found⟩, required, ?_⟩
      obtain ⟨j, earlier, q, holds, optional⟩ := exists_optional_iff.mpr some
      exact ⟨j, earlier, q, (holds_append_of_lt earlier _).mpr holds, optional⟩

/-- The late members of a list, by their places. -/
theorem late_places (items : List Tree) : ∃ places : List Nat, places.Pairwise (· < ·) ∧
    (∀ i, i ∈ places ↔ IsLate items i) ∧
    List.Forall₂ (Holds items) places (late false (items.filterMap property?)) := by
  induction items using List.reverseRecOn with
  | nil => exact ⟨[], .nil, by simp [IsLate, Holds], .nil⟩
  | append_singleton items t ih =>
    obtain ⟨places, rising, mem, holds⟩ := ih
    have inside (i : Nat) (member : i ∈ places) : i < items.length := by
      obtain ⟨p, holds, -⟩ := (mem i).mp member
      exact lt_of_holds holds
    have still : List.Forall₂ (Holds (items ++ [t])) places
        (late false (items.filterMap property?)) :=
      holds.imp fun i p here => (holds_append_of_lt (lt_of_holds here) _).mpr here
    rw [List.filterMap_append]
    by_cases last : ∃ p, property? t = some p ∧ p.isOptional = false ∧
        (items.filterMap property?).any (·.isOptional) = true
    · obtain ⟨p, found, required, some⟩ := last
      rw [List.filterMap_cons_some found, List.filterMap_nil, late_append_singleton, some, required]
      refine ⟨places ++ [items.length], ?_, fun i => ?_, List.rel_append still (.cons ?_ .nil)⟩
      · rw [List.pairwise_append]
        exact ⟨rising, List.pairwise_singleton _ _, by simpa using inside⟩
      · rw [isLate_append_singleton, List.mem_append, List.mem_singleton, mem i]
        simp only [found, required, some, Option.some.injEq, exists_eq_left', and_true]
      · exact holds_iff.mpr ⟨t, List.getElem?_concat_length, found⟩
    · refine ⟨places, rising, fun i => ?_, ?_⟩
      · rw [isLate_append_singleton, mem i, or_iff_left fun late => last late.2]
      · cases found : property? t with
        | none => simpa [found] using still
        | some p =>
          rw [List.filterMap_cons_some found, List.filterMap_nil, late_append_singleton]
          have same : ((items.filterMap property?).any (·.isOptional) && !p.isOptional) = false := by
            by_contra both
            simp only [Bool.not_eq_false, Bool.and_eq_true, Bool.not_eq_true'] at both
            exact last ⟨p, found, both.2, both.1⟩
          rwa [same, if_neg Bool.false_ne_true, List.append_nil]

/-- A declaration lists members: those of an interface, or of the object type that it gives a
name. -/
inductive Lists (c : Cursor) (items : List Tree) : Prop
  | interface (type : c.node.type = "TSInterfaceDeclaration")
      (members : membersOf (c.node.get "body") = .ok items)
  | objectType (type : c.node.type = "TSTypeAliasDeclaration") (aliased : Node)
      (written : c.node.get "typeAnnotation" = aliased.toTree)
      (literal : aliased.type = "TSTypeLiteral")
      (members : membersOf aliased.toTree = .ok items)

def looks (context : RuleContext) : Looks :=
  [("TSInterfaceDeclaration", checkInterface context), ("TSTypeAliasDeclaration", checkAlias context)]

/-- The rule works on a file of TypeScript that it is not told to ignore. -/
structure WorksOn (context : RuleContext) : Prop where
  known : context.info = info
  typeScript : ∃ name, context.filename = some name ∧ TypeName.isTypeScript name = true
  heeded : context.isIgnored = .ok false

theorem looks_distinct (context : RuleContext) : ((looks context).map (·.1)).Nodup := by
  simp [looks]

theorem listeners_eq_of_worksOn (works : WorksOn context) :
    rule.listeners context = .ok (looks context).listeners := by
  obtain ⟨name, named, typeScript⟩ := works.typeScript
  have concerned : TypeName.concerns context = .ok true := by
    rw [TypeName.concerns, RuleContext.name, named]
    exact congrArg Except.ok typeScript
  exact Rule.listeners_of_looks looks rfl concerned works.heeded

theorem report_eq_of_lists (lists : Lists c items) : (looks context).report c =
    (liftM (declaredName c.node) >>= fun parent => checkMembers context parent false items) := by
  cases lists with
  | interface type members =>
    rw [Looks.report, type]
    simp only [looks, List.lookup_cons_self, checkInterface, members, lift_ok_bind]
  | objectType type aliased written literal members =>
    have found : (looks context).lookup "TSTypeAliasDeclaration" = some (checkAlias context) := rfl
    rw [Looks.report, type, found]
    simp only [checkAlias, Tree.asNode?_eq_some_iff.mpr written, lift_ok_bind, literal,
      bne_self_eq_false, Bool.false_eq_true, if_false, members]

/-- Only a declaration that lists members is reported. -/
theorem lists_of_report (ran : (looks context).report c = ⟨reports, .ok ()⟩)
    (some : reports ≠ []) : ∃ items, Lists c items := by
  by_cases isInterface : c.node.type = "TSInterfaceDeclaration"
  · rw [Looks.report, isInterface] at ran
    obtain ⟨parent, -, ran⟩ := lift_bind_eq_iff.mp ran
    obtain ⟨items, members, -⟩ := lift_bind_eq_iff.mp ran
    exact ⟨items, .interface isInterface members⟩
  by_cases isAlias : c.node.type = "TSTypeAliasDeclaration"
  · rw [Looks.report, isAlias] at ran
    obtain ⟨_ | aliased, written, ran⟩ := lift_bind_eq_iff.mp ran
    · cases ran
      exact absurd rfl some
    · by_cases literal : aliased.type = "TSTypeLiteral"
      · simp only [literal, bne_self_eq_false, Bool.false_eq_true, if_false] at ran
        obtain ⟨parent, -, ran⟩ := lift_bind_eq_iff.mp ran
        obtain ⟨items, members, -⟩ := lift_bind_eq_iff.mp ran
        exact ⟨items, .objectType isAlias aliased (Tree.asNode?_eq_some_iff.mp written) literal
          members⟩
      · simp only [bne_iff_ne.mpr literal, if_true] at ran
        cases ran
        exact absurd rfl some
  · rw [Looks.report_of_other (by simp [looks, isInterface, isAlias])] at ran
    cases ran
    exact absurd rfl some

theorem report_ok (known : context.info = info) (lists : Lists c items)
    (ran : (looks context).report c = ⟨reports, .ok ()⟩) :
    ∃ parent, declaredName c.node = .ok parent ∧
      List.Forall₂ (Tells context parent) (late false (items.filterMap property?)) reports := by
  rw [report_eq_of_lists lists] at ran
  obtain ⟨parent, named, checked⟩ := lift_bind_eq_iff.mp ran
  exact ⟨parent, named, checkMembers_ok known checked⟩

/-- Reports tell of the late members of a declaration, one after the other in the order of the
members. -/
def TellLate (context : RuleContext) (c : Cursor) (items : List Tree) (reports : List Violation) :
    Prop :=
  ∃ parent places, declaredName c.node = .ok parent ∧ places.Pairwise (· < ·) ∧
    (∀ i, i ∈ places ↔ IsLate items i) ∧
    List.Forall₂ (fun i v => ∃ p, Holds items i p ∧ Tells context parent p v) places reports

/-- Properties stand in two blocks, the required ones before the optional ones. -/
def InBlocks (ps : List Property) : Prop :=
  ∃ required optional, ps = required ++ optional ∧ (∀ p ∈ required, p.isOptional = false) ∧
    ∀ p ∈ optional, p.isOptional = true

theorem late_eq_nil_iff : late false ps = [] ↔ InBlocks ps := by
  have late_eq : late false ps = (ps.dropWhile (!·.isOptional)).filter (!·.isOptional) := rfl
  rw [late_eq, List.filter_eq_nil_iff]
  constructor
  · intro none
    refine ⟨ps.takeWhile (!·.isOptional), ps.dropWhile (!·.isOptional),
      List.takeWhile_append_dropWhile.symm, fun p member => ?_, fun p member => ?_⟩
    · simpa using List.mem_takeWhile_imp member
    · simpa using none p member
  · rintro ⟨required, optional, rfl, first, second⟩ p member
    rw [List.dropWhile_append_of_pos (by simpa using first)] at member
    simpa using second p ((List.dropWhile_sublist _).subset member)

/-- What is reported of a declaration that lists members. -/
theorem outcome_of_report (known : context.info = info) (lists : Lists c items)
    (ran : (looks context).report c = ⟨reports, .ok ()⟩) :
    TellLate context c items reports ∧ (reports = [] ↔ InBlocks (items.filterMap property?)) := by
  obtain ⟨parent, named, tells⟩ := report_ok known lists ran
  obtain ⟨places, rising, mem, holds⟩ := late_places items
  refine ⟨⟨parent, places, named, rising, mem, forall₂_comp holds tells⟩, ?_⟩
  rw [← late_eq_nil_iff]
  constructor
  · rintro rfl
    exact List.forall₂_nil_right_iff.mp tells
  · intro none
    rw [none] at tells
    exact List.forall₂_nil_left_iff.mp tells

def interfaceOf (members : List Tree) : Node :=
  ⟨"TSInterfaceDeclaration", [("id", .node "Identifier" [("name", .value (.str "IUser"))]),
    ("body", .node "TSInterfaceBody" [("body", .list members)])]⟩

def signatureOf (name : String) (optional : Bool) : Node :=
  ⟨"TSPropertySignature", [("key", .node "Identifier" [("name", .value (.str name))]),
    ("optional", .value (.bool optional))]⟩

theorem isSignedBy_signatureOf {name : String} (visible : name ≠ "") (optional : Bool) :
    (⟨⟨"Identifier", [("name", .value (.str name))]⟩, name, optional⟩ :
      Property).IsSignedBy (signatureOf name optional) :=
  ⟨rfl, rfl, rfl, visible, rfl⟩

end Rules.MemberOrder

namespace Lint
open Rules

section

variable [Host] {file : ParsedFile} {cwd : Option String} {setting : RuleSetting}

/-- In a file of TypeScript the rule reports of an interface, and of an object type that an alias
names, in the order of the members, the required properties that have an optional one before them;
and nothing just when the properties are a block of required ones and then a block of optional ones.
A run reports what these declarations lead to, in preorder, and nothing else in the name of the
rule. -/
theorem lateMembers_outcome
    (works : MemberOrder.WorksOn (contextFor file cwd MemberOrder.rule setting)) :
    let context := contextFor file cwd MemberOrder.rule setting
    let root := Cursor.ofRoot file.source.root
    ∃ listeners, MemberOrder.rule.listeners context = .ok listeners ∧
      (∀ c before reports after,
        Watcher.Hears c (listeners.awaiting ⟨c.node.type, .enter⟩) before reports after →
        (∀ items, MemberOrder.Lists c items → MemberOrder.TellLate context c items reports ∧
          (reports = [] ↔ MemberOrder.InBlocks (items.filterMap MemberOrder.property?))) ∧
        (reports ≠ [] → ∃ items, MemberOrder.Lists c items)) ∧
      ∀ config result, (MemberOrder.rule, setting) ∈ config.enabledRules →
        run config file cwd = .ok result → ∃ emitted reportsOf,
          Emits file cwd config.enabledRules emitted ∧
          StableSort Violation.place emitted result.violations ∧
          emitted.filter (·.ruleId == MemberOrder.rule.name) = root.preorder.flatMap reportsOf ∧
          ∀ c, root.Below c →
            Watcher.Hears c (listeners.awaiting ⟨c.node.type, .enter⟩) [] (reportsOf c) [] := by
  intro context root
  have made := MemberOrder.listeners_eq_of_worksOn works
  have distinct := MemberOrder.looks_distinct context
  refine ⟨_, made, fun c before reports after hears => ?_, fun config result enabled ran => ?_⟩
  · obtain ⟨looked, -⟩ := (Looks.hears_enter_iff distinct).mp hears
    exact ⟨fun items lists => MemberOrder.outcome_of_report rfl lists looked,
      MemberOrder.lists_of_report looked⟩
  · obtain ⟨emitted, emits, sorted, -⟩ := (run_ok_iff ..).mp ran
    obtain ⟨same, each⟩ := reports_of_looks distinct enabled made emits
    refine ⟨emitted, _, emits, sorted, same, fun c below => ?_⟩
    refine (Looks.hears_enter_iff distinct).mpr ⟨?_, rfl⟩
    rw [← each c below]

end

def interfaceFile (members : List Tree) : ParsedFile :=
  ⟨some "a.ts", ⟨[], MemberOrder.interfaceOf members, []⟩, none⟩

theorem worksOn_interfaceFile [Host] (members : List Tree) : MemberOrder.WorksOn
    (contextFor (interfaceFile members) none MemberOrder.rule ⟨.error, []⟩) :=
  ⟨rfl, ⟨"a.ts", rfl, by decide⟩, rfl⟩

attribute [local instance] Host.usual in
/-- Of an optional and a required property, in this order, the second is reported. -/
theorem lateMembers_outcome_nickname :
    let file := interfaceFile
      [(MemberOrder.signatureOf "nickname" true).toTree,
        (MemberOrder.signatureOf "id" false).toTree]
    let config : Configuration := ⟨[], [("interface-type-required-first", ⟨.error, []⟩)]⟩
    MemberOrder.WorksOn (contextFor file none MemberOrder.rule ⟨.error, []⟩) ∧
      ∃ result, run config file none = .ok result ∧ ∃ v ∈ result.violations,
        v.message = "Required field 'id' should come before all optional fields in 'IUser'." := by
  intro file config
  let root := Cursor.ofRoot file.source.root
  have gives : (run config file none).toOption.isSome = true := by decide +kernel
  refine ⟨worksOn_interfaceFile _, ?_⟩
  obtain ⟨result, ran⟩ := exists_ok_of_isSome gives
  obtain ⟨listeners, -, answers, runs⟩ := lateMembers_outcome (worksOn_interfaceFile _)
  obtain ⟨emitted, reportsOf, -, sorted, same, hears⟩ :=
    runs config result (List.mem_singleton_self _) ran
  obtain ⟨⟨parent, places, named, -, mem, tells⟩, -⟩ :=
    (answers root _ _ _ (hears root .refl)).1 _ (.interface rfl rfl)
  obtain rfl : "IUser" = parent := Except.ok.inj named
  have nickname := MemberOrder.isSignedBy_signatureOf (by decide : "nickname" ≠ "") true
  have id := MemberOrder.isSignedBy_signatureOf (by decide : "id" ≠ "") false
  have late : 1 ∈ places :=
    (mem 1).mpr ⟨_, ⟨_, rfl, id⟩, rfl, 0, Nat.one_pos, _, ⟨_, rfl, nickname⟩, rfl⟩
  obtain ⟨v, reported, p, holds, marks⟩ := exists_of_forall₂ tells.flip late
  obtain ⟨t, placed, found⟩ := MemberOrder.holds_iff.mp holds
  cases placed
  cases (MemberOrder.property?_of_signed id).symm.trans found
  have among : v ∈ emitted.filter (·.ruleId == MemberOrder.rule.name) := by
    rw [same]
    exact List.mem_flatMap.mpr ⟨root, Cursor.mem_preorder_iff.mpr .refl, reported⟩
  exact ⟨result, ran, v, sorted.perm.symm.subset (List.mem_of_mem_filter among), marks.message⟩

end Lint

end TreeLint
