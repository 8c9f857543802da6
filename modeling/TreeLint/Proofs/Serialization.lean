import TreeLint.Proofs.AlikeRuns
import TreeLint.Proofs.LoadedTree
import TreeLint.Proofs.Serialized

/-! Details of serialization. How the members of a node are ordered is not seen where its type tells
the fields of its children, and the parents and tokens that a parser writes down are never seen: a
value that differs from another in these alone becomes a tree if that one does, the trees are alike,
and the runs on them have one result, or stop at one fault. -/

namespace TreeLint

namespace Value

/-- Members of a node beside its own: the parent, and the tokens. -/
def isAside (key : String) : Bool := key == "parent" || key == "tokens"

/-- The keys of the members of a node that are its own, in order. -/
def ownKeys (members : Members) : List String := (members.map (·.1)).filter (!isAside ·)

theorem exists_lookup_of_perm {members others : Members}
    (keys : (ownKeys members).Perm (ownKeys others)) {key : String} (own : isAside key = false)
    {v : Value} (held : members.lookup key = some v) : ∃ w, others.lookup key = some w := by
  have listed : key ∈ ownKeys members :=
    List.mem_filter.mpr ⟨List.mem_map_of_mem (Table.mem_of_lookup held), by simp [own]⟩
  have there := (List.mem_filter.mp (keys.mem_iff.mp listed)).1
  rw [← Option.isSome_iff_exists, Option.isSome_iff_ne_none]
  intro absent
  exact Table.lookup_none_iff.mp absent there

variable [Host]

/-- Values that serialize one tree. Two nodes may differ in their parents and tokens, and in the
order of their own members if their type is known; members that are kept as data are the same. -/
inductive Alike : Value → Value → Prop
  | same (v : Value) : Alike v v
  | list {items others : List Value} : items.length = others.length →
      (∀ (i : Nat) (low : i < items.length) (high : i < others.length),
        Alike (items.get ⟨i, low⟩) (others.get ⟨i, high⟩)) →
      Alike (.list items) (.list others)
  | node {members others : Members} {type : Value} : members.lookup "type" = some type →
      others.lookup "type" = some type →
      (ownKeys members).Perm (ownKeys others) →
      (childKeysOfType.lookup type.plain = none → ownKeys members = ownKeys others) →
      (∀ one ∈ members, ∀ two ∈ others, isAside one.1 = false → one.1 = two.1 →
        Tree.isDataKey one.1 = true → one.2 = two.2) →
      (∀ one ∈ members, ∀ two ∈ others, isAside one.1 = false → one.1 = two.1 →
        Alike one.2 two.2) →
      Alike (.object members) (.object others)

end Value

namespace Tree

/-- Members beside the own ones hold no children. -/
theorem childFields_ownKeys (members : Members) :
    (Value.ownKeys members).filter (!Node.isPlainKey ·) =
      (members.map (·.1)).filter (!Node.isPlainKey ·) := by
  rw [Value.ownKeys, List.filter_filter]
  apply List.filter_congr
  intro key _
  cases aside : Value.isAside key with
  | true =>
    have plain : Node.isPlainKey key = true := by
      simp only [Value.isAside, Bool.or_eq_true, beq_iff_eq] at aside
      obtain rfl | rfl := aside <;> decide
    simp [plain]
  | false => simp

theorem isAside_eq_false {key : String} (kept : isReservedKey key = false)
    (other : key ≠ "tokens") : Value.isAside key = false := by
  simp only [isReservedKey, Bool.or_eq_false_iff, beq_eq_false_iff_ne] at kept
  simp [Value.isAside, kept.2, other]

/-- Every field of a node stands for a field of any other node that serializes the same. -/
theorem exists_field_alike {members others : Members}
    (keys : (Value.ownKeys members).Perm (Value.ownKeys others)) {two : String × Value}
    (listed : two ∈ others) (field : IsField two.1) :
    ∃ one ∈ members, Value.isAside one.1 = false ∧ one.1 = two.1 := by
  have own : Value.isAside two.1 = false := by
    apply isAside_eq_false field.1
    intro tokens
    simp [IsField, tokens, isDataKey] at field
  have named : two.1 ∈ Value.ownKeys members := by
    apply keys.mem_iff.mpr
    exact List.mem_filter.mpr ⟨List.mem_map_of_mem listed, by simp [own]⟩
  obtain ⟨one, old, same⟩ := List.mem_map.mp (List.mem_filter.mp named).1
  exact ⟨one, old, same ▸ own, same⟩

variable [Host]

theorem ofItems_eq_map (items : List Value) : ofItems items = items.map ofValue := by
  induction items with
  | nil => rfl
  | cons item rest ih => rw [ofItems, ih, List.map_cons]

theorem childFields_ofMembers (members : Members) :
    ((ofMembers members).map (·.1)).filter (!Node.isPlainKey ·) =
      (members.map (·.1)).filter (!Node.isPlainKey ·) := by
  induction members with
  | nil => rfl
  | cons member rest ih =>
    obtain ⟨key, v⟩ := member
    rw [ofMembers, List.map_cons, List.filter_cons, ← ih]
    cases reserved : isReservedKey key with
    | true =>
      have plain : Node.isPlainKey key = true := by
        simp only [isReservedKey, Bool.or_eq_true, beq_iff_eq] at reserved
        obtain rfl | rfl := reserved <;> decide
      simp [plain]
    | false => simp [List.filter_cons]

theorem childKeys_ofMembers {type : String} {members others : Members}
    (order : childKeysOfType.lookup type = none →
      Value.ownKeys members = Value.ownKeys others) :
    (Node.mk type (ofMembers members)).childKeys = (Node.mk type (ofMembers others)).childKeys := by
  unfold Node.childKeys
  dsimp only
  cases known : childKeysOfType.lookup type with
  | some keys => rfl
  | none =>
    dsimp only
    rw [childFields_ofMembers, childFields_ofMembers, ← childFields_ownKeys, order known,
      childFields_ownKeys]

theorem get_ofMembers_alike {type : String} {members others : Members}
    (keys : (Value.ownKeys members).Perm (Value.ownKeys others))
    (data : ∀ one ∈ members, ∀ two ∈ others, Value.isAside one.1 = false → one.1 = two.1 →
      isDataKey one.1 = true → one.2 = two.2)
    (inside : ∀ one ∈ members, ∀ two ∈ others, Value.isAside one.1 = false → one.1 = two.1 →
      (ofValue one.2).Alike (ofValue two.2)) {key : String} (other : key ≠ "tokens") :
    ((Node.mk type (ofMembers members)).get key).Alike
      ((Node.mk type (ofMembers others)).get key) := by
  rw [Node.get, Node.get, lookup_ofMembers, lookup_ofMembers]
  split
  · exact .value .null
  · rename_i kept
    have own := isAside_eq_false (Bool.eq_false_iff.mpr kept) other
    cases first : members.lookup key with
    | none =>
      have second : others.lookup key = none := by
        by_contra there
        obtain ⟨w, second⟩ := Option.ne_none_iff_exists'.mp there
        obtain ⟨v, found⟩ := Value.exists_lookup_of_perm keys.symm own second
        simp [first] at found
      rw [second]
      exact .value .null
    | some v =>
      obtain ⟨w, second⟩ := Value.exists_lookup_of_perm keys own first
      have here := Table.mem_of_lookup first
      have there := Table.mem_of_lookup second
      rw [second]
      simp only [Option.map_some, Option.getD_some]
      split
      · have same := data _ here _ there own rfl ‹_›
        dsimp only at same
        rw [same]
        exact .value w
      · exact inside _ here _ there own rfl

/-- Values that serialize one tree become alike trees. -/
theorem ofValue_alike {v w : Value} (alike : v.Alike w) : (ofValue v).Alike (ofValue w) := by
  induction alike with
  | same v => exact .refl _
  | @list items others length _ ih =>
    rw [ofValue, ofValue, alike_list_iff, ofItems_eq_map, ofItems_eq_map,
      List.forall₂_map_left_iff, List.forall₂_map_right_iff]
    exact List.forall₂_iff_get.mpr ⟨length, ih⟩
  | @node members others type held held' keys order data _ ih =>
    have nodes : (Node.mk type.plain (ofMembers members)).Alike
        ⟨type.plain, ofMembers others⟩ :=
      ⟨rfl, childKeys_ofMembers order, fun _ other => get_ofMembers_alike keys data ih other⟩
    rw [ofValue, ofValue, held, held']
    exact alike_node_iff.mpr nodes

theorem toTree_of_root {v : Value} {n : Node} (rooted : Tree.root v = .ok n) :
    n.toTree = ofValue v := by
  cases v with
  | object members =>
    obtain ⟨type, roots, rfl⟩ := root_ok_iff.mp rooted
    rw [ofValue, roots.held]
    rfl
  | _ => cases rooted

theorem wraps_alike {v w : Value} (alike : v.Alike w) (distinct : w.Distinct) {around : Nat}
    (wraps : Wraps around v) : Wraps around w := by
  induction alike generalizing around with
  | same v => exact wraps
  | @list items others length _ ih =>
    obtain ⟨room, inside⟩ := wraps_list_iff.mp wraps
    cases distinct with
    | list distinct =>
      refine .list room fun item member => ?_
      obtain ⟨i, high, rfl⟩ := List.mem_iff_getElem.mp member
      have low : i < items.length := length ▸ high
      exact ih i low high (distinct _ member) (inside _ (List.getElem_mem low))
  | @node members others type held held' keys _ _ _ ih =>
    obtain ⟨room, typed⟩ := wraps_object_iff.mp wraps
    obtain ⟨shown, inside⟩ := typed type held
    cases distinct with
    | object _ distinct =>
      refine .node room held' shown fun two listed field => ?_
      obtain ⟨one, old, own, same⟩ := exists_field_alike keys listed field
      exact ih one old two listed own same (distinct two listed) (inside one old (same ▸ field))

theorem root_alike {v w : Value} (alike : v.Alike w) {one two : Node}
    (first : Tree.root v = .ok one) (second : Tree.root w = .ok two) : one.Alike two := by
  apply alike_node_iff.mp
  rw [toTree_of_root first, toTree_of_root second]
  exact ofValue_alike alike

theorem exists_root_alike {v w : Value} (alike : v.Alike w) (distinct : w.Distinct) {one : Node}
    (rooted : Tree.root v = .ok one) : ∃ two, Tree.root w = .ok two := by
  cases alike with
  | same v => exact ⟨one, rooted⟩
  | list => cases rooted
  | node held held' keys order data inside =>
    obtain ⟨type, roots, -⟩ := root_ok_iff.mp rooted
    obtain rfl := Option.some.inj (held.symm.trans roots.held)
    cases distinct with
    | object _ distinct =>
      refine ⟨_, root_ok_iff.mpr ⟨_, ⟨held', roots.shown, fun two listed field => ?_⟩, rfl⟩⟩
      obtain ⟨one, old, own, same⟩ := exists_field_alike keys listed field
      exact wraps_alike (inside one old two listed own same) (distinct two listed)
        (roots.inside one old (same ▸ field))

end Tree

/-- Alike roots list the same comments. -/
theorem Comment.ofRoot_alike [Host] {one two : Node} (alike : one.Alike two) :
    Comment.ofRoot one = Comment.ofRoot two := by
  have held := alike.field "comments" rfl
  unfold Comment.ofRoot
  generalize one.get "comments" = t at held
  generalize two.get "comments" = u at held
  cases held with
  | value v => rfl
  | list length inside =>
    apply (Tree.Alike.items (.list length inside)).bind_eq
    intro items others related
    congr 1
    rw [← List.forall₂_eq_eq_eq, List.forall₂_map_left_iff, List.forall₂_map_right_iff]
    apply related.imp
    intro t u same
    cases same <;> rfl
  | node => rfl

namespace Lint

/-- Details of serialization do not matter: if a value becomes a tree, then so does a value that
serializes the same tree, and with the same text a run gives the same result for both, or stops at
the same fault, whatever the configuration and the name of the file. -/
theorem run_serialized [Host] {v w : Value} (alike : v.Alike w) {one : Node}
    (rooted : Tree.root v = .ok one) : (w.Distinct → ∃ two, Tree.root w = .ok two) ∧
    ∀ two, Tree.root w = .ok two → ∀ (text : List Char) (config : Configuration)
      (filename path cwd : Option String),
      (do run config ⟨filename, ← SourceCode.ofTree text one, path⟩ cwd) =
        (do run config ⟨filename, ← SourceCode.ofTree text two, path⟩ cwd) := by
  refine ⟨fun distinct => Tree.exists_root_alike alike distinct rooted, ?_⟩
  intro two rooted' text config filename path cwd
  have nodes := Tree.root_alike alike rooted rooted'
  unfold SourceCode.ofTree
  rw [Comment.ofRoot_alike nodes]
  cases Comment.ofRoot two with
  | error fault => rfl
  | ok comments => exact run_alike nodes config

/-- A default export, as one parser writes it. -/
def writtenExport : Value :=
  .object [("type", .str "Program"), ("comments", .list []),
    ("body", .list [.object [("type", .str "ExportDefaultDeclaration"), ("declaration", .null),
      ("range", .list [.int 0, .int 20])]])]

/-- The same export as another parser writes it, with the parent and the tokens. -/
def movedExport : Value :=
  .object [("tokens", .list [.str "export"]),
    ("body", .list [.object [("range", .list [.int 0, .int 20]), ("parent", .str "Program"),
      ("type", .str "ExportDefaultDeclaration"), ("declaration", .null)]]),
    ("comments", .list []), ("type", .str "Program")]

attribute [local instance] Host.usual in
theorem export_alike : writtenExport.Alike movedExport := by
  have body : (Value.list [.object [("type", .str "ExportDefaultDeclaration"),
      ("declaration", .null), ("range", .list [.int 0, .int 20])]]).Alike
      (.list [.object [("range", .list [.int 0, .int 20]), ("parent", .str "Program"),
        ("type", .str "ExportDefaultDeclaration"), ("declaration", .null)]]) := by
    refine .list rfl fun i low _ => ?_
    obtain rfl : i = 0 := by simpa using low
    refine .node rfl rfl (by decide) (fun unknown => absurd unknown (by decide)) (by simp) ?_
    simp [Value.Alike.same]
  refine .node rfl rfl (by decide) (fun unknown => absurd unknown (by decide))
    (by simp [Tree.isDataKey]) ?_
  simp [Value.Alike.same, body]

theorem movedExport_distinct : movedExport.Distinct := by
  have offsets : (Value.list [.int 0, .int 20]).Distinct :=
    .list (by simp [Value.Distinct.int])
  have statement : (Value.object [("range", .list [.int 0, .int 20]), ("parent", .str "Program"),
      ("type", .str "ExportDefaultDeclaration"), ("declaration", .null)]).Distinct :=
    .object (by decide) (by simp [offsets, Value.Distinct.str, Value.Distinct.null])
  have body := Value.Distinct.list (List.forall_mem_singleton.mpr statement)
  have tokens : (Value.list [.str "export"]).Distinct := .list (by simp [Value.Distinct.str])
  have comments : (Value.list []).Distinct := .list (by simp)
  exact .object (by decide) (by simp [tokens, body, comments, Value.Distinct.str])

/-- Only the rule on default exports is at work. -/
def exportOnly : Configuration := ⟨[], [("no-default-export", ⟨.error, []⟩)]⟩

attribute [local instance] Host.usual in
/-- Both serializations have the export reported. -/
theorem run_serialized_export : ∃ one two result, Tree.root writtenExport = .ok one ∧
    Tree.root movedExport = .ok two ∧
    (do run exportOnly ⟨some "a.ts", ← SourceCode.ofTree [] one, none⟩ none) = .ok result ∧
    (do run exportOnly ⟨some "a.ts", ← SourceCode.ofTree [] two, none⟩ none) = .ok result ∧
    result.violations.map (·.messageId) = ["noDefaultExport"] := by
  let one : Node := ⟨"Program", [("comments", .value (.list [])),
    ("body", .list [.node "ExportDefaultDeclaration" [("declaration", .null),
      ("range", .value (.list [.int 0, .int 20]))]])]⟩
  have rooted : Tree.root writtenExport = .ok one := rfl
  have gives : (do run exportOnly ⟨some "a.ts", ← SourceCode.ofTree [] one, none⟩ none :
      Read LintResult).toOption.map (·.violations.map (·.messageId)) =
        some ["noDefaultExport"] := by
    decide +kernel
  obtain ⟨becomes, same⟩ := run_serialized export_alike rooted
  obtain ⟨two, rooted'⟩ := becomes movedExport_distinct
  cases ran : (do run exportOnly ⟨some "a.ts", ← SourceCode.ofTree [] one, none⟩ none) with
  | error fault =>
    rw [ran] at gives
    cases gives
  | ok result =>
    rw [ran] at gives
    have again := same two rooted' [] exportOnly (some "a.ts") none none
    exact ⟨one, two, result, rooted, rooted', ran, again.symm.trans ran, Option.some.inj gives⟩

end Lint

end TreeLint
