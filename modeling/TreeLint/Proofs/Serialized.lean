import TreeLint.Proofs.Failing
import TreeLint.Proofs.Loading
import TreeLint.Proofs.Table

/-! What serializes a tree. A value becomes a tree when the types of its nodes can be shown and lists
are not nested too deeply; and its comments can be read when they stand in something that has items,
with whole numbers for offsets and with kinds and texts that can be shown. -/

namespace TreeLint

variable [Host]

namespace Tree

/-- A member of a node that becomes a tree. -/
def IsField (key : String) : Prop := isReservedKey key = false ∧ isDataKey key = false

/-- A value becomes a tree, with some lists around it already: the types of its nodes can be shown,
and there are not too many lists directly around a part of it. -/
inductive Wraps : Nat → Value → Prop
  | list {around : Nat} {items : List Value} : around ≤ Host.listLevels →
      (∀ item ∈ items, Wraps (around + 1) item) → Wraps around (.list items)
  | node {around : Nat} {members : Members} {type : Value} : around ≤ Host.listLevels →
      members.lookup "type" = some type → type.Showable (Host.typeLevels around) →
      (∀ member ∈ members, IsField member.1 → Wraps 0 member.2) → Wraps around (.object members)
  | data {around : Nat} {members : Members} : around ≤ Host.listLevels →
      members.lookup "type" = none → Wraps around (.object members)
  | leaf {around : Nat} {v : Value} : around ≤ Host.listLevels → (∀ items, v ≠ .list items) →
      (∀ members, v ≠ .object members) → Wraps around v

/-- An object becomes the root of a tree: its type can be shown, and its fields become trees. -/
structure Roots (members : Members) (type : Value) : Prop where
  held : members.lookup "type" = some type
  shown : type.Showable Host.rootLevels
  inside : ∀ member ∈ members, IsField member.1 → Wraps 0 member.2

variable {around : Nat}

theorem Wraps.room {v : Value} (wraps : Wraps around v) : around ≤ Host.listLevels := by
  cases wraps <;> assumption

theorem wraps_list_iff {items : List Value} : Wraps around (.list items) ↔
    around ≤ Host.listLevels ∧ ∀ item ∈ items, Wraps (around + 1) item := by
  constructor
  · intro wraps
    cases wraps with
    | list room inside => exact ⟨room, inside⟩
    | leaf _ other => exact absurd rfl (other items)
  · rintro ⟨room, inside⟩
    exact .list room inside

theorem wraps_object_iff {members : Members} : Wraps around (.object members) ↔
    around ≤ Host.listLevels ∧ ∀ type, members.lookup "type" = some type →
      type.Showable (Host.typeLevels around) ∧
        ∀ member ∈ members, IsField member.1 → Wraps 0 member.2 := by
  constructor
  · intro wraps
    refine ⟨wraps.room, fun type held => ?_⟩
    cases wraps with
    | node _ given shown inside =>
      rw [held, Option.some.injEq] at given
      exact ⟨given ▸ shown, inside⟩
    | data _ none => simp [held] at none
    | leaf _ _ other => exact absurd rfl (other members)
  · rintro ⟨room, wraps⟩
    cases held : members.lookup "type" with
    | none => exact .data room held
    | some type =>
      obtain ⟨shown, inside⟩ := wraps type held
      exact .node room held shown inside

mutual

/-- The checks of the nesting let through just the values that become trees. -/
theorem checkDepth_ok_iff (around : Nat) : ∀ v : Value,
    checkDepth around v = .ok () ∧ checkInside v = .ok () ↔ Wraps around v
  | .list items => by
    rw [wraps_list_iff, checkDepth, checkInside, ← checkItems_ok_iff (around + 1) items]
    by_cases room : around ≤ Host.listLevels
    · simp [room, Nat.not_lt.mpr room]
    · simp [room, Nat.lt_of_not_le room]
  | .object members => by
    rw [wraps_object_iff, checkDepth, checkInside]
    by_cases room : around ≤ Host.listLevels
    · rw [if_neg (Nat.not_lt.mpr room)]
      cases held : members.lookup "type" with
      | none => simp [room]
      | some type =>
        dsimp only
        rw [check_bind_ok_iff, checkMembers_ok_iff members, ← Value.showable_iff]
        simp [room]
    · simp [room, Nat.lt_of_not_le room]
  | .null | .bool _ | .int _ | .float _ | .str _ | .moment _ => by
    unfold checkDepth checkInside
    by_cases room : around ≤ Host.listLevels
    · rw [if_neg (Nat.not_lt.mpr room)]
      refine iff_of_true ⟨rfl, rfl⟩ (.leaf room ?_ ?_)
      · nofun
      · nofun
    · simp only [Nat.lt_of_not_le room, if_true]
      exact iff_of_false nofun fun wraps => room wraps.room

theorem checkItems_ok_iff (around : Nat) : ∀ items : List Value,
    checkItems around items = .ok () ∧ checkInsideItems items = .ok () ↔
      ∀ item ∈ items, Wraps around item
  | [] => by simp [checkItems, checkInsideItems]
  | item :: rest => by
    rw [checkItems, checkInsideItems, check_bind_ok_iff, check_bind_ok_iff, List.forall_mem_cons,
      ← checkDepth_ok_iff around item, ← checkItems_ok_iff around rest,
      and_comm (a := checkInsideItems rest = .ok ()), and_and_and_comm]

theorem checkMembers_ok_iff : ∀ members : List (String × Value),
    checkMembers members = .ok () ∧ checkInsideMembers members = .ok () ↔
      ∀ member ∈ members, IsField member.1 → Wraps 0 member.2
  | [] => by simp [checkMembers, checkInsideMembers]
  | (key, v) :: rest => by
    rw [checkMembers, checkInsideMembers, List.forall_mem_cons, ← checkMembers_ok_iff rest]
    by_cases field : IsField key
    · simp only [field.1, field.2, field, Bool.not_false, Bool.and_self, if_true, check_bind_ok_iff,
        forall_const, ← checkDepth_ok_iff 0 v]
      rw [and_comm (a := checkInsideMembers rest = .ok ()), and_and_and_comm]
    · -- a member that is passed over is asked for nothing, on either side
      have skipped : (!isReservedKey key && !isDataKey key) = false := by
        simpa [IsField] using field
      simp [skipped, field]

end

theorem root_ok_iff {members : Members} {n : Node} : Tree.root (.object members) = .ok n ↔
    ∃ type, Roots members type ∧ n = ⟨type.plain, ofMembers members⟩ := by
  unfold Tree.root
  dsimp only
  cases held : members.lookup "type" with
  | none =>
    constructor
    · nofun
    · rintro ⟨type, roots, -⟩
      cases held.symm.trans roots.held
  | some type =>
    have checked : checkInside (.object members) = .ok () ↔
        ∀ member ∈ members, IsField member.1 → Wraps 0 member.2 := by
      rw [checkInside, held]
      dsimp only
      rw [check_bind_ok_iff, checkMembers_ok_iff]
    rw [check_bind_ok_iff, check_bind_ok_iff, ← Value.showable_iff, checked]
    constructor
    · rintro ⟨shown, inside, made⟩
      cases made
      exact ⟨type, ⟨held, shown, inside⟩, rfl⟩
    · rintro ⟨other, ⟨given, shown, inside⟩, rfl⟩
      rw [held, Option.some.injEq] at given
      subst given
      exact ⟨shown, inside, rfl⟩

theorem lookup_ofMembers (key : String) (members : Members) :
    (ofMembers members).lookup key = if isReservedKey key then none
      else (members.lookup key).map fun v => if isDataKey key then .value v else ofValue v := by
  induction members with
  | nil => simp [ofMembers]
  | cons member rest ih =>
    obtain ⟨other, v⟩ := member
    rw [ofMembers, Table.lookup_cons_eq_ite]
    by_cases same : other = key
    · subst same
      split
      · rename_i reserved
        rw [ih, if_pos reserved]
      · simp
    · rw [if_neg same, ← ih]
      split
      · rfl
      · rw [Table.lookup_cons_eq_ite, if_neg same]

/-- The comments of a root stay as they were written. -/
theorem root_comments {members : Members} {n : Node}
    (rooted : Tree.root (.object members) = .ok n) :
    n.get "comments" = .value ((members.lookup "comments").getD .null) := by
  obtain ⟨type, -, rfl⟩ := root_ok_iff.mp rooted
  unfold Node.get
  rw [lookup_ofMembers, if_neg (by decide)]
  cases members.lookup "comments" <;> rfl

end Tree

namespace Comment

/-- A serialized comment has offsets: a range of two values, or a start and an end. -/
def HasOffsets (members : Members) : Prop :=
  (∃ first last, members.lookup "range" = some (.list [first, last])) ∨
    ∃ first last, (members.lookup "start").bind Value.ordinal? = some first ∧
      (members.lookup "end").bind Value.ordinal? = some last

/-- A serialized comment can be read: the two values of a range are numbers, and a comment that has
offsets has a kind and a text that can be shown, where it has them. -/
structure Legible (members : Members) : Prop where
  whole : ∀ first last, members.lookup "range" = some (.list [first, last]) →
    (∃ n, first.whole = .ok n) ∧ ∃ n, last.whole = .ok n
  shown : HasOffsets members → ∀ key ∈ ["type", "value"], ∀ v, members.lookup key = some v →
    v.Showable Host.commentLevels

/-- What stands in the place of the comments can be read: nothing, or something that has items, of
which the objects are comments that can be read. -/
inductive Listing : Value → Prop
  | none {v : Value} : v.isTruthy = false → Listing v
  | text (s : String) : Listing (.str s)
  | keys (members : Members) : Listing (.object members)
  | list {items : List Value} : (∀ members, .object members ∈ items → Legible members) →
      Listing (.list items)

variable {members : Members}

omit [Host] in
theorem span?_of_range {first last : Value}
    (held : members.lookup "range" = some (.list [first, last])) :
    span? members = do return some (← first.whole, ← last.whole) := by
  simp [span?, held]

omit [Host] in
/-- Without a range of two values the offsets are the start and the end, where both are there. -/
theorem span?_of_ends (other : ∀ first last, members.lookup "range" ≠ some (.list [first, last])) :
    ∃ span, span? members = .ok span ∧ (span.isSome = true ↔ HasOffsets members) := by
  have ends : HasOffsets members ↔
      ∃ first last, (members.lookup "start").bind Value.ordinal? = some first ∧
        (members.lookup "end").bind Value.ordinal? = some last := by
    simp [HasOffsets, other]
  unfold span?
  rw [ends]
  split
  · rename_i first last held
    exact absurd held (other first last)
  · split
    · rename_i first last start stop
      exact ⟨_, rfl, by simp [start, stop]⟩
    · rename_i none
      refine ⟨_, rfl, ?_⟩
      simp only [Option.isSome_none, Bool.false_eq_true, false_iff]
      rintro ⟨first, last, start, stop⟩
      exact none first last start stop

omit [Host] in
theorem span?_isSome {span : Option (Int × Int)} (told : span? members = .ok span) :
    span.isSome = true ↔ HasOffsets members := by
  by_cases ranged : ∃ first last, members.lookup "range" = some (.list [first, last])
  · obtain ⟨first, last, held⟩ := ranged
    rw [span?_of_range held] at told
    obtain ⟨n, -, told⟩ := bind_ok_iff.mp told
    obtain ⟨m, -, told⟩ := bind_ok_iff.mp told
    cases told
    simp [HasOffsets, held]
  · obtain ⟨found, same, offsets⟩ :=
      span?_of_ends fun first last held => ranged ⟨first, last, held⟩
    rw [told, Except.ok.injEq] at same
    exact same ▸ offsets

omit [Host] in
/-- The offsets of a comment can be read just when a range of two values holds numbers. -/
theorem span?_ok_iff : (∃ span, span? members = .ok span) ↔
    ∀ first last, members.lookup "range" = some (.list [first, last]) →
      (∃ n, first.whole = .ok n) ∧ ∃ n, last.whole = .ok n := by
  constructor
  · rintro ⟨span, told⟩ first last held
    rw [span?_of_range held] at told
    obtain ⟨n, start, told⟩ := bind_ok_iff.mp told
    obtain ⟨m, stop, -⟩ := bind_ok_iff.mp told
    exact ⟨⟨n, start⟩, m, stop⟩
  · intro whole
    by_cases ranged : ∃ first last, members.lookup "range" = some (.list [first, last])
    · obtain ⟨first, last, held⟩ := ranged
      obtain ⟨⟨n, start⟩, m, stop⟩ := whole first last held
      rw [span?_of_range held, start, stop]
      exact ⟨some (n, m), rfl⟩
    · obtain ⟨span, told, -⟩ :=
        span?_of_ends fun first last held => ranged ⟨first, last, held⟩
      exact ⟨span, told⟩

theorem textOf_ok_iff {key : String} : (∃ text, textOf members key = .ok text) ↔
    ∀ v, members.lookup key = some v → v.Showable Host.commentLevels := by
  unfold textOf
  cases held : members.lookup key with
  | none => simp
  | some v =>
    change (∃ text, v.shownPlain Host.commentLevels = .ok text) ↔ _
    unfold Value.shownPlain
    simp only [check_bind_ok_iff, exists_and_left, ← Value.showable_iff]
    simp [Pure.pure, Except.pure]

theorem ofMembers?_of_span {span : Option (Int × Int)} (told : span? members = .ok span) :
    (∃ comment, ofMembers? members = .ok comment) ↔ (span.isSome = true →
      ∀ key ∈ ["type", "value"], ∀ v, members.lookup key = some v →
        v.Showable Host.commentLevels) := by
  unfold ofMembers?
  rw [told, exists_bind_ok_iff]
  cases span with
  | none => simp [Pure.pure, Except.pure]
  | some span =>
    simp only [Except.ok.injEq, exists_eq_left', exists_bind_ok_iff]
    simp [← textOf_ok_iff, Pure.pure, Except.pure]

/-- A serialized comment is read just when it is legible. -/
theorem ofMembers?_ok_iff : (∃ comment, ofMembers? members = .ok comment) ↔ Legible members := by
  constructor
  · rintro ⟨comment, made⟩
    obtain ⟨span, told, -⟩ := bind_ok_iff.mp made
    refine ⟨span?_ok_iff.mp ⟨span, told⟩, fun offsets => ?_⟩
    exact (ofMembers?_of_span told).mp ⟨comment, made⟩ ((span?_isSome told).mpr offsets)
  · intro legible
    obtain ⟨span, told⟩ := span?_ok_iff.mpr legible.whole
    exact (ofMembers?_of_span told).mpr fun some => legible.shown ((span?_isSome told).mp some)

theorem ofItems_ok_iff {items : List Value} : (∃ comments, ofItems items = .ok comments) ↔
    ∀ members, .object members ∈ items → Legible members := by
  induction items with
  | nil => simp [ofItems]
  | cons item rest ih =>
    cases item with
    | object members =>
      have split : (∃ comments, ofItems (.object members :: rest) = .ok comments) ↔
          (∃ comment, ofMembers? members = .ok comment) ∧
            ∃ comments, ofItems rest = .ok comments := by
        rw [ofItems, exists_bind_ok_iff]
        simp [exists_bind_ok_iff, Pure.pure, Except.pure]
      rw [split, ofMembers?_ok_iff, ih]
      constructor
      · rintro ⟨here, others⟩ given member
        rcases List.mem_cons.mp member with same | later
        · cases same
          exact here
        · exact others given later
      · intro each
        exact ⟨each members List.mem_cons_self, fun given later => each given (.tail _ later)⟩
    | _ => simpa [ofItems] using ih

theorem listing_iff {v : Value} : Listing v ↔ v.isTruthy = true →
    ∃ items, v.items = .ok items ∧ ∀ members, .object members ∈ items → Legible members := by
  constructor
  · intro listing truthy
    cases listing with
    | none falsy => simp [falsy] at truthy
    | text s => exact ⟨_, rfl, by simp⟩
    | keys members => exact ⟨_, rfl, by simp⟩
    | list each => exact ⟨_, rfl, each⟩
  · intro each
    by_cases truthy : v.isTruthy = true
    · obtain ⟨items, held, legible⟩ := each truthy
      cases v with
      | list given =>
        cases held
        exact .list legible
      | str s => exact .text s
      | object members => exact .keys members
      | _ => cases held
    · exact .none (by simpa using truthy)

/-- The comments of a root can be read just when what stands in their place is a listing of them. -/
theorem ofRoot_ok_iff {root : Node} {v : Value} (held : root.get "comments" = .value v) :
    (∃ comments, ofRoot root = .ok comments) ↔ Listing v := by
  unfold ofRoot
  rw [held]
  dsimp only
  rw [exists_bind_ok_iff, listing_iff]
  unfold Value.itemsOrNone
  by_cases truthy : v.isTruthy = true
  · simp [truthy, ofItems_ok_iff]
  · simp [truthy, ofItems_ok_iff]

end Comment

end TreeLint
