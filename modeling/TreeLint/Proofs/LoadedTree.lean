import TreeLint.Proofs.Address
import TreeLint.Proofs.Loading
import TreeLint.Proofs.Table

/-! Trees that are loaded. The reader of documents keeps one value for each key of an object, so no
node of a loaded tree has two fields of one name. -/

namespace TreeLint

/-- No object inside a value has two members of one key. -/
inductive Value.Distinct : Value → Prop
  | null : Distinct .null
  | bool (b : Bool) : Distinct (.bool b)
  | int (n : Int) : Distinct (.int n)
  | float (x : Binary64) : Distinct (.float x)
  | str (s : String) : Distinct (.str s)
  | list {items : List Value} (inside : ∀ item ∈ items, item.Distinct) : Distinct (.list items)
  | object {members : Members} (keys : (members.map (·.1)).Nodup)
      (inside : ∀ member ∈ members, member.2.Distinct) : Distinct (.object members)

namespace Json

/-- What an open container holds so far. -/
def Frame.Distinct : Frame → Prop
  | .list done => ∀ v ∈ done, v.Distinct
  | .object done _ => ∀ member ∈ done, member.2.Distinct

/-- What is to be put where it belongs. -/
def State.Distinct : State → Prop
  | .expect => True
  | .complete v => v.Distinct

theorem unsigned_distinct {negative : Bool} {cs rest : List Char} {v : Value}
    (read : unsigned negative cs = .ok (some (v, rest))) : v.Distinct := by
  unfold unsigned at read
  simp only at read
  split at read
  · cases read
  · split at read
    · split at read
      · cases read
      · cases read
        exact .int _
    · cases read
      exact .float _

theorem scalar_distinct {cs rest : List Char} {v : Value} (read : scalar cs = .ok (v, rest)) :
    v.Distinct := by
  have known : ∀ entry ∈ words, entry.2.Distinct := by
    simp only [words, List.forall_mem_cons, List.not_mem_nil, false_implies, implies_true, and_true]
    exact ⟨.null, .bool _, .bool _, .float _, .float _, .float _⟩
  unfold scalar at read
  split at read
  · rename_i word value found
    cases read
    exact known (word, _) (List.mem_of_find?_eq_some found)
  · simp only at read
    split at read
    all_goals
      obtain ⟨number, taken, given⟩ := bind_ok_iff.mp read
      cases number with
      | none => cases given
      | some found =>
        cases given
        exact unsigned_distinct taken

/-- The reader puts values that are distinct inside into containers that are. -/
theorem run_distinct [Host] {levels fuel : Nat} {stack : List Frame} {state : State}
    {cs rest : List Char} {v : Value} (read : run levels fuel stack state cs = .ok (v, rest))
    (held : ∀ frame ∈ stack, frame.Distinct) (current : state.Distinct) : v.Distinct := by
  have onTop {frame : Frame} {outer : List Frame} (top : frame.Distinct)
      (below : ∀ frame ∈ outer, frame.Distinct) : ∀ f ∈ frame :: outer, f.Distinct :=
    List.forall_mem_cons.mpr ⟨top, below⟩
  fun_induction run levels fuel stack state cs
  case case3 ih => exact ih read held (.str _)
  case case5 ih => exact ih read held (.list (by simp))
  case case6 ih => exact ih read (onTop (by simp [Frame.Distinct]) held) trivial
  case case8 ih => exact ih read held (.object .nil (by simp))
  case case10 ih => exact ih read (onTop (by simp [Frame.Distinct]) held) trivial
  case case12 made ih => exact ih read held (scalar_distinct made)
  case case13 =>
    cases read
    exact current
  case case14 ih =>
    obtain ⟨top, below⟩ := List.forall_mem_cons.mp held
    refine ih read below (.list fun item member => ?_)
    rcases List.mem_cons.mp (List.mem_reverse.mp member) with rfl | old
    · exact current
    · exact top item old
  case case15 ih =>
    obtain ⟨top, below⟩ := List.forall_mem_cons.mp held
    exact ih read (onTop (List.forall_mem_cons.mpr ⟨current, top⟩) below) trivial
  case case17 ih =>
    obtain ⟨top, below⟩ := List.forall_mem_cons.mp held
    refine ih read below (.object (Table.keys_ofEntries_nodup _) fun entry member => ?_)
    rcases List.mem_cons.mp (List.mem_reverse.mp (Table.mem_of_mem_ofEntries member)) with rfl | old
    · exact current
    · exact top entry old
  case case19 ih =>
    obtain ⟨top, below⟩ := List.forall_mem_cons.mp held
    exact ih read (onTop (List.forall_mem_cons.mpr ⟨current, top⟩) below) trivial
  all_goals cases read

theorem parse_distinct [Host] {levels : Nat} {text : List Char} {v : Value}
    (parsed : parse levels text = .ok v) : v.Distinct := by
  unfold parse at parsed
  simp only at parsed
  split at parsed
  · rename_i outcome read
    cases parsed
    split at read
    · cases read
    · obtain ⟨⟨value, rest⟩, made, given⟩ := bind_ok_iff.mp read
      split at given
      · cases given
        exact run_distinct made (by simp) trivial
      · cases given
  · cases parsed

end Json

variable [Host]

namespace Tree

theorem mem_ofItems {items : List Value} {t : Tree} (member : t ∈ ofItems items) :
    ∃ item ∈ items, t = ofValue item := by
  induction items with
  | nil => simp [ofItems] at member
  | cons item rest ih =>
    rw [ofItems] at member
    rcases List.mem_cons.mp member with rfl | later
    · exact ⟨item, List.mem_cons_self, rfl⟩
    · obtain ⟨other, old, same⟩ := ih later
      exact ⟨other, .tail _ old, same⟩

theorem mem_ofMembers {members : Members} {field : String × Tree}
    (inside : field ∈ ofMembers members) :
    ∃ v, (field.1, v) ∈ members ∧ (field.2 = .value v ∨ field.2 = ofValue v) := by
  induction members with
  | nil => simp [ofMembers] at inside
  | cons member rest ih =>
    obtain ⟨key, v⟩ := member
    rw [ofMembers] at inside
    split at inside
    · obtain ⟨other, old, same⟩ := ih inside
      exact ⟨other, .tail _ old, same⟩
    · rcases List.mem_cons.mp inside with rfl | later
      · refine ⟨v, List.mem_cons_self, ?_⟩
        dsimp only
        split
        · exact .inl rfl
        · exact .inr rfl
      · obtain ⟨other, old, same⟩ := ih later
        exact ⟨other, .tail _ old, same⟩

theorem keys_ofMembers_sublist (members : Members) :
    ((ofMembers members).map (·.1)).Sublist (members.map (·.1)) := by
  induction members with
  | nil => simp [ofMembers]
  | cons member rest ih =>
    obtain ⟨key, v⟩ := member
    rw [ofMembers]
    split
    · exact ih.cons key
    · exact ih.cons_cons key

theorem ofMembers_distinct (type : String) {members : Members}
    (keys : (members.map (·.1)).Nodup) (inside : ∀ member ∈ members, (ofValue member.2).Distinct) :
    (Tree.node type (ofMembers members)).Distinct := by
  refine .node (keys.sublist (keys_ofMembers_sublist members)) fun field member => ?_
  obtain ⟨v, stored, same | same⟩ := mem_ofMembers member
  · exact same ▸ .value v
  · exact same ▸ inside _ stored

theorem ofValue_distinct {v : Value} (distinct : v.Distinct) : (ofValue v).Distinct := by
  induction distinct with
  | null | bool | int | float | str => exact .value _
  | list inside ih =>
    refine .list fun t member => ?_
    obtain ⟨item, old, rfl⟩ := mem_ofItems member
    exact ih item old
  | object keys inside ih =>
    unfold ofValue
    split
    · exact ofMembers_distinct _ keys ih
    · exact .value _

theorem root_distinct {v : Value} (distinct : v.Distinct) {n : Node}
    (made : root v = .ok n) : n.toTree.Distinct := by
  unfold root at made
  split at made
  · rename_i members
    cases distinct with
    | object keys inside =>
      split at made
      · obtain ⟨-, -, made⟩ := bind_ok_iff.mp made
        obtain ⟨-, -, given⟩ := bind_ok_iff.mp made
        cases given
        exact ofMembers_distinct _ keys fun member held => ofValue_distinct (inside member held)
      · cases made
  · cases made

end Tree

theorem Document.program_distinct {fs : FileSystem} {path : String} {document : Document}
    (read : Document.read fs path = .ok document) : (Value.object document.program).Distinct := by
  obtain ⟨members, held, made⟩ := read_ok_iff.mp read
  obtain ⟨text, -, parsed⟩ := readMembers_ok_iff.mp held
  have whole := Json.parse_distinct parsed
  rcases program_of_ofMembers made with same | found
  · rwa [same]
  · cases whole with
    | object keys inside => exact inside ("ast", _) (Table.mem_of_lookup found)

/-- In a tree that was loaded from a file, no node has two fields of one name. -/
theorem ParsedFile.load_distinct {fs : FileSystem} {path : String} {file : ParsedFile}
    (loaded : load fs path = .ok file) : file.source.root.toTree.Distinct := by
  obtain ⟨document, onDisk, text, root, source, read, -, -, rooted, made, rfl⟩ :=
    load_ok_iff.mp loaded
  rw [(SourceCode.ofTree_ok made).2]
  exact Tree.root_distinct (Document.program_distinct read) rooted

end TreeLint
