import TreeLint.Proofs.Files

/-! What a search for JSON files finds. It comes to the directory at which it starts and, from each
directory that may be listed, to those in it. It finds the JSON files in the directories to which it
comes, and goes well if it can look at everything there that it has to. -/

namespace TreeLint.Layout

/-- It is denied to look, or that fails in another way, or it goes well. -/
theorem denied_cases {α : Type} (x : Except FileError α) :
    (∃ text, x = .error (.denied text)) ∨
      (∃ error, x = .error error ∧ ∀ text, error ≠ .denied text) ∨ ∃ a, x = .ok a := by
  cases x with
  | ok a => exact .inr (.inr ⟨a, rfl⟩)
  | error error =>
    cases error with
    | denied text => exact .inl ⟨text, rfl⟩
    | _ => exact .inr (.inl ⟨_, rfl, nofun⟩)

variable [Host]

section

variable {layout : Layout} {path : Path} {entries : List (String × Entry)} {item : String × Entry}
  {file : String} {files : List String}

/-- An item is no link that is asked where it leads and leads where one may not go. -/
def Passes (layout : Layout) (path : Path) (item : String × Entry) : Prop :=
  ∀ target, item.2 = .link target → ∀ text, layout.askLink (path.child item.1) ≠ .error (.denied text)

/-- A search through the entries of a directory gets as far as an item. -/
inductive GetsTo (layout : Layout) (path : Path) : List (String × Entry) → String × Entry → Prop
  | here {item : String × Entry} {rest : List (String × Entry)} :
      GetsTo layout path (item :: rest) item
  | later {first item : String × Entry} {rest : List (String × Entry)} :
      layout.Passes path first → GetsTo layout path rest item → GetsTo layout path (first :: rest) item

/-- A search to some levels from a directory comes to another one, with so many levels left. -/
inductive Comes (layout : Layout) : Nat → Path → Nat → Path → Prop
  | here {levels : Nat} {path : Path} : Comes layout levels path levels path
  | down {levels left : Nat} {path below : Path} {entries inner : List (String × Entry)}
      {name : String} {access : Access} : layout.list path = .ok entries →
      GetsTo layout path entries (name, .directory access inner) →
      Comes layout levels (path.child name) left below → Comes layout (levels + 1) path left below

/-- A search can look at what it has to look at in a directory, with so many levels left: it may still
go there, it can list the directory or is not allowed to, it can tell whether the names of JSON files
are those of files, and where links lead, if that is asked, unless one may not go there. -/
structure Searchable (layout : Layout) (left : Nat) (path : Path) : Prop where
  levels : left ≠ 0
  listed : ∀ error, layout.list path = .error error → ∃ text, error = .denied text
  named : ∀ entries, layout.list path = .ok entries → ∀ item ∈ entries, isJsonName item.1 = true →
    ∃ found, layout.isFile (path.child item.1) = .ok found
  links : ∀ entries name target, layout.list path = .ok entries →
    GetsTo layout path entries (name, .link target) → ∀ error,
    layout.askLink (path.child name) = .error error → ∃ text, error = .denied text

/-- A directory has a JSON file in it. -/
def Holds (layout : Layout) (path : Path) (file : String) : Prop :=
  ∃ entries, layout.list path = .ok entries ∧ ∃ item ∈ entries, isJsonName item.1 = true ∧
    layout.isFile (path.child item.1) = .ok true ∧ file = (path.child item.1).text

/-- A search to some levels from a directory finds a file. -/
def Finds (layout : Layout) (levels : Nat) (path : Path) (file : String) : Prop :=
  ∃ left below, Comes layout levels path (left + 1) below ∧ layout.Holds below file

theorem getsTo_cons_iff {first : String × Entry} {rest : List (String × Entry)} :
    GetsTo layout path (first :: rest) item ↔
      item = first ∨ layout.Passes path first ∧ GetsTo layout path rest item := by
  constructor
  · rintro (_ | ⟨passes, reaches⟩)
    · exact .inl rfl
    · exact .inr ⟨passes, reaches⟩
  · rintro (rfl | ⟨passes, reaches⟩)
    · exact .here
    · exact .later passes reaches

theorem jsonEntries_ok : (∃ files, layout.jsonEntries path entries = .ok files) ↔
    ∀ item ∈ entries, isJsonName item.1 = true →
      ∃ found, layout.isFile (path.child item.1) = .ok found := by
  induction entries with
  | nil => exact iff_of_true ⟨[], rfl⟩ (List.forall_mem_nil _)
  | cons item rest ih =>
    obtain ⟨name, entry⟩ := item
    rw [List.forall_mem_cons, ← ih, jsonEntries]
    by_cases named : isJsonName name = true
    · rw [if_pos named, exists_bind_ok_iff]
      simp only [exists_bind_ok_iff, named, true_implies]
      constructor
      · rintro ⟨found, looked, others, read, -⟩
        exact ⟨⟨found, looked⟩, others, read⟩
      · rintro ⟨⟨found, looked⟩, others, read⟩
        exact ⟨found, looked, others, read, _, rfl⟩
    · rw [if_neg named]
      simp [named]

theorem mem_jsonEntries (given : layout.jsonEntries path entries = .ok files) : file ∈ files ↔
    ∃ item ∈ entries, isJsonName item.1 = true ∧ layout.isFile (path.child item.1) = .ok true ∧
      file = (path.child item.1).text := by
  induction entries generalizing files with
  | nil =>
    cases given
    simp
  | cons item rest ih =>
    unfold jsonEntries at given
    simp only [List.mem_cons, exists_eq_or_imp]
    by_cases named : isJsonName item.1 = true
    · rw [if_pos named] at given
      obtain ⟨found, looked, given⟩ := bind_ok_iff.mp given
      obtain ⟨others, read, given⟩ := bind_ok_iff.mp given
      cases given
      rw [looked, ← ih read]
      cases found <;> simp [named]
    · rw [if_neg named] at given
      rw [ih given]
      simp [named]

/-- What a search through entries has to do at an item goes well. -/
def GoesWell (layout : Layout) (search : Path → Except FileError (List String)) (path : Path)
    (item : String × Entry) : Prop :=
  match item.2 with
  | .file _ _ => True
  | .directory _ _ => ∃ files, search (path.child item.1) = .ok files
  | .link _ => ∀ error, layout.askLink (path.child item.1) = .error error → ∃ text, error = .denied text

variable {search : Path → Except FileError (List String)} {name : String} {target : Path}

theorem searchEntries_of_denied {text : String}
    (looked : layout.askLink (path.child name) = .error (.denied text)) :
    layout.searchEntries search path ((name, .link target) :: entries) = .ok [] := by
  simp only [searchEntries, looked]

theorem searchEntries_of_error {error : FileError}
    (looked : layout.askLink (path.child name) = .error error)
    (other : ∀ text, error ≠ .denied text) :
    layout.searchEntries search path ((name, .link target) :: entries) = .error error := by
  cases error with
  | denied text => exact absurd rfl (other text)
  | _ => simp only [searchEntries, looked]

theorem searchEntries_of_ok (looked : layout.askLink (path.child name) = .ok ()) :
    layout.searchEntries search path ((name, .link target) :: entries) =
      layout.searchEntries search path entries := by
  simp only [searchEntries, looked]

theorem passes_iff : layout.Passes path (name, .link target) ↔
    ∀ text, layout.askLink (path.child name) ≠ .error (.denied text) := by
  constructor
  · exact fun passes => passes target rfl
  · exact fun told _ _ => told

theorem searchEntries_ok : (∃ files, layout.searchEntries search path entries = .ok files) ↔
    ∀ item, GetsTo layout path entries item → layout.GoesWell search path item := by
  induction entries with
  | nil => exact iff_of_true ⟨[], rfl⟩ nofun
  | cons item rest ih =>
    obtain ⟨name, entry⟩ := item
    simp only [getsTo_cons_iff, forall_eq_or_imp, and_imp]
    cases entry with
    | file number access =>
      have passes : layout.Passes path (name, .file number access) := nofun
      rw [searchEntries, ih]
      simp [passes, GoesWell]
    | directory access inner =>
      have passes : layout.Passes path (name, .directory access inner) := nofun
      simp only [searchEntries, exists_bind_ok_iff, passes, true_implies, ← ih]
      constructor
      · rintro ⟨found, looked, others, read, -⟩
        exact ⟨⟨found, looked⟩, others, read⟩
      · rintro ⟨⟨found, looked⟩, others, read⟩
        exact ⟨found, looked, others, read, _, rfl⟩
    | link target =>
      rw [passes_iff]
      rcases denied_cases (layout.askLink (path.child name)) with
        ⟨text, looked⟩ | ⟨error, looked, other⟩ | ⟨⟨⟩, looked⟩
      · rw [searchEntries_of_denied looked]
        simp [looked, GoesWell]
      · rw [searchEntries_of_error looked other]
        refine iff_of_false nofun fun each => ?_
        obtain ⟨text, same⟩ := each.1 error looked
        exact other text same
      · rw [searchEntries_of_ok looked, ih]
        simp [looked, GoesWell]

theorem mem_searchEntries (given : layout.searchEntries search path entries = .ok files) :
    file ∈ files ↔ ∃ name access inner found,
      GetsTo layout path entries (name, .directory access inner) ∧
        search (path.child name) = .ok found ∧ file ∈ found := by
  induction entries generalizing files with
  | nil =>
    cases given
    simp only [List.not_mem_nil, false_iff]
    rintro ⟨_, _, _, _, gets, -⟩
    cases gets
  | cons item rest ih =>
    obtain ⟨name, entry⟩ := item
    simp only [getsTo_cons_iff]
    cases entry with
    | file number access =>
      have passes : layout.Passes path (name, .file number access) := nofun
      rw [searchEntries] at given
      rw [ih given]
      simp [passes]
    | directory access inner =>
      have passes : layout.Passes path (name, .directory access inner) := nofun
      rw [searchEntries] at given
      obtain ⟨found, looked, given⟩ := bind_ok_iff.mp given
      obtain ⟨others, read, given⟩ := bind_ok_iff.mp given
      cases given
      rw [List.mem_append, ih read]
      constructor
      · rintro (inside | ⟨name, access, inner, found, gets, rest⟩)
        · exact ⟨name, access, inner, found, .inl rfl, looked, inside⟩
        · exact ⟨name, access, inner, found, .inr ⟨passes, gets⟩, rest⟩
      · rintro ⟨other, _, _, found', same | ⟨-, gets⟩, again, inside⟩
        · cases same
          obtain rfl := Except.ok.inj (looked.symm.trans again)
          exact .inl inside
        · exact .inr ⟨other, _, _, found', gets, again, inside⟩
    | link target =>
      rw [passes_iff]
      rcases denied_cases (layout.askLink (path.child name)) with
        ⟨text, looked⟩ | ⟨error, looked, other⟩ | ⟨⟨⟩, looked⟩
      · rw [searchEntries_of_denied looked] at given
        cases given
        simp [looked]
      · rw [searchEntries_of_error looked other] at given
        cases given
      · rw [searchEntries_of_ok looked] at given
        rw [ih given]
        simp [looked]

end

section

variable {layout : Layout} {levels : Nat} {path : Path} {entries : List (String × Entry)}

theorem search_of_denied {text : String} (listed : layout.list path = .error (.denied text)) :
    layout.search (levels + 1) path = .ok [] := by
  simp only [search, listed]

theorem search_of_error {error : FileError} (listed : layout.list path = .error error)
    (other : ∀ text, error ≠ .denied text) : layout.search (levels + 1) path = .error error := by
  cases error with
  | denied text => exact absurd rfl (other text)
  | _ => simp only [search, listed]

theorem search_ok_iff (listed : layout.list path = .ok entries) {files : List String} :
    layout.search (levels + 1) path = .ok files ↔
      ∃ here, layout.jsonEntries path entries = .ok here ∧
        ∃ others, layout.searchEntries (layout.search levels) path entries = .ok others ∧
          files = here ++ others := by
  simp only [search, listed, bind_ok_iff, Pure.pure, Except.pure, Except.ok.injEq,
    @eq_comm _ _ files]

theorem comes_succ_iff {left : Nat} {below : Path} : Comes layout (levels + 1) path left below ↔
    (left = levels + 1 ∧ below = path) ∨ ∃ entries name access inner, layout.list path = .ok entries ∧
      GetsTo layout path entries (name, .directory access inner) ∧
      Comes layout levels (path.child name) left below := by
  constructor
  · rintro (_ | ⟨listed, gets, comes⟩)
    · exact .inl ⟨rfl, rfl⟩
    · exact .inr ⟨_, _, _, _, listed, gets, comes⟩
  · rintro (⟨rfl, rfl⟩ | ⟨entries, name, access, inner, listed, gets, comes⟩)
    · exact .here
    · exact .down listed gets comes

/-- From a directory that cannot be listed a search comes to no other one. -/
theorem comes_of_not_listed {error : FileError} (listed : layout.list path = .error error)
    {left : Nat} {below : Path} : Comes layout (levels + 1) path left below ↔
      left = levels + 1 ∧ below = path := by
  simp [comes_succ_iff, listed]

theorem searchable_of_not_listed {error : FileError} (listed : layout.list path = .error error) :
    layout.Searchable (levels + 1) path ↔ ∃ text, error = .denied text := by
  constructor
  · exact fun searchable => searchable.listed error listed
  · intro denied
    refine ⟨nofun, fun other same => ?_, fun entries given => ?_, fun entries name target given => ?_⟩
    · cases listed.symm.trans same
      exact denied
    · cases listed.symm.trans given
    · cases listed.symm.trans given

theorem searchable_of_listed (listed : layout.list path = .ok entries) :
    layout.Searchable (levels + 1) path ↔
      (∃ files, layout.jsonEntries path entries = .ok files) ∧
      ∀ name target, GetsTo layout path entries (name, .link target) → ∀ error,
        layout.askLink (path.child name) = .error error → ∃ text, error = .denied text := by
  rw [jsonEntries_ok]
  constructor
  · exact fun searchable => ⟨searchable.named entries listed, fun name target =>
      searchable.links entries name target listed⟩
  · rintro ⟨named, links⟩
    refine ⟨nofun, fun error other => ?_, fun other same => ?_, fun other name target same => ?_⟩
    · cases listed.symm.trans other
    · obtain rfl := Except.ok.inj (listed.symm.trans same)
      exact named
    · obtain rfl := Except.ok.inj (listed.symm.trans same)
      exact links name target

/-- A search goes well just when it can look at what it has to in each directory to which it comes. -/
theorem search_ok : (∃ files, layout.search levels path = .ok files) ↔
    ∀ left below, Comes layout levels path left below → layout.Searchable left below := by
  induction levels generalizing path with
  | zero =>
    refine iff_of_false nofun fun each => ?_
    exact (each 0 path .here).levels rfl
  | succ levels ih =>
    rcases denied_cases (layout.list path) with
      ⟨text, listed⟩ | ⟨error, listed, other⟩ | ⟨entries, listed⟩
    · rw [search_of_denied listed]
      simp [comes_of_not_listed listed, searchable_of_not_listed listed]
    · rw [search_of_error listed other]
      simpa [comes_of_not_listed listed, searchable_of_not_listed listed] using other
    · have split : (∃ files, layout.search (levels + 1) path = .ok files) ↔
          (∃ files, layout.jsonEntries path entries = .ok files) ∧
            ∃ files, layout.searchEntries (layout.search levels) path entries = .ok files := by
        simp only [search_ok_iff listed]
        constructor
        · rintro ⟨_, here, looked, others, searched, -⟩
          exact ⟨⟨here, looked⟩, others, searched⟩
        · rintro ⟨⟨here, looked⟩, others, searched⟩
          exact ⟨_, here, looked, others, searched, rfl⟩
      rw [split, searchEntries_ok]
      simp only [comes_succ_iff]
      constructor
      · rintro ⟨named, each⟩ left below (⟨rfl, rfl⟩ | ⟨_, name, access, inner, same, gets, comes⟩)
        · exact (searchable_of_listed listed).mpr ⟨named, fun name target gets => each _ gets⟩
        · obtain rfl := Except.ok.inj (listed.symm.trans same)
          exact ih.mp (each _ gets) left below comes
      · intro each
        obtain ⟨named, links⟩ := (searchable_of_listed listed).mp (each _ path (.inl ⟨rfl, rfl⟩))
        refine ⟨named, fun item gets => ?_⟩
        obtain ⟨name, entry⟩ := item
        cases entry with
        | file number access => trivial
        | directory access inner =>
          exact ih.mpr fun left below comes =>
            each left below (.inr ⟨entries, name, access, inner, listed, gets, comes⟩)
        | link target => exact links name target gets

/-- A search finds the JSON files in the directories to which it comes. -/
theorem mem_search {files : List String} (given : layout.search levels path = .ok files)
    (file : String) : file ∈ files ↔ layout.Finds levels path file := by
  induction levels generalizing path files with
  | zero => cases given
  | succ levels ih =>
    unfold Finds
    rcases denied_cases (layout.list path) with
      ⟨text, listed⟩ | ⟨error, listed, other⟩ | ⟨entries, listed⟩
    · rw [search_of_denied listed] at given
      cases given
      simp [comes_of_not_listed listed, Holds, listed]
    · rw [search_of_error listed other] at given
      cases given
    · obtain ⟨here, looked, others, searched, rfl⟩ := (search_ok_iff listed).mp given
      rw [List.mem_append, mem_jsonEntries looked, mem_searchEntries searched]
      simp only [comes_succ_iff, Nat.add_right_cancel_iff]
      constructor
      · rintro (holds | ⟨name, access, inner, found, gets, below, inside⟩)
        · exact ⟨levels, path, .inl ⟨rfl, rfl⟩, entries, listed, holds⟩
        · obtain ⟨left, directory, comes, holds⟩ := (ih below).mp inside
          exact ⟨left, directory, .inr ⟨entries, name, access, inner, listed, gets, comes⟩, holds⟩
      · rintro ⟨left, below, ⟨rfl, rfl⟩ | ⟨_, name, access, inner, same, gets, comes⟩, holds⟩
        · obtain ⟨_, same, holds⟩ := holds
          obtain rfl := Except.ok.inj (listed.symm.trans same)
          exact .inl holds
        · obtain rfl := Except.ok.inj (listed.symm.trans same)
          obtain ⟨all, went⟩ := searchEntries_ok.mp ⟨others, searched⟩ _ gets
          exact .inr ⟨name, access, inner, all, gets, went,
            (ih went).mpr ⟨left, below, comes, holds⟩⟩

end

end TreeLint.Layout
