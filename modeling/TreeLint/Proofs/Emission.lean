import TreeLint.Lint.Basic
import TreeLint.Proofs.Address
import TreeLint.Proofs.Reporting
import TreeLint.Proofs.StableSort
import TreeLint.Proofs.Table

/-! What a run reports. The rules at work see the visits of the recursive walk in turn, each rule
with listeners and a memory of its own; this is said by relations that know neither the agenda nor
the tables of callbacks. A run gives a result exactly when the relations hold, and the result is
the stable sort of the reports. -/

namespace TreeLint

/-- A rule at work on a file: its listeners and what it remembers. -/
structure Watcher where
  listeners : Listeners
  memory : Memory

/-- Listeners that wait for a visit, in order. -/
def Listeners.awaiting (listeners : Listeners) (selector : Selector) : List Listener :=
  (listeners.filter (·.1 = selector)).map (·.2)

namespace Watcher

/-- Listeners are called at a node one after the other, each with what the one before it left in
the memory. -/
inductive Hears (cursor : Cursor) : List Listener → Memory → List Violation → Memory → Prop
  | none (memory : Memory) : Hears cursor [] memory [] memory
  | next {listener : Listener} {rest : List Listener} {before between after : Memory}
      {reports more : List Violation} : listener (some cursor) before = ⟨reports, .ok between⟩ →
      Hears cursor rest between more after →
      Hears cursor (listener :: rest) before (reports ++ more) after

/-- The rules at work see a visit one after the other. -/
inductive Sees (visit : Visit) : List Watcher → List Violation → List Watcher → Prop
  | none : Sees visit [] [] []
  | next {listeners : Listeners} {before after : Memory} {rest rest' : List Watcher}
      {reports more : List Violation} :
      Hears visit.cursor (listeners.awaiting visit.selector) before reports after →
      Sees visit rest more rest' →
      Sees visit (⟨listeners, before⟩ :: rest) (reports ++ more) (⟨listeners, after⟩ :: rest')

/-- The rules at work see visits in turn. -/
inductive Follows : List Visit → List Watcher → List Violation → List Watcher → Prop
  | none (watchers : List Watcher) : Follows [] watchers [] watchers
  | next {visit : Visit} {rest : List Visit} {before between after : List Watcher}
      {reports more : List Violation} : Sees visit before reports between →
      Follows rest between more after → Follows (visit :: rest) before (reports ++ more) after

theorem Sees.listeners_eq {visit : Visit} {before after : List Watcher} {reports : List Violation}
    (sees : Sees visit before reports after) :
    after.map (·.listeners) = before.map (·.listeners) := by
  induction sees with
  | none => rfl
  | next _ _ ih => simp only [List.map_cons, ih]

end Watcher

namespace CallTable

theorem callbacks_add (table : CallTable) (type : String) (callback : Callback) (other : String) :
    (table.add type callback).callbacks other =
      if type = other then table.callbacks other ++ [callback] else table.callbacks other := by
  unfold callbacks add
  rw [Table.lookup_put]
  split
  · rename_i same
    rw [same, Option.getD_some]
    rfl
  · rfl

end CallTable

namespace Dispatch

/-- The callbacks that listeners of rules make for a selector, the first rule under a number. -/
def callbacksFrom (selector : Selector) : Nat → List Listeners → List Callback
  | _, [] => []
  | number, listeners :: rest =>
    (listeners.awaiting selector).map (⟨number, ·⟩) ++ callbacksFrom selector (number + 1) rest

theorem callbacks_add (number : Nat) (d : Dispatch) (entry : Selector × Listener)
    (selector : Selector) : (d.add number entry).callbacks selector =
      if entry.1 = selector then d.callbacks selector ++ [⟨number, entry.2⟩]
      else d.callbacks selector := by
  obtain ⟨⟨type, phase⟩, listener⟩ := entry
  obtain ⟨other, moment⟩ := selector
  cases phase <;> cases moment <;>
    simp [add, callbacks, CallTable.callbacks_add, Selector.mk.injEq]

theorem callbacks_addAll (number : Nat) (listeners : Listeners) (d : Dispatch)
    (selector : Selector) : (listeners.foldl (add number) d).callbacks selector =
      d.callbacks selector ++ (listeners.awaiting selector).map (⟨number, ·⟩) := by
  induction listeners generalizing d with
  | nil => simp [Listeners.awaiting]
  | cons entry rest ih =>
    rw [List.foldl_cons, ih, callbacks_add]
    by_cases same : entry.1 = selector
    · simp [Listeners.awaiting, same]
    · simp [Listeners.awaiting, same]

/-- The dispatch after the listeners of rules are entered, the first rule under a number. -/
def addFrom : Nat → Dispatch → List Listeners → Dispatch
  | _, d, [] => d
  | number, d, listeners :: rest =>
    addFrom (number + 1) (listeners.foldl (add number) d) rest

theorem callbacks_addFrom (number : Nat) (d : Dispatch) (made : List Listeners)
    (selector : Selector) : (addFrom number d made).callbacks selector =
      d.callbacks selector ++ callbacksFrom selector number made := by
  induction made generalizing number d with
  | nil => simp [addFrom, callbacksFrom]
  | cons listeners rest ih =>
    rw [addFrom, ih, callbacks_addAll, callbacksFrom, List.append_assoc]

theorem callbacks_empty (selector : Selector) : empty.callbacks selector = [] := by
  obtain ⟨type, phase⟩ := selector
  cases phase <;> rfl

/-- Callbacks of one rule are calls of its listeners with its memory. -/
theorem call_append {cursor : Cursor} {number : Nat} (listeners : List Listener)
    (rest : List Callback) {memories final : List Memory} (inside : number < memories.length)
    (reports : List Violation) :
    call cursor (listeners.map (⟨number, ·⟩) ++ rest) memories = ⟨reports, .ok final⟩ ↔
      ∃ own memory others, Watcher.Hears cursor listeners memories[number] own memory ∧
        call cursor rest (memories.set number memory) = ⟨others, .ok final⟩ ∧
        reports = own ++ others := by
  induction listeners generalizing memories reports with
  | nil =>
    constructor
    · intro called
      refine ⟨[], memories[number], reports, .none _, ?_, rfl⟩
      rwa [List.set_getElem_self]
    · rintro ⟨own, memory, others, ⟨⟩, called, rfl⟩
      rwa [List.set_getElem_self] at called
  | cons listener more ih =>
    have held : memories[number]?.getD [] = memories[number] := by
      rw [List.getElem?_eq_getElem inside, Option.getD_some]
    rw [List.map_cons, List.cons_append, call, held, Reporting.bind_eq_iff]
    constructor
    · rintro ⟨first, between, second, heard, later, rfl⟩
      have still : number < (memories.set number between).length := by
        rwa [List.length_set]
      obtain ⟨own, memory, others, hears, called, rfl⟩ := (ih still second).mp later
      rw [List.getElem_set_self] at hears
      rw [List.set_set] at called
      exact ⟨first ++ own, memory, others, .next heard hears, called, by rw [List.append_assoc]⟩
    · rintro ⟨own, memory, others, hears, called, rfl⟩
      cases hears with
      | @next _ _ _ between _ first own heard hears =>
        refine ⟨first, between, own ++ others, heard, ?_, by rw [List.append_assoc]⟩
        have still : number < (memories.set number between).length := by
          rwa [List.length_set]
        refine (ih still _).mpr ⟨own, memory, others, ?_, ?_, rfl⟩
        · rwa [List.getElem_set_self]
        · rwa [List.set_set]

/-- What the tables lead to at a visit is that the rules at work see it. `done` are the memories of
the rules before them. -/
theorem call_iff_sees {visit : Visit} (watchers : List Watcher) (done : List Memory)
    (reports : List Violation) (final : List Memory) :
    call visit.cursor
        (callbacksFrom visit.selector done.length (watchers.map (·.listeners)))
        (done ++ watchers.map (·.memory)) = ⟨reports, .ok final⟩ ↔
      ∃ after, Watcher.Sees visit watchers reports after ∧
        final = done ++ after.map (·.memory) := by
  induction watchers generalizing done reports with
  | nil =>
    rw [List.map_nil, callbacksFrom, call, Reporting.pure_eq_iff]
    constructor
    · rintro ⟨rfl, same⟩
      exact ⟨[], .none, same.symm⟩
    · rintro ⟨after, sees, rfl⟩
      cases sees
      exact ⟨rfl, rfl⟩
  | cons watcher rest ih =>
    obtain ⟨listeners, memory⟩ := watcher
    have inside : done.length < (done ++ memory :: rest.map (·.memory)).length := by
      simp
    have next (after : Memory) :
        (done ++ memory :: rest.map (·.memory)).set done.length after =
          (done ++ [after]) ++ rest.map (·.memory) := by
      simp
    have count (after : Memory) : done.length + 1 = (done ++ [after]).length := by simp
    simp only [List.map_cons, callbacksFrom]
    rw [call_append _ _ inside]
    simp only [next, List.getElem_append_right (Nat.le_refl _), Nat.sub_self,
      List.getElem_cons_zero]
    constructor
    · rintro ⟨own, after, others, hears, called, rfl⟩
      rw [count after, ih] at called
      obtain ⟨seen, sees, rfl⟩ := called
      exact ⟨⟨listeners, after⟩ :: seen, .next hears sees, by simp⟩
    · rintro ⟨seen, sees, rfl⟩
      cases sees with
      | @next _ _ after _ seen own others hears sees =>
        refine ⟨own, after, others, hears, ?_, rfl⟩
        rw [count after, ih]
        exact ⟨seen, sees, by simp⟩

/-- Where the tables hold the listeners of the rules at work, going through visits is following
them. -/
theorem follow_iff {d : Dispatch} {watchers : List Watcher}
    (tables : ∀ selector,
      d.callbacks selector = callbacksFrom selector 0 (watchers.map (·.listeners)))
    (visits : List Visit) (found emitted : List Violation) :
    d.follow found (watchers.map (·.memory)) visits = .ok emitted ↔
      ∃ reports after, Watcher.Follows visits watchers reports after ∧
        emitted = found.reverse ++ reports := by
  induction visits generalizing watchers found with
  | nil =>
    rw [follow, Except.ok.injEq]
    constructor
    · rintro rfl
      exact ⟨[], watchers, .none _, by rw [List.append_nil]⟩
    · rintro ⟨reports, after, follows, rfl⟩
      cases follows
      rw [List.append_nil]
  | cons visit rest ih =>
    have sees := @call_iff_sees visit watchers []
    simp only [List.length_nil, List.nil_append, ← tables] at sees
    have go : ∀ called, call visit.cursor (d.callbacks visit.selector)
        (watchers.map (·.memory)) = called →
        (d.follow found (watchers.map (·.memory)) (visit :: rest) = .ok emitted ↔
          ∃ memories, called.result = .ok memories ∧
            d.follow (called.reports.reverseAux found) memories rest = .ok emitted) := by
      rintro ⟨reports, result⟩ same
      rw [follow]
      simp only [same]
      cases result <;> simp
    constructor
    · intro followed
      obtain ⟨memories, ends, followed⟩ := (go _ rfl).mp followed
      obtain ⟨between, seen, rfl⟩ := (sees (call visit.cursor (d.callbacks visit.selector)
        (watchers.map (·.memory))).reports memories).mp (by rw [← ends])
      -- A visit changes memories only, so the tables still hold the listeners.
      have same := seen.listeners_eq
      obtain ⟨more, after, follows, rfl⟩ := (ih (fun s => same ▸ tables s) _).mp followed
      refine ⟨_, after, .next seen follows, ?_⟩
      rw [List.reverseAux_eq, List.reverse_append, List.reverse_reverse, List.append_assoc]
    · rintro ⟨reports, after, follows, rfl⟩
      cases follows with
      | @next _ _ _ between _ first more seen follows =>
        have same := seen.listeners_eq
        refine (go _ ((sees _ _).mpr ⟨between, seen, rfl⟩)).mpr ⟨_, rfl, ?_⟩
        refine (ih (fun s => same ▸ tables s) _).mpr ⟨more, after, follows, ?_⟩
        rw [List.reverseAux_eq, List.reverse_append, List.reverse_reverse, List.append_assoc]

theorem follow_of_isEmpty {d : Dispatch} (idle : d.isEmpty = true) (visits : List Visit)
    (found : List Violation) (memories : List Memory) :
    d.follow found memories visits = .ok found.reverse := by
  have none (selector : Selector) : d.callbacks selector = [] := by
    obtain ⟨entering, leaving⟩ := d
    simp only [isEmpty, Bool.and_eq_true, List.isEmpty_iff] at idle
    obtain ⟨rfl, rfl⟩ := idle
    exact callbacks_empty selector
  induction visits with
  | nil => rfl
  | cons visit rest ih =>
    rw [follow, none]
    exact ih

/-- A tree in which nothing is called need not be walked. -/
theorem follow_unless_isEmpty (d : Dispatch) (memories : List Memory) (visits : List Visit) :
    (if d.isEmpty then (return [] : Read (List Violation)) else d.follow [] memories visits) =
      d.follow [] memories visits := by
  split
  · rename_i idle
    exact (follow_of_isEmpty idle visits [] memories).symm
  · rfl

end Dispatch

namespace Configuration

/-- The rules that run are rules of the registry, in its order. -/
theorem enabledRules_sublist (config : Configuration) :
    (config.enabledRules.map (·.1)).Sublist Registry.standard.rules := by
  unfold enabledRules
  generalize Registry.standard.rules = rules
  induction rules with
  | nil => exact .slnil
  | cons rule rest ih =>
    rw [List.filterMap_cons]
    cases config.settings.lookup rule.name with
    | none => exact ih.cons rule
    | some setting =>
      dsimp only
      cases setting.isEnabled with
      | true => exact ih.cons_cons rule
      | false => exact ih.cons rule

theorem known_of_enabled (config : Configuration) :
    ∀ entry ∈ config.enabledRules, entry.1 ∈ Registry.standard.rules := fun _ member =>
  config.enabledRules_sublist.subset (List.mem_map_of_mem member)

end Configuration

namespace Lint

variable [Host]

/-- A rule as it is set to work on a file, with nothing to remember yet. -/
def AtWork (file : ParsedFile) (cwd : Option String) (entry : Rule × RuleSetting)
    (watcher : Watcher) : Prop :=
  entry.1.listeners (contextFor file cwd entry.1 entry.2) = .ok watcher.listeners ∧
    watcher.memory = []

/-- What rules report about a file: each is set to work on it, and they see the visits of the
recursive walk from its root in turn. -/
def Emits (file : ParsedFile) (cwd : Option String) (rules : List (Rule × RuleSetting))
    (emitted : List Violation) : Prop :=
  ∃ before after, List.Forall₂ (AtWork file cwd) rules before ∧
    Watcher.Follows (Cursor.ofRoot file.source.root).visits before emitted after

theorem prepare_ok_iff {file : ParsedFile} {cwd : Option String} (number : Nat) (d : Dispatch)
    (rules : List (Rule × RuleSetting)) (ready : Dispatch) :
    prepare file cwd number d rules = .ok ready ↔
      ∃ watchers, List.Forall₂ (AtWork file cwd) rules watchers ∧
        ready = .addFrom number d (watchers.map (·.listeners)) := by
  induction rules generalizing number d with
  | nil =>
    rw [prepare, Except.ok.injEq]
    constructor
    · rintro rfl
      exact ⟨[], .nil, rfl⟩
    · rintro ⟨watchers, ⟨⟩, rfl⟩
      rfl
  | cons entry rest ih =>
    obtain ⟨rule, setting⟩ := entry
    rw [prepare, bind_ok_iff]
    simp only [ih]
    constructor
    · rintro ⟨listeners, made, watchers, atWork, rfl⟩
      exact ⟨⟨listeners, []⟩ :: watchers, .cons ⟨made, rfl⟩ atWork, rfl⟩
    · rintro ⟨watchers, atWork, rfl⟩
      cases atWork with
      | cons here atWork => exact ⟨_, here.1, _, atWork, rfl⟩

theorem memories_of_atWork {file : ParsedFile} {cwd : Option String}
    {rules : List (Rule × RuleSetting)} {watchers : List Watcher}
    (atWork : List.Forall₂ (AtWork file cwd) rules watchers) :
    (rules.map fun _ => ([] : Memory)) = watchers.map (·.memory) := by
  induction atWork with
  | nil => rfl
  | cons here _ ih => rw [List.map_cons, List.map_cons, ih, here.2]

theorem emission_ok_iff (file : ParsedFile) (cwd : Option String)
    (rules : List (Rule × RuleSetting)) (emitted : List Violation) :
    emission file cwd rules = .ok emitted ↔ Emits file cwd rules emitted := by
  have tables (watchers : List Watcher) (selector : Selector) :
      (Dispatch.addFrom 0 .empty (watchers.map (·.listeners))).callbacks selector =
        Dispatch.callbacksFrom selector 0 (watchers.map (·.listeners)) := by
    rw [Dispatch.callbacks_addFrom, Dispatch.callbacks_empty, List.nil_append]
  unfold emission Emits
  simp only [Dispatch.follow_unless_isEmpty, bind_ok_iff, prepare_ok_iff, Node.walk_eq_visits]
  constructor
  · rintro ⟨d, ⟨watchers, atWork, rfl⟩, followed⟩
    rw [memories_of_atWork atWork, Dispatch.follow_iff (tables watchers)] at followed
    obtain ⟨reports, after, follows, rfl⟩ := followed
    exact ⟨watchers, after, atWork, follows⟩
  · rintro ⟨before, after, atWork, follows⟩
    refine ⟨_, ⟨before, atWork, rfl⟩, ?_⟩
    rw [memories_of_atWork atWork, Dispatch.follow_iff (tables before)]
    exact ⟨emitted, after, follows, rfl⟩

/-- A run gives the reports of the walk, sorted by their places, and nothing is mended yet. -/
theorem run_ok_iff (config : Configuration) (file : ParsedFile) (cwd : Option String)
    (result : LintResult) :
    run config file cwd = .ok result ↔
      ∃ emitted, Emits file cwd config.enabledRules emitted ∧
        StableSort Violation.place emitted result.violations ∧
        result.filename = file.filename ∧ result.fixedSource = none ∧
        result.appliedFixes = 0 := by
  unfold run
  rw [bind_ok_iff]
  simp only [emission_ok_iff]
  constructor
  · rintro ⟨emitted, emits, given⟩
    cases given
    exact ⟨emitted, emits, Violation.stableSort_byPlace emitted, rfl, rfl, rfl⟩
  · rintro ⟨emitted, emits, sorted, named, unmended, none⟩
    obtain ⟨filename, violations, fixedSource, appliedFixes⟩ := result
    obtain rfl : violations = emitted.mergeSort Violation.isBefore :=
      sorted.unique (Violation.stableSort_byPlace emitted)
    cases named
    cases unmended
    cases none
    exact ⟨emitted, emits, rfl⟩

/-- A run on which no listener fails is the stable sort by place of what the enabled rules, in the
order of the registry, report along the recursive walk. The agenda makes that walk; it is bracketed,
it meets the nodes below the root and no others, and each of them once in each phase. -/
theorem run_follows_walk (config : Configuration) (file : ParsedFile) (cwd : Option String) :
    (∀ result, run config file cwd = .ok result ↔
      ∃ emitted, Emits file cwd config.enabledRules emitted ∧
        StableSort Violation.place emitted result.violations ∧
        result.filename = file.filename ∧ result.fixedSource = none ∧
        result.appliedFixes = 0) ∧
    (config.enabledRules.map (·.1)).Sublist Registry.standard.rules ∧
    file.source.root.walk = (Cursor.ofRoot file.source.root).visits ∧
    (∀ c : Cursor,
      c.visits = ⟨.enter, c⟩ :: c.children.flatMap Cursor.visits ++ [⟨.leave, c⟩]) ∧
    Visit.Bracketed file.source.root.walk ∧
    (∀ visit ∈ file.source.root.walk, (Cursor.ofRoot file.source.root).Below visit.cursor) ∧
    (file.source.root.toTree.Distinct → ∀ c, (Cursor.ofRoot file.source.root).Below c →
      ∀ phase, file.source.root.walk.countP
        (fun visit => (visit.phase, visit.cursor.address) = (phase, c.address)) = 1) := by
  rw [Node.walk_eq_visits]
  refine ⟨run_ok_iff config file cwd, config.enabledRules_sublist, rfl, Cursor.visits_eq,
    Visit.bracketed_visits _, ?_, ?_⟩
  · intro visit member
    exact (Cursor.mem_visits_iff _ visit).mp member
  · intro distinct c below phase
    exact Cursor.visits_count distinct below phase

end Lint

end TreeLint
