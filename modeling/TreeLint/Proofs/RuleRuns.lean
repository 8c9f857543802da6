import TreeLint.Proofs.Noninterference

/-! A rule at work among others. Along the visits each rule goes its own way, as it does when it is
the only one, so what is said of a rule alone is said of its memory and its reports in any run. -/

namespace TreeLint

theorem exists_of_forall₂ {α β : Type} {R : α → β → Prop} {xs : List α} {ys : List β} {y : β}
    (related : List.Forall₂ R xs ys) (member : y ∈ ys) : ∃ x ∈ xs, R x y := by
  induction related with
  | nil => cases member
  | @cons x _ xs _ here _ ih =>
    rcases List.mem_cons.mp member with rfl | later
    · exact ⟨x, List.mem_cons_self, here⟩
    · obtain ⟨x, among, holds⟩ := ih later
      exact ⟨x, .tail _ among, holds⟩

theorem forall₂_comp {α β γ : Type} {R : α → β → Prop} {S : β → γ → Prop} {xs : List α}
    {ys : List β} {zs : List γ} (first : List.Forall₂ R xs ys) (second : List.Forall₂ S ys zs) :
    List.Forall₂ (fun x z => ∃ y, R x y ∧ S y z) xs zs := by
  induction first generalizing zs with
  | nil =>
    cases second
    exact .nil
  | cons here _ ih =>
    cases second with
    | cons there second => exact .cons ⟨_, here, there⟩ (ih second)

namespace Watcher

variable {visit : Visit} {made rest visits : List Visit} {before after : List Watcher}
  {reports : List Violation}

theorem follows_append_iff : Follows (made ++ rest) before reports after ↔
    ∃ first between second, Follows made before first between ∧ Follows rest between second after ∧
      reports = first ++ second := by
  constructor
  · intro follows
    induction made generalizing before reports with
    | nil => exact ⟨[], before, reports, .none before, follows, rfl⟩
    | cons visit made ih =>
      cases follows with
      | @next _ _ _ _ _ here _ sees follows =>
        obtain ⟨first, between, second, early, late, rfl⟩ := ih follows
        exact ⟨here ++ first, between, second, .next sees early, late, by rw [List.append_assoc]⟩
  · rintro ⟨first, between, second, early, late, rfl⟩
    induction early with
    | none => exact late
    | next sees _ ih =>
      rw [List.append_assoc]
      exact .next sees (ih late)

theorem Sees.each (sees : Sees visit before reports after) :
    List.Forall₂ (fun one other => ∃ own, Sees visit [one] own [other]) before after := by
  induction sees with
  | none => exact .nil
  | next hears _ ih => exact .cons ⟨_, .next hears .none⟩ ih

/-- Each of the rules at work follows the visits as it would alone. -/
theorem Follows.each (follows : Follows visits before reports after) :
    List.Forall₂ (fun one other => ∃ own, Follows visits [one] own [other]) before after := by
  induction follows with
  | none watchers => exact List.forall₂_same.mpr fun watcher _ => ⟨[], .none _⟩
  | next sees _ ih =>
    refine (forall₂_comp sees.each ih).imp fun one other both => ?_
    obtain ⟨between, ⟨first, sees⟩, second, follows⟩ := both
    exact ⟨first ++ second, .next sees follows⟩

theorem Sees.onlyAt {P : Cursor → Violation → Prop} (sees : Sees visit before reports after)
    (each : ∀ watcher ∈ before, watcher.ReportsAt P) :
    (∀ v ∈ reports, P visit.cursor v) ∧ ∀ watcher ∈ after, watcher.ReportsAt P := by
  induction sees with
  | none => exact ⟨List.forall_mem_nil _, List.forall_mem_nil _⟩
  | next hears _ ih =>
    obtain ⟨here, others⟩ := List.forall_mem_cons.mp each
    obtain ⟨more, still⟩ := ih others
    exact ⟨List.forall_mem_append.mpr ⟨here.hears hears, more⟩, List.forall_mem_cons.mpr
      ⟨here, still⟩⟩

/-- What rules at work report along visits is reported at one of them. -/
theorem Follows.onlyAt {P : Cursor → Violation → Prop}
    (follows : Follows visits before reports after)
    (each : ∀ watcher ∈ before, watcher.ReportsAt P) :
    ∀ v ∈ reports, ∃ visit ∈ visits, P visit.cursor v := by
  induction follows with
  | none => exact List.forall_mem_nil _
  | next sees _ ih =>
    obtain ⟨here, still⟩ := sees.onlyAt each
    refine List.forall_mem_append.mpr ⟨fun v member => ⟨_, List.mem_cons_self, here v member⟩, ?_⟩
    intro v member
    obtain ⟨visit, among, holds⟩ := ih still v member
    exact ⟨visit, .tail _ among, holds⟩

theorem Follows.only {P : Violation → Prop} (follows : Follows visits before reports after)
    (each : ∀ watcher ∈ before, watcher.Reports P) : ∀ v ∈ reports, P v := by
  intro v member
  obtain ⟨_, -, holds⟩ := follows.onlyAt (fun watcher among => (each watcher among).at) v member
  exact holds

end Watcher

namespace Registry

theorem standard_names_nodup : (standard.rules.map (·.name)).Nodup := by decide +kernel

theorem eq_of_name {rule other : Rule} (known : rule ∈ standard.rules)
    (known' : other ∈ standard.rules) (named : rule.name = other.name) : rule = other :=
  List.inj_on_of_nodup_map standard_names_nodup known known' named

end Registry

theorem Configuration.enabledRules_filter {config : Configuration} {entry : Rule × RuleSetting}
    (enabled : entry ∈ config.enabledRules) :
    config.enabledRules.filter (·.1.name == entry.1.name) = [entry] := by
  have names : (config.enabledRules.map (·.1.name)).Nodup := by
    have apart := Registry.standard_names_nodup.sublist
      (config.enabledRules_sublist.map (·.name))
    rwa [List.map_map] at apart
  generalize config.enabledRules = rules at enabled names
  induction rules with
  | nil => simp at enabled
  | cons first rest ih =>
    rw [List.map_cons, List.nodup_cons] at names
    obtain ⟨new, apart⟩ := names
    rcases List.mem_cons.mp enabled with rfl | later
    · have others : rest.filter (·.1.name == entry.1.name) = [] := by
        refine List.filter_eq_nil_iff.mpr fun other member same => ?_
        exact new (List.mem_map.mpr ⟨other, member, by simpa using same⟩)
      rw [List.filter_cons_of_pos (by simp), others]
    · have differs : first.1.name ≠ entry.1.name := by
        intro same
        exact new (List.mem_map.mpr ⟨entry, later, same.symm⟩)
      rw [List.filter_cons_of_neg (by simpa using differs), ih later apart]

namespace Lint

variable [Host] {config : Configuration} {file : ParsedFile} {cwd : Option String}
  {rule : Rule} {setting : RuleSetting} {visits : List Visit} {before after : List Watcher}
  {emitted : List Violation}

/-- Rules are told apart by their names, so of one name there is one rule at work. -/
theorem atWork_alone (enabled : (rule, setting) ∈ config.enabledRules) {watchers : List Watcher}
    (atWork : List.Forall₂ (AtWork file cwd)
      (config.enabledRules.filter (·.1.name == rule.name)) watchers) :
    ∃ watcher, watchers = [watcher] ∧ AtWork file cwd (rule, setting) watcher := by
  rw [Configuration.enabledRules_filter enabled] at atWork
  cases atWork with
  | cons works others =>
    cases others
    exact ⟨_, rfl, works⟩

/-- What an enabled rule reports among others is what it reports when it follows the visits
alone. -/
theorem follows_own (enabled : (rule, setting) ∈ config.enabledRules)
    (atWork : List.Forall₂ (AtWork file cwd) config.enabledRules before)
    (follows : Watcher.Follows visits before emitted after) :
    ∃ watcher ended, AtWork file cwd (rule, setting) watcher ∧
      Watcher.Follows visits [watcher] (emitted.filter (·.ruleId == rule.name)) ended := by
  obtain ⟨watchers, works, keeps⟩ :=
    @keeps_chosen _ file cwd (fun name => name == rule.name) _ _ config.known_of_enabled atWork
  obtain ⟨ended, seen, -⟩ := keeps.follows follows
  obtain ⟨watcher, rfl, alone⟩ := atWork_alone enabled works
  exact ⟨watcher, ended, alone, seen⟩

/-- Of the rules at work, one remembers something. -/
def Remembers (config : Configuration) (entry : Rule × RuleSetting) (watchers : List Watcher)
    (memory : Memory) : Prop :=
  List.Forall₂ (fun other watcher => other = entry → watcher.memory = memory) config.enabledRules
    watchers

/-- What a rule remembers among others is what it remembers alone. -/
theorem remembers_of_alone {entry : Rule × RuleSetting} {memory : Memory}
    (atWork : List.Forall₂ (AtWork file cwd) config.enabledRules before)
    (follows : Watcher.Follows visits before emitted after)
    (alone : ∀ watcher own ended, AtWork file cwd entry watcher →
      Watcher.Follows visits [watcher] own [ended] → ended.memory = memory) :
    Remembers config entry after memory := by
  refine (forall₂_comp atWork follows.each).imp fun other ended both same => ?_
  obtain ⟨watcher, works, own, follows⟩ := both
  exact alone watcher own ended (same ▸ works) follows

omit [Host] in
theorem follows_idle (follows : Watcher.Follows visits before emitted after)
    (idle : ∀ watcher ∈ before, watcher.listeners = []) : emitted = [] := by
  have none := follows.only (P := fun _ => False) fun watcher member => by
    intro entry listened
    rw [idle watcher member] at listened
    cases listened
  exact List.eq_nil_iff_forall_not_mem.mpr none

end Lint

end TreeLint
