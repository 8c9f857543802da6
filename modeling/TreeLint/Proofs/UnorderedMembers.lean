import TreeLint.Proofs.LateMembers

/-! Members without a place in the order. A member that is no property signature, or one whose key
has no name, may stand anywhere or be left out: the check reports the same. There are no other
members of that kind. In particular a computed key has a place in the order if it has a name, since
the check does not ask whether a key is computed. -/

namespace TreeLint

namespace Rules.MemberOrder
open Reporting

variable {context : RuleContext} {c d : Cursor} {parent : String} {t : Tree}
  {before after items others : List Tree} {reports : List Violation}

theorem checkMembers_insert (context : RuleContext) (parent : String) (seen : Bool)
    (before after : List Tree) (unordered : IsUnordered t) :
    checkMembers context parent seen (before ++ t :: after) =
      checkMembers context parent seen (before ++ after) := by
  induction before generalizing seen with
  | nil => exact checkMembers_of_unordered context parent seen after unordered
  | cons u before ih =>
    rw [List.cons_append, List.cons_append, checkMembers, checkMembers]
    simp only [ih]

theorem report_insert (unordered : IsUnordered t) (without : Lists c (before ++ after))
    (inside : Lists d (before ++ t :: after)) (named : declaredName c.node = declaredName d.node) :
    (looks context).report c = (looks context).report d := by
  rw [report_eq_of_lists without, report_eq_of_lists inside, named]
  simp only [checkMembers_insert _ _ _ _ _ unordered]

theorem report_interfaceOf (context : RuleContext) (members : List Tree) :
    (looks context).report (.ofRoot (interfaceOf members)) =
      checkMembers context "IUser" false members := by
  rw [report_eq_of_lists (.interface rfl rfl)]
  rfl

/-- A lone property is not reported. -/
theorem report_signatureOf (context : RuleContext) {name : String} (visible : name ≠ "")
    (optional : Bool) :
    (looks context).report (.ofRoot (interfaceOf [(signatureOf name optional).toTree])) =
      ⟨[], .ok ()⟩ := by
  rw [report_interfaceOf, checkMembers, Tree.asNode_eq_ok_iff.mpr rfl, lift_ok_bind,
    namedKey?_of_signed (isSignedBy_signatureOf visible optional), lift_ok_bind]
  cases optional <;> rfl

/-- A member that makes no difference to interfaces without reports is unordered. -/
theorem isUnordered_of_ignored (known : context.info = info)
    (ignored : ∀ before after, (looks context).report (.ofRoot (interfaceOf (before ++ after))) =
        ⟨[], .ok ()⟩ →
      (looks context).report (.ofRoot (interfaceOf (before ++ t :: after))) = ⟨[], .ok ()⟩) :
    IsUnordered t := by
  have alone := ignored [] [] (report_interfaceOf context [])
  rw [report_interfaceOf, List.nil_append, checkMembers] at alone
  obtain ⟨member, given, checked⟩ := lift_bind_eq_iff.mp alone
  obtain rfl := Tree.asNode_eq_ok_iff.mp given
  obtain ⟨named, read, -⟩ := lift_bind_eq_iff.mp checked
  rcases cases_of_namedKey? read with ⟨-, unordered⟩ | ⟨p, signed, -⟩
  · exact unordered
  · have visible : "id" ≠ "" := by decide
    -- An optional property makes a required one behind it late, and a required one is late itself
    -- behind an optional one.
    cases optional : p.isOptional with
    | true =>
      have silent := ignored [] [(signatureOf "id" false).toTree] (report_signatureOf context visible _)
      obtain ⟨parent, -, tells⟩ := report_ok known (.interface rfl rfl) silent
      have late := List.forall₂_nil_right_iff.mp tells
      rw [List.nil_append, List.filterMap_cons_some (property?_of_signed signed),
        List.filterMap_cons_some (property?_of_signed (isSignedBy_signatureOf visible false)),
        late_cons, if_pos optional, late_cons] at late
      cases late
    | false =>
      have silent := ignored [(signatureOf "id" true).toTree] [] (report_signatureOf context visible _)
      obtain ⟨parent, -, tells⟩ := report_ok known (.interface rfl rfl) silent
      have late := List.forall₂_nil_right_iff.mp tells
      rw [List.singleton_append,
        List.filterMap_cons_some (property?_of_signed (isSignedBy_signatureOf visible true)),
        List.filterMap_cons_some (property?_of_signed signed), late_cons, if_pos rfl, late_cons,
        if_neg (by simp [optional])] at late
      cases late

/-- Declarations with the same properties lead to reports of the same keys. -/
theorem tells_same {context' : RuleContext} {reports' : List Violation}
    (known : context.info = info) (known' : context'.info = info) (lists : Lists c items)
    (lists' : Lists d others) (same : items.filterMap property? = others.filterMap property?)
    (ran : (looks context).report c = ⟨reports, .ok ()⟩)
    (ran' : (looks context').report d = ⟨reports', .ok ()⟩) :
    ∃ parent parent' late, declaredName c.node = .ok parent ∧ declaredName d.node = .ok parent' ∧
      List.Forall₂ (Tells context parent) late reports ∧
      List.Forall₂ (Tells context' parent') late reports' := by
  obtain ⟨parent, named, tells⟩ := report_ok known lists ran
  obtain ⟨parent', named', tells'⟩ := report_ok known' lists' ran'
  rw [← same] at tells'
  exact ⟨parent, parent', _, named, named', tells, tells'⟩

end Rules.MemberOrder

namespace Lint
open Rules

section

variable [Host] {file file' : ParsedFile} {cwd cwd' : Option String}
  {setting setting' : RuleSetting}

/-- The unordered members are those that make no difference to a declaration, wherever they are put
or taken away: it is reported, or fails, as before. So two declarations of files of TypeScript in
which the same properties stand in the same order lead to reports of the same keys in the same
order, whatever unordered members stand between them. -/
theorem unorderedMembers_outcome
    (works : MemberOrder.WorksOn (contextFor file cwd MemberOrder.rule setting))
    (works' : MemberOrder.WorksOn (contextFor file' cwd' MemberOrder.rule setting')) :
    let context := contextFor file cwd MemberOrder.rule setting
    let context' := contextFor file' cwd' MemberOrder.rule setting'
    ∃ listeners listeners', MemberOrder.rule.listeners context = .ok listeners ∧
      MemberOrder.rule.listeners context' = .ok listeners' ∧
      (∀ t, MemberOrder.IsUnordered t ↔ ∀ c d before after,
        MemberOrder.Lists c (before ++ after) → MemberOrder.Lists d (before ++ t :: after) →
        MemberOrder.declaredName c.node = MemberOrder.declaredName d.node →
        ∀ memory reports memory',
          Watcher.Hears c (listeners.awaiting ⟨c.node.type, .enter⟩) memory reports memory' ↔
            Watcher.Hears d (listeners.awaiting ⟨d.node.type, .enter⟩) memory reports memory') ∧
      ∀ c d items others, MemberOrder.Lists c items → MemberOrder.Lists d others →
        items.filterMap MemberOrder.property? = others.filterMap MemberOrder.property? →
        ∀ memory memory' reports reports' after after',
          Watcher.Hears c (listeners.awaiting ⟨c.node.type, .enter⟩) memory reports after →
          Watcher.Hears d (listeners'.awaiting ⟨d.node.type, .enter⟩) memory' reports' after' →
          ∃ parent parent' late, MemberOrder.declaredName c.node = .ok parent ∧
            MemberOrder.declaredName d.node = .ok parent' ∧
            List.Forall₂ (MemberOrder.Tells context parent) late reports ∧
            List.Forall₂ (MemberOrder.Tells context' parent') late reports' := by
  intro context context'
  have distinct := MemberOrder.looks_distinct
  refine ⟨_, _, MemberOrder.listeners_eq_of_worksOn works,
    MemberOrder.listeners_eq_of_worksOn works', fun t => ?_, ?_⟩
  · simp only [Looks.hears_enter_iff (distinct _)]
    constructor
    · intro unordered c d before after without inside named memory reports memory'
      rw [MemberOrder.report_insert unordered without inside named]
    · intro ignored
      have known : context.info = MemberOrder.info := rfl
      refine MemberOrder.isUnordered_of_ignored known fun before after silent => ?_
      let without := Cursor.ofRoot (MemberOrder.interfaceOf (before ++ after))
      let inside := Cursor.ofRoot (MemberOrder.interfaceOf (before ++ t :: after))
      have alike := ignored without inside before after (.interface rfl rfl) (.interface rfl rfl)
        rfl [] [] []
      exact (alike.mp ⟨silent, rfl⟩).1
  · intro c d items others lists lists' same memory memory' reports reports' after after' hears
      hears'
    simp only [Looks.hears_enter_iff (distinct _)] at hears hears'
    exact MemberOrder.tells_same rfl rfl lists lists' same hears.1 hears'.1

end

attribute [local instance] Host.usual in
/-- A method between an optional and a required property makes no difference to what is reported. -/
theorem unorderedMembers_outcome_method :
    let method : Tree := .node "TSMethodSignature" [("key", .node "Identifier"
      [("name", .value (.str "run"))]), ("optional", .value (.bool true))]
    let nickname := (MemberOrder.signatureOf "nickname" true).toTree
    let id := (MemberOrder.signatureOf "id" false).toTree
    let file := interfaceFile [nickname, id]
    let file' := interfaceFile [nickname, method, id]
    let context := contextFor file none MemberOrder.rule ⟨.error, []⟩
    let context' := contextFor file' none MemberOrder.rule ⟨.error, []⟩
    MemberOrder.WorksOn context ∧ MemberOrder.WorksOn context' ∧ MemberOrder.IsUnordered method ∧
      ∀ reports, (MemberOrder.looks context).report (.ofRoot file.source.root) =
          ⟨reports, .ok ()⟩ ↔
        (MemberOrder.looks context).report (.ofRoot file'.source.root) = ⟨reports, .ok ()⟩ := by
  intro method nickname id file file' context context'
  have works := worksOn_interfaceFile [nickname, id]
  have works' := worksOn_interfaceFile [nickname, method, id]
  have unordered : MemberOrder.IsUnordered method := ⟨⟨_, _⟩, rfl, .inl (by decide)⟩
  refine ⟨works, works', unordered, fun reports => ?_⟩
  obtain ⟨listeners, -, made, -, ignored, -⟩ := unorderedMembers_outcome works works'
  cases made.symm.trans (MemberOrder.listeners_eq_of_worksOn works)
  have alike := (ignored method).mp unordered (.ofRoot file.source.root) (.ofRoot file'.source.root)
    [nickname] [id] (.interface rfl rfl) (.interface rfl rfl) rfl [] reports []
  simpa [Looks.hears_enter_iff (MemberOrder.looks_distinct _)] using alike

attribute [local instance] Host.usual in
/-- A computed member that is an optional property with a name makes a difference: behind it a
required property is reported, and without it nothing is. -/
theorem computed_not_ignored :
    let computed : Tree := .node "TSPropertySignature" [("computed", .value (.bool true)),
      ("key", .node "Identifier" [("name", .value (.str "nickname"))]),
      ("optional", .value (.bool true))]
    let id := (MemberOrder.signatureOf "id" false).toTree
    let config : Configuration := ⟨[], [("interface-type-required-first", ⟨.error, []⟩)]⟩
    ∃ result result', run config (interfaceFile [computed, id]) none = .ok result ∧
      run config (interfaceFile [id]) none = .ok result' ∧
      result.violations.map Violation.data = [[("name", "id"), ("parent", "IUser")]] ∧
      result'.violations = [] := by
  intro computed id config
  have reports : (run config (interfaceFile [computed, id]) none).toOption.any
      (fun result => decide (result.violations.map Violation.data =
        [[("name", "id"), ("parent", "IUser")]])) = true := by decide +kernel
  have silent : (run config (interfaceFile [id]) none).toOption.any
      (fun result => decide (result.violations = [])) = true := by decide +kernel
  obtain ⟨result, ran, told⟩ := exists_ok_of_any reports
  obtain ⟨result', ran', none⟩ := exists_ok_of_any silent
  exact ⟨result, result', ran, ran', of_decide_eq_true told, of_decide_eq_true none⟩

end Lint

end TreeLint
