import TreeLint.Rule.Reporting

/-! Laws of computations that report. A computation in steps gives a result exactly when each of
its steps does, and its reports are those of the steps, one after the other. -/

namespace TreeLint

theorem bind_ok_iff {ε α β : Type} {x : Except ε α} {f : α → Except ε β} {b : β} :
    (x >>= f) = .ok b ↔ ∃ a, x = .ok a ∧ f a = .ok b := by
  cases x <;> simp [Bind.bind, Except.bind]

theorem toOption_eq_some_iff {ε α : Type} {x : Except ε α} {a : α} :
    x.toOption = some a ↔ x = .ok a := by
  cases x <;> simp [Except.toOption]

theorem exists_ok_of_any {ε α : Type} {x : Except ε α} {p : α → Bool}
    (gives : x.toOption.any p = true) : ∃ a, x = .ok a ∧ p a = true := by
  cases x with
  | error e => cases gives
  | ok a => exact ⟨a, rfl, gives⟩

theorem exists_ok_of_isSome {ε α : Type} {x : Except ε α} (gives : x.toOption.isSome = true) :
    ∃ a, x = .ok a := by
  cases x with
  | error e => cases gives
  | ok a => exact ⟨a, rfl⟩

namespace Reporting

variable {α β : Type}

@[simp] theorem pure_eq_iff {a b : α} {reports : List Violation} :
    (pure a : Reporting α) = ⟨reports, .ok b⟩ ↔ reports = [] ∧ a = b := by
  simp [Pure.pure, eq_comm]

theorem bind_eq_iff {x : Reporting α} {f : α → Reporting β} {reports : List Violation} {b : β} :
    (x >>= f) = ⟨reports, .ok b⟩ ↔ ∃ first a second,
      x = ⟨first, .ok a⟩ ∧ f a = ⟨second, .ok b⟩ ∧ reports = first ++ second := by
  obtain ⟨made, result⟩ := x
  cases result with
  | error fault => simp [Bind.bind, andThen]
  | ok a =>
    have step : (⟨made, .ok a⟩ >>= f : Reporting β) = ⟨made ++ (f a).reports, (f a).result⟩ := rfl
    simp only [step, mk.injEq, Except.ok.injEq]
    constructor
    · rintro ⟨rfl, gives⟩
      exact ⟨made, a, (f a).reports, ⟨rfl, rfl⟩, by rw [← gives], rfl⟩
    · rintro ⟨first, a', second, ⟨rfl, rfl⟩, gives, rfl⟩
      simp [gives]

theorem lift_bind_eq_iff {x : Read α} {f : α → Reporting β} {reports : List Violation} {b : β} :
    ((liftM x : Reporting α) >>= f) = ⟨reports, .ok b⟩ ↔
      ∃ a, x = .ok a ∧ f a = ⟨reports, .ok b⟩ := by
  have lifted : (liftM x : Reporting α) = ⟨[], x⟩ := rfl
  rw [bind_eq_iff, lifted]
  constructor
  · rintro ⟨first, a, second, given, gives, rfl⟩
    cases given
    exact ⟨a, rfl, gives⟩
  · rintro ⟨a, rfl, gives⟩
    exact ⟨[], a, reports, rfl, gives, rfl⟩

theorem lift_ok_bind (a : α) (f : α → Reporting β) :
    ((liftM (.ok a : Read α) : Reporting α) >>= f) = f a := rfl

/-- Every report of a computation has a property. -/
def Only (P : Violation → Prop) (x : Reporting α) : Prop := ∀ v ∈ x.reports, P v

variable {P : Violation → Prop}

@[grind ←]
theorem only_pure (a : α) : (pure a : Reporting α).Only P := List.forall_mem_nil P

@[grind ←]
theorem only_lift (x : Read α) : (liftM x : Reporting α).Only P := List.forall_mem_nil P

theorem only_bind {x : Reporting α} {f : α → Reporting β} (first : x.Only P)
    (second : ∀ a, (f a).Only P) : (x >>= f).Only P := by
  obtain ⟨made, result⟩ := x
  cases result with
  | error fault => exact first
  | ok a => exact List.forall_mem_append.mpr ⟨first, second a⟩

theorem only_lift_bind_of_ok {x : Read α} {f : α → Reporting β}
    (next : ∀ a, x = .ok a → (f a).Only P) : ((liftM x : Reporting α) >>= f).Only P := by
  cases given : x with
  | error fault => exact only_lift (α := β) (.error fault)
  | ok a => exact next a given

@[grind ←]
theorem only_lift_bind {x : Read α} {f : α → Reporting β} (next : ∀ a, (f a).Only P) :
    ((liftM x : Reporting α) >>= f).Only P :=
  only_lift_bind_of_ok fun a _ => next a

end Reporting

end TreeLint
