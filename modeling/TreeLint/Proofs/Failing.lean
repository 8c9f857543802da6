import TreeLint.Proofs.Reporting
import TreeLint.Value.Written

/-! Computations that fail. Steps in a row fail at the first of them that does, with its error; and a
message fails that has to show a value which is nested too deeply or holds too large an integer. -/

namespace TreeLint

section

variable {ε ε' α β : Type} {x : Except ε α} {f : α → Except ε β}

theorem ok_bind (a : α) : (Except.ok a >>= f) = f a := rfl

theorem bind_error_iff {error : ε} :
    (x >>= f) = .error error ↔ x = .error error ∨ ∃ a, x = .ok a ∧ f a = .error error := by
  cases x <;> simp [Bind.bind, Except.bind]

theorem exists_bind_ok_iff : (∃ b, (x >>= f) = .ok b) ↔ ∃ a, x = .ok a ∧ ∃ b, f a = .ok b := by
  cases x <;> simp [Bind.bind, Except.bind]

theorem check_bind_ok_iff {check : Except ε Unit} {f : Unit → Except ε α} {a : α} :
    (check >>= f) = .ok a ↔ check = .ok () ∧ f () = .ok a := by
  cases check <;> simp [Bind.bind, Except.bind]

theorem mapError_error_iff {g : ε → ε'} {error : ε'} :
    x.mapError g = .error error ↔ ∃ cause, x = .error cause ∧ error = g cause := by
  cases x with
  | ok a =>
    constructor
    · nofun
    · rintro ⟨cause, same, -⟩
      cases same
  | error cause =>
    constructor
    · rintro ⟨⟩
      exact ⟨cause, rfl, rfl⟩
    · rintro ⟨_, ⟨⟩, rfl⟩
      rfl

/-- A computation fails, if it does, with an error of some kind only. -/
def FailsOnly (kind : ε → Prop) (x : Except ε α) : Prop :=
  ∀ error, x = .error error → kind error

variable {kind : ε → Prop}

theorem failsOnly_ok (a : α) : FailsOnly kind (.ok a : Except ε α) := nofun

theorem failsOnly_error {error : ε} (holds : kind error) :
    FailsOnly kind (.error error : Except ε α) := by
  rintro _ ⟨⟩
  exact holds

theorem failsOnly_iff : FailsOnly kind x ↔
    (∃ a, x = .ok a) ∨ ∃ error, kind error ∧ x = .error error := by
  cases x <;> simp [FailsOnly]

/-- Two steps fail with errors of a kind only if both of them do. -/
theorem failsOnly_bind : FailsOnly kind (x >>= f) ↔
    FailsOnly kind x ∧ ∀ a, x = .ok a → FailsOnly kind (f a) := by
  cases x <;> simp [FailsOnly, Bind.bind, Except.bind]

theorem failsOnly_mapError {kind : ε' → Prop} {g : ε → ε'} :
    FailsOnly kind (x.mapError g) ↔ FailsOnly (fun error => kind (g error)) x := by
  constructor
  · intro only error stopped
    exact only _ (mapError_error_iff.mpr ⟨error, stopped, rfl⟩)
  · intro only _ stopped
    obtain ⟨cause, failed, rfl⟩ := mapError_error_iff.mp stopped
    exact only cause failed

/-- A step whose errors are never of a kind has to succeed. -/
theorem failsOnly_of_never (never : ∀ error, ¬ kind error) :
    FailsOnly kind x ↔ ∃ a, x = .ok a := by
  simp [failsOnly_iff, never]

end

namespace Value

variable [Host] {v : Value} {levels : Nat}

/-- A message can show the value, within some levels. -/
def Showable (v : Value) (levels : Nat) : Prop := ∃ written, v.shown levels = .ok written

theorem not_showable_iff : ¬ v.Showable levels ↔ ∃ fault, v.shown levels = .error fault := by
  cases told : v.shown levels <;> simp [Showable, told]

theorem showable_iff : v.Showable levels ↔ v.checkWritable levels = .ok () := by
  cases told : v.checkWritable levels <;>
    simp [Showable, shown, told, Bind.bind, Except.bind, Pure.pure, Except.pure]

end Value

end TreeLint
