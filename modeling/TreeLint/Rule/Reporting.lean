import TreeLint.Fault
import TreeLint.Rule.Violation

/-! Computations that report violations. A fault stops the computation, and the reports made before
it stand. -/

namespace TreeLint

/-- The reports of a computation, in order, and its result. -/
structure Reporting (α : Type) where
  reports : List Violation
  result : Read α

namespace Reporting

/-- Go on with a result, unless there is a fault. -/
def andThen {α β : Type} (x : Reporting α) (f : α → Reporting β) : Reporting β :=
  match x.result with
  | .ok a => ⟨x.reports ++ (f a).reports, (f a).result⟩
  | .error fault => ⟨x.reports, .error fault⟩

instance : Monad Reporting where
  pure a := ⟨[], .ok a⟩
  bind := andThen

instance : MonadLift Read Reporting where
  monadLift x := ⟨[], x⟩

def report (v : Violation) : Reporting Unit := ⟨[v], .ok ()⟩

end Reporting

end TreeLint
