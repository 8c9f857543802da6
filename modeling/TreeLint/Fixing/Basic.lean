import TreeLint.Rule.Violation
import TreeLint.Text.Basic

/-! Mending a text with the changes that come with violations. Changes are taken in the order of
their places; one that overlaps a change already taken is left for another run. -/

namespace TreeLint

/-- What became of a text: the text after the changes, and the violations whose changes were made
and those whose changes were not. -/
structure FixOutcome (α : Type) where
  text : List Char
  applied : List α
  skipped : List α

namespace Fixing

/-- Whether a change stands no later than another, by its start and then by its end. -/
def isBefore (a b : Fix) : Bool :=
  a.start.value < b.start.value || (a.start.value == b.start.value && a.stop.value ≤ b.stop.value)

/-- Whether a change can be made in a text of the given length after changes up to `last`. -/
def fits (length : Nat) (last : Int) (f : Fix) : Bool :=
  last ≤ f.start.value && 0 ≤ f.start.value && f.stop.value ≤ length
    && f.start.value ≤ f.stop.value

/-- Divide ordered changes into those to make and those to leave. -/
def select {α : Type} (length : Nat) : Int → List (α × Fix) →
    List (α × Fix) × List (α × Fix)
  | _, [] => ([], [])
  | last, (a, f) :: rest =>
    if fits length last f then
      let (taken, left) := select length f.stop.value rest
      ((a, f) :: taken, left)
    else
      let (taken, left) := select length last rest
      (taken, (a, f) :: left)

/-- Make ordered changes that do not overlap, in the text from `cursor` on. -/
def splice {α : Type} (text : List Char) (cursor : Int) : List (α × Fix) → List Char
  | [] => Text.slice text cursor text.length
  | (_, f) :: rest =>
    Text.slice text cursor f.start.value ++ (f.text.toList ++ splice text f.stop.value rest)

/-- Mend a text with the changes that come with some of the items. -/
def apply {α : Type} (fix? : α → Option Fix) (text : List Char) (items : List α) :
    FixOutcome α :=
  let candidates := items.filterMap fun a => (fix? a).map fun f => (a, f)
  let ordered := candidates.mergeSort fun a b => isBefore a.2 b.2
  let (taken, left) := select text.length (-1) ordered
  { text := splice text 0 taken, applied := taken.map (·.1), skipped := left.map (·.1) }

end Fixing

end TreeLint
