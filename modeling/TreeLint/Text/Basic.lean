/-! Pieces of texts: sets of characters, stretches between two offsets, and cuts at a character. An
offset below zero counts from the end, and an offset outside the text is moved to its nearest end. -/

namespace TreeLint.Text

/-- Closed ranges of code points, in ascending order. -/
abbrev Ranges := List (Nat × Nat)

def Ranges.contains (ranges : Ranges) (c : Char) : Bool :=
  ranges.any fun (low, high) => low ≤ c.toNat && c.toNat ≤ high

/-- The place between two characters that an offset denotes in a text of the given length. -/
def clampOffset (length : Nat) (offset : Int) : Nat :=
  min (if offset < 0 then offset + length else offset).toNat length

/-- The characters from one offset to another; none when the offsets are out of order. -/
def slice (cs : List Char) (first last : Int) : List Char :=
  (cs.take (clampOffset cs.length last)).drop (clampOffset cs.length first)

/-- The pieces between the occurrences of a character; one more than there are occurrences. -/
def pieces (separator : Char) : List Char → List (List Char)
  | [] => [[]]
  | c :: rest =>
    if c = separator then [] :: pieces separator rest
    else match pieces separator rest with
      | [] => [[c]]
      | piece :: more => (c :: piece) :: more

end TreeLint.Text
