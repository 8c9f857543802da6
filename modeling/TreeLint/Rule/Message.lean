import TreeLint.Text.Blank

/-! Message templates. A placeholder is a name between pairs of braces; white space around the name
does not count, and what is put in its place is not searched again. -/

namespace TreeLint.Message

def slot (name : String) : String := "\x7b\x7b" ++ name ++ "\x7d\x7d"

def isInner (c : Char) : Bool := c ≠ '\x7b' && c ≠ '\x7d'

/-- The inside of the placeholder that a text starts with, and the text after it. -/
def placeholder? : List Char → Option (List Char × List Char)
  | '\x7b' :: '\x7b' :: rest =>
    match rest.takeWhile isInner, rest.dropWhile isInner with
    | c :: inside, '\x7d' :: '\x7d' :: tail => some (c :: inside, tail)
    | _, _ => none
  | _ => none

theorem placeholder?_shorter {cs inside tail : List Char}
    (found : placeholder? cs = some (inside, tail)) : tail.length < cs.length := by
  unfold placeholder? at found
  split at found
  · rename_i rest
    split at found
    · rename_i c inner tail' taken dropped
      cases found
      have split : rest.takeWhile isInner ++ rest.dropWhile isInner = rest :=
        List.takeWhile_append_dropWhile
      rw [taken, dropped] at split
      rw [← split]
      simp only [List.length_cons, List.length_append]
      omega
    · cases found
  · cases found

/-- The name that a placeholder asks for. Of an inside that is all white space, the last character
is the name. -/
def slotName (inside : List Char) : List Char :=
  if Text.allBlank inside then inside.drop (inside.length - 1) else Text.strip inside

/-- What replaces a placeholder: the entry of its name, or else the placeholder itself. -/
def fill (data : List (String × String)) (inside : List Char) : List Char :=
  match data.lookup (String.ofList (slotName inside)) with
  | some text => text.toList
  | none => '\x7b' :: '\x7b' :: inside ++ ['\x7d', '\x7d']

def fillAll (data : List (String × String)) (template : List Char) : List Char :=
  match template with
  | [] => []
  | c :: rest =>
    match found : placeholder? (c :: rest) with
    | some (inside, tail) =>
      have := placeholder?_shorter found
      fill data inside ++ fillAll data tail
    | none => c :: fillAll data rest
termination_by template.length
decreasing_by
  · assumption
  · exact Nat.lt_add_one rest.length

def interpolate (template : String) (data : List (String × String)) : String :=
  if data.isEmpty then template else String.ofList (fillAll data template.toList)

end TreeLint.Message
