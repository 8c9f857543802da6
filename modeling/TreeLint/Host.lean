import TreeLint.Path.Filter

/-! What a run stands on without deciding it: how path patterns are understood, how far calls may be
nested where the program calls itself on its data, and which characters stand for what no character
is. The limit on nested calls is one of the machine, and the calls that are open already take their
part of it; so each place of the program has a number of levels of its own. -/

namespace TreeLint

/-- The machine under a run. A text here is made of characters, and half of a surrogate pair is none;
in a run whose documents hold halves, characters that occur nowhere else stand for them. -/
class Host where
  pathSpec : PathSpec
  /-- The levels of a value that is shown where presets should be named. -/
  presetLevels : Nat
  /-- The levels of a value that is shown where a severity should be. -/
  severityLevels : Nat
  /-- The levels of a part of an option that is shown, so many steps inside of the option. -/
  optionLevels : Nat → Nat
  /-- The most lists directly around a part of a tree. -/
  listLevels : Nat
  /-- The levels of the type of a root. -/
  rootLevels : Nat
  /-- The levels of the type of a node with so many lists directly around it. -/
  typeLevels : Nat → Nat
  /-- The levels of the kind and the text of a comment. -/
  commentLevels : Nat
  /-- The levels of the text of an element. -/
  textLevels : Nat
  /-- The levels that it takes to show a node. -/
  nodeLevels : Nat
  /-- The most containers that are open at once in a JSON file. -/
  documentLevels : Nat
  /-- The most containers that are open at once in a setting on the command line. -/
  overrideLevels : Nat
  /-- The room for nested values in a project file. -/
  settingsRoom : Nat
  /-- The levels of directories below one that is searched. -/
  directoryLevels : Nat
  /-- Whether a search asks where links lead before it passes them over. -/
  asksLinks : Bool
  /-- The levels of links that are resolved one inside of the other. -/
  linkLevels : Nat
  /-- The character that stands for half of a surrogate pair, and the half for which one stands. -/
  standIn : Nat → Char
  half? : Char → Option Nat
  half?_ascii : ∀ c : Char, c.toNat < 0x80 → half? c = none

/-- The code points of a text, those of halves of surrogate pairs among them. -/
def Host.codes [Host] (s : String) : List Nat := s.toList.map fun c => (half? c).getD c.toNat

/-- Whether a text does not come after another one in the order of their code points. -/
def Host.precedes [Host] (a b : String) : Bool := !List.lex (codes b) (codes a) Nat.blt

/-- The last characters of all, as stand-ins for the halves of surrogate pairs. -/
def Host.lastChar (half : Nat) : Char := Char.ofNat (0x10F800 + (half - 0xD800))

/-- A machine as it is found often, with patterns as version control understands them. -/
abbrev Host.usual : Host where
  pathSpec := .versionControl
  presetLevels := 980
  severityLevels := 980
  optionLevels _ := 980
  listLevels := 490
  rootLevels := 980
  typeLevels lists := 980 - 2 * lists
  commentLevels := 980
  textLevels := 980
  nodeLevels := 3
  documentLevels := 990
  overrideLevels := 990
  settingsRoom := 983
  directoryLevels := 980
  asksLinks := false
  linkLevels := 980
  standIn := lastChar
  half? c := if 0x10F800 ≤ c.toNat then some (0xD800 + (c.toNat - 0x10F800)) else none
  half?_ascii c ascii := if_neg (by omega)

end TreeLint
