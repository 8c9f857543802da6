import TreeLint.Proofs.Regex
import TreeLint.Text.Color

/-! Colors in a text. What the scan looks for at each place is said without reference to it, and is
what one regular expression matches, in which case is ignored. The expression bounds the number of
digits of a hash, takes the `a` of a function as a letter that may be there, and asks for an edge of
a word on both sides of a name. -/

namespace TreeLint.Text.Color

/-- A color stands at the start of a text, given the character before it: a hash with three or more
hexadecimal digits, a call of a color function with a closing parenthesis somewhere behind it, or a
color name with no word character on either side. -/
inductive Stands (before : Option Char) : List Char → Prop
  | hash {digits rest : List Char} : 3 ≤ digits.length → (∀ c ∈ digits, isHex c = true) →
      Stands before ('#' :: digits ++ rest)
  | call {function : String} {written rest : List Char} : function ∈ functions →
      written.map fold = function.toList → ')' ∈ rest → Stands before (written ++ '(' :: rest)
  | name {name : String} {written rest : List Char} : name ∈ names →
      written.map fold = name.toList → (∀ c ∈ before, isWord c = false) →
      (∀ c ∈ rest.head?, isWord c = false) → Stands before (written ++ rest)

/-- A letter or sign of the expression, in any case. -/
abbrev sign (w : Char) : Regex := .char fun c => fold c = w

def hashExpression : Regex :=
  .seq (sign '#') (.group (.run (fun c => isHex (fold c)) 3 (some 8) false))

/-- A call of a function whose name may have an `a` at its end. -/
def callExpression (function : String) : Regex :=
  .seq (.spelled fold function.toList) (.seq (.optional fold 'a')
    (.seq (sign '(') (.seq (.many fun c => fold c ≠ ')') (sign ')'))))

def nameExpression : Regex :=
  .seq .edge (.seq (.group (.oneOf (names.map fun name => .spelled fold name.toList))) .edge)

def expression : Regex :=
  .either hashExpression (.either (callExpression "rgb") (.either (callExpression "hsl")
    nameExpression))

variable {before : Option Char} {c w : Char} {cs word rest : List Char} {p : Place}

/-- Ignoring case leaves a character as it is, or makes it a small letter. In that case it is a word
character, and as much a hexadecimal digit as the letter. -/
theorem fold_cases (c : Char) :
    fold c = c ∨ ('a' ≤ fold c ∧ fold c ≤ 'z') ∧ isWord c = true ∧ isHex (fold c) = isHex c := by
  by_cases special : c = '\u0130' ∨ c = '\u0131' ∨ c = '\u017f' ∨ c = '\u212a'
  · rcases special with rfl | rfl | rfl | rfl <;> exact .inr (by decide +kernel)
  · by_cases upper : 'A' ≤ c ∧ c ≤ 'Z'
    · have each : ∀ n ∈ List.range' 65 26, ('a' ≤ fold (Char.ofNat n) ∧ fold (Char.ofNat n) ≤ 'z') ∧
          isWord (Char.ofNat n) = true ∧
          isHex (fold (Char.ofNat n)) = isHex (Char.ofNat n) := by decide +kernel
      have among : c.toNat ∈ List.range' 65 26 := by
        obtain ⟨least, most⟩ := upper
        rw [Char.le_def, UInt32.le_iff_toNat_le] at least most
        exact List.mem_range'_1.mpr ⟨least, Nat.lt_succ_of_le most⟩
      have this := each c.toNat among
      rw [Char.ofNat_toNat] at this
      exact .inr this
    · left
      simp only [not_or] at special
      have folded : fold c = c.toLower := by simp [fold, special]
      exact folded.trans (dif_neg upper)

theorem isHex_fold (c : Char) : isHex (fold c) = isHex c := by
  rcases fold_cases c with same | ⟨-, -, same⟩
  · rw [same]
  · exact same

/-- Only small letters stand for other characters. -/
theorem fold_eq_iff (fixed : fold w = w) (other : ¬ ('a' ≤ w ∧ w ≤ 'z')) : fold c = w ↔ c = w := by
  constructor
  · rintro rfl
    rcases fold_cases c with same | ⟨letter, -, -⟩
    · exact same.symm
    · exact absurd letter other
  · rintro rfl
    exact fixed

theorem isWord_of_fold (letter : 'a' ≤ fold c ∧ fold c ≤ 'z') : isWord c = true := by
  rcases fold_cases c with same | ⟨-, isWord, -⟩
  · rw [same] at letter
    obtain ⟨least, most⟩ := letter
    rw [Char.le_def, UInt32.le_iff_toNat_le] at least most
    have range : (97, 122) ∈ wordRanges := by decide +kernel
    have inside : (97 ≤ c.toNat && c.toNat ≤ 122 : Bool) = true :=
      Bool.and_eq_true_iff.mpr ⟨decide_eq_true least, decide_eq_true most⟩
    exact List.any_eq_true.mpr ⟨_, range, inside⟩
  · exact isWord

theorem after?_eq_some_iff :
    after? word cs = some rest ↔ ∃ written, cs = written ++ rest ∧ written.map fold = word := by
  induction word generalizing cs with
  | nil => simp [after?, eq_comm]
  | cons w word ih =>
    cases cs with
    | nil => simp [after?]
    | cons c cs =>
      rw [after?]
      by_cases same : fold c = w
      · rw [if_pos same, ih]
        constructor
        · rintro ⟨written, rfl, rfl⟩
          exact ⟨c :: written, rfl, by rw [List.map_cons, same]⟩
        · rintro ⟨written, reads, spells⟩
          obtain ⟨d, written, rfl, -, rfl⟩ := List.map_eq_cons_iff.mp spells
          obtain ⟨-, rfl⟩ := List.cons.inj reads
          exact ⟨written, rfl, rfl⟩
      · rw [if_neg same]
        refine iff_of_false nofun ?_
        rintro ⟨written, reads, spells⟩
        obtain ⟨d, written, rfl, here, -⟩ := List.map_eq_cons_iff.mp spells
        exact same ((List.cons.inj reads).1 ▸ here)

/-! What the scan finds at a place. -/

theorem hashHere_iff : hashHere cs = true ↔ ∃ digits rest, cs = '#' :: digits ++ rest ∧
    3 ≤ digits.length ∧ ∀ c ∈ digits, isHex c = true := by
  constructor
  · intro here
    unfold hashHere at here
    split at here
    · rename_i a b c rest
      simp only [Bool.and_eq_true] at here
      exact ⟨[a, b, c], rest, rfl, le_refl 3, by simp [here]⟩
    · cases here
  · rintro ⟨digits, rest, rfl, long, hex⟩
    obtain ⟨a, b, c, digits, rfl⟩ : ∃ a b c more, digits = a :: b :: c :: more := by
      match digits, long with
      | a :: b :: c :: more, _ => exact ⟨a, b, c, more, rfl⟩
    simp only [List.forall_mem_cons] at hex
    simp [hashHere, hex.1, hex.2.1, hex.2.2.1]

theorem callHere_iff : callHere cs = true ↔ ∃ function ∈ functions, ∃ written rest,
    cs = written ++ '(' :: rest ∧ written.map fold = function.toList ∧ ')' ∈ rest := by
  simp only [callHere, List.any_eq_true]
  refine exists_congr fun function => and_congr_right fun _ => ?_
  constructor
  · intro here
    split at here
    · rename_i rest found
      obtain ⟨written, rfl, spells⟩ := after?_eq_some_iff.mp found
      exact ⟨written, rest, rfl, spells, by simpa using here⟩
    · cases here
  · rintro ⟨written, rest, rfl, spells, closed⟩
    rw [after?_eq_some_iff.mpr ⟨written, rfl, spells⟩]
    simpa using closed

theorem endsWord_iff {next : Option Char} :
    endsWord next = true ↔ ∀ c ∈ next, isWord c = false := by
  cases next <;> simp [endsWord]

theorem nameHere_iff : nameHere before cs = true ↔ (∀ c ∈ before, isWord c = false) ∧
    ∃ name ∈ names, ∃ written rest, cs = written ++ rest ∧ written.map fold = name.toList ∧
      ∀ c ∈ rest.head?, isWord c = false := by
  simp only [nameHere, Bool.and_eq_true, endsWord_iff, List.any_eq_true]
  refine and_congr_right fun _ => exists_congr fun name => and_congr_right fun _ => ?_
  constructor
  · intro here
    split at here
    · rename_i rest found
      obtain ⟨written, rfl, spells⟩ := after?_eq_some_iff.mp found
      exact ⟨written, rest, rfl, spells, endsWord_iff.mp here⟩
    · cases here
  · rintro ⟨written, rest, rfl, spells, ends⟩
    rw [after?_eq_some_iff.mpr ⟨written, rfl, spells⟩]
    exact endsWord_iff.mpr ends

theorem stands_iff :
    Stands before cs ↔ hashHere cs = true ∨ callHere cs = true ∨ nameHere before cs = true := by
  rw [hashHere_iff, callHere_iff, nameHere_iff]
  constructor
  · rintro (⟨long, hex⟩ | ⟨among, spells, closed⟩ | ⟨among, spells, starts, ends⟩)
    · exact .inl ⟨_, _, rfl, long, hex⟩
    · exact .inr (.inl ⟨_, among, _, _, rfl, spells, closed⟩)
    · exact .inr (.inr ⟨starts, _, among, _, _, rfl, spells, ends⟩)
  · rintro (⟨digits, rest, rfl, long, hex⟩ | ⟨function, among, written, rest, rfl, spells, closed⟩ |
      ⟨starts, name, among, written, rest, rfl, spells, ends⟩)
    · exact .hash long hex
    · exact .call among spells closed
    · exact .name among spells starts ends

theorem names_letters :
    ∀ name ∈ names, name.toList ≠ [] ∧ ∀ c ∈ name.toList, 'a' ≤ c ∧ c ≤ 'z' := by
  have letters : (names.all fun name => !name.toList.isEmpty &&
      name.toList.all fun c => 'a'.toNat ≤ c.toNat && c.toNat ≤ 'z'.toNat) = true := by
    decide +kernel
  intro name among
  have holds := List.all_eq_true.mp letters name among
  simp only [Bool.and_eq_true, Bool.not_eq_true', List.isEmpty_eq_false_iff, List.all_eq_true,
    decide_eq_true_eq] at holds
  exact ⟨holds.1, fun c member => ⟨UInt32.le_iff_toNat_le.mpr (holds.2 c member).1,
    UInt32.le_iff_toNat_le.mpr (holds.2 c member).2⟩⟩

theorem not_stands_nil : ¬ Stands before [] := by
  rw [stands_iff, nameHere_iff]
  rintro (here | here | ⟨-, name, among, written, rest, split, spells, -⟩)
  · cases here
  · revert here
    decide
  · obtain ⟨rfl, -⟩ := List.append_eq_nil_iff.mp split.symm
    exact (names_letters name among).1 spells.symm

/-- The scan finds a color exactly where one stands. -/
theorem foundFrom_iff : foundFrom before cs = true ↔ Somewhere Stands before cs := by
  induction cs generalizing before with
  | nil => simp [foundFrom, somewhere_nil, not_stands_nil]
  | cons c rest ih =>
    rw [foundFrom, Bool.or_eq_true, ih, somewhere_cons, stands_iff]
    simp only [Bool.or_eq_true, or_assoc]

/-! What the expression matches at a place. -/

theorem mem_ends_sign (fixed : fold w = w) (other : ¬ ('a' ≤ w ∧ w ≤ 'z')) {q : Place} :
    q ∈ (sign w).ends p ↔ ∃ rest, p.rest = w :: rest ∧ q = p.past [w] rest := by
  simp only [Regex.mem_ends_char, decide_eq_true_eq, fold_eq_iff fixed other]
  constructor
  · rintro ⟨_, rest, reads, rfl, rfl⟩
    exact ⟨rest, reads, rfl⟩
  · rintro ⟨rest, reads, rfl⟩
    exact ⟨w, rest, reads, rfl, rfl⟩

theorem hashExpression_iff : (∃ q, q ∈ hashExpression.ends p) ↔ hashHere p.rest = true := by
  simp only [hashExpression, Regex.mem_ends_seq, Regex.mem_ends_group, Regex.mem_ends_run,
    mem_ends_sign (show fold '#' = '#' by decide) (by decide), isHex_fold, hashHere_iff]
  constructor
  · rintro ⟨_, _, ⟨_, reads, rfl⟩, _, ⟨digits, rest, rfl, hex, long, -⟩, -⟩
    exact ⟨digits, rest, reads, long, hex⟩
  · rintro ⟨digits, rest, reads, long, hex⟩
    refine ⟨_, _, ⟨digits ++ rest, reads, rfl⟩, _,
      ⟨digits.take 8, digits.drop 8 ++ rest, ?_, ?_, ?_, ?_, rfl⟩, rfl⟩
    · rw [← List.append_assoc, List.take_append_drop]
      rfl
    · exact fun c member => hex c (List.mem_of_mem_take member)
    · rw [List.length_take]
      omega
    · rintro _ ⟨⟩
      rw [List.length_take]
      omega

/-- A call is matched with the optional letter or without it. The characters up to the first closing
parenthesis are none, so that a parenthesis anywhere behind will do. -/
theorem callExpression_iff {function : String} :
    (∃ q, q ∈ (callExpression function).ends p) ↔
      ∃ word, (word = function.toList ∨ word = function.toList ++ ['a']) ∧ ∃ written rest,
        p.rest = written ++ '(' :: rest ∧ written.map fold = word ∧ ')' ∈ rest := by
  simp only [callExpression, Regex.mem_ends_seq, Regex.mem_ends_spelled, Regex.mem_ends_optional,
    Regex.mem_ends_many, mem_ends_sign (show fold '(' = '(' by decide) (by decide),
    mem_ends_sign (show fold ')' = ')' by decide) (by decide), decide_eq_true_eq]
  constructor
  · rintro ⟨_, _, ⟨written, _, reads, spells, rfl⟩, _, ⟨letter, _, rfl, optional, rfl⟩, _,
      ⟨_, rfl, rfl⟩, _, ⟨arguments, _, rfl, -, rfl⟩, rest, rfl, rfl⟩
    refine ⟨_, ?_, written ++ letter, arguments ++ ')' :: rest, ?_, rfl, by simp⟩
    · rw [List.map_append, spells]
      rcases optional with none | one
      · exact .inl (by rw [none, List.append_nil])
      · exact .inr (by rw [one])
    · rw [reads, List.append_assoc]
  · rintro ⟨word, named, written, rest, reads, spells, closed⟩
    obtain ⟨stem, letter, rfl, stems, optional⟩ : ∃ stem letter, written = stem ++ letter ∧
        stem.map fold = function.toList ∧ (letter.map fold = [] ∨ letter.map fold = ['a']) := by
      rcases named with rfl | rfl
      · exact ⟨written, [], (List.append_nil _).symm, spells, .inl rfl⟩
      · obtain ⟨stem, letter, rfl, stems, letters⟩ := List.map_eq_append_iff.mp spells
        exact ⟨stem, letter, rfl, stems, .inr letters⟩
    obtain ⟨arguments, last, rfl, bare⟩ := List.eq_append_cons_of_mem closed
    rw [List.append_assoc] at reads
    refine ⟨_, _, ⟨stem, _, reads, stems, rfl⟩, _, ⟨letter, _, rfl, optional, rfl⟩, _,
      ⟨_, rfl, rfl⟩, _, ⟨arguments, _, rfl, fun c member same => bare ?_, rfl⟩, last, rfl, rfl⟩
    rwa [← (fold_eq_iff (show fold ')' = ')' by decide) (by decide)).mp same]

/-- The letters of a name are word characters however they are written, so an edge in front of a name
and one behind it say that no word character stands there. -/
theorem edges_of_written {name : String} {written : List Char} (before : Option Char)
    (rest : List Char) (among : name ∈ names) (spells : written.map fold = name.toList) :
    (before.any isWord ≠ (written ++ rest).head?.any isWord ↔ ∀ c ∈ before, isWord c = false) ∧
    ((written.getLast?.or before).any isWord ≠ rest.head?.any isWord ↔
      ∀ c ∈ rest.head?, isWord c = false) := by
  obtain ⟨some, letters⟩ := names_letters name among
  have words (c : Char) (member : c ∈ written) : isWord c = true :=
    isWord_of_fold (letters _ (spells ▸ List.mem_map_of_mem member))
  have nonempty : written ≠ [] := by
    rintro rfl
    exact some spells.symm
  have first : (written ++ rest).head?.any isWord = true := by
    obtain ⟨c, more, rfl⟩ := List.exists_cons_of_ne_nil nonempty
    exact words c List.mem_cons_self
  have last : (written.getLast?.or before).any isWord = true := by
    rw [List.getLast?_eq_some_getLast nonempty]
    exact words _ (List.getLast_mem nonempty)
  have none (next : Option Char) : next.any isWord ≠ true ↔ ∀ c ∈ next, isWord c = false := by
    cases next <;> simp
  rw [first, last, ne_comm (a := true)]
  exact ⟨none before, none rest.head?⟩

theorem nameExpression_iff :
    (∃ q, q ∈ nameExpression.ends p) ↔ nameHere p.before p.rest = true := by
  simp only [nameExpression, Regex.mem_ends_seq, Regex.mem_ends_group, Regex.mem_ends_edge,
    Regex.mem_ends_oneOf, List.mem_map, nameHere_iff]
  constructor
  · rintro ⟨_, _, ⟨starts, rfl⟩, _, ⟨_, ⟨_, ⟨name, among, rfl⟩, spelled⟩, rfl⟩, ends, rfl⟩
    obtain ⟨written, rest, reads, spells, rfl⟩ := Regex.mem_ends_spelled.mp spelled
    rw [reads] at starts
    exact ⟨(edges_of_written _ _ among spells).1.mp starts, name, among, written, rest, reads, spells,
      (edges_of_written _ _ among spells).2.mp ends⟩
  · rintro ⟨starts, name, among, written, rest, reads, spells, ends⟩
    have edges := edges_of_written p.before rest among spells
    rw [← reads] at edges
    exact ⟨_, p, ⟨edges.1.mpr starts, rfl⟩, _, ⟨p.past written rest, ⟨_, ⟨name, among, rfl⟩,
      Regex.mem_ends_spelled.mpr ⟨written, rest, reads, spells, rfl⟩⟩, rfl⟩, edges.2.mpr ends, rfl⟩

theorem expression_iff : (∃ q, q ∈ expression.ends p) ↔ Stands p.before p.rest := by
  have four (word : List Char) :
      (∃ function ∈ functions, word = function.toList) ↔
        (word = "rgb".toList ∨ word = "rgb".toList ++ ['a']) ∨
          (word = "hsl".toList ∨ word = "hsl".toList ++ ['a']) := by
    simp [functions, or_assoc]
  have calls : callHere p.rest = true ↔ (∃ q, q ∈ (callExpression "rgb").ends p) ∨
      ∃ q, q ∈ (callExpression "hsl").ends p := by
    simp only [callExpression_iff, callHere_iff, ← exists_or, ← or_and_right, ← four]
    constructor
    · rintro ⟨function, among, written, rest, reads, spells, closed⟩
      exact ⟨_, ⟨function, among, rfl⟩, written, rest, reads, spells, closed⟩
    · rintro ⟨_, ⟨function, among, rfl⟩, written, rest, reads, spells, closed⟩
      exact ⟨function, among, written, rest, reads, spells, closed⟩
  simp only [expression, Regex.mem_ends_either, exists_or, hashExpression_iff, nameExpression_iff,
    stands_iff, calls, or_assoc]

/-- What the search for colors comes to. It finds a color just when the expression for colors has a
match somewhere in the text, and just when a hash with digits, a call of a color function or a color
name stands there. -/
theorem isFound_outcome (s : String) :
    isFound s = (expression.search none s.toList).isSome ∧
    (isFound s = true ↔ ∃ first rest, s.toList = first ++ rest ∧ Stands first.getLast? rest) := by
  have found : isFound s = true ↔ Somewhere Stands none s.toList := foundFrom_iff
  constructor
  · rw [Bool.eq_iff_iff, found, Regex.isSome_search_iff]
    simp only [expression_iff]
  · simpa only [Somewhere, Option.or_none] using found

end TreeLint.Text.Color
