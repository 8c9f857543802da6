import TreeLint.Proofs.Trimming
import TreeLint.Text.Integer

/-! Texts made of digits only. Such a text has no sign, no white space and no underscores, so reading
an integer from it comes down to its decimal digits: the leading ones are counted, and all of them
have to be decimal for the text to spell an integer. -/

namespace TreeLint.Text

variable {c : Char} {cs : List Char}

theorem isDigit_of_isDecimal (decimal : isDecimal c = true) : isDigit c = true := by
  rw [isDigit, decimal, Bool.true_or]

theorem isDigit_of_isBlank (blank : isBlank c = true) : isDigit c = false := by
  have apart : ∀ range ∈ blankRanges, ∀ n ∈ List.range' range.1 (range.2 + 1 - range.1),
      isDigit (Char.ofNat n) = false := by decide
  rw [isBlank, Ranges.contains, List.any_eq_true] at blank
  obtain ⟨⟨low, high⟩, member, within⟩ := blank
  simp only [Bool.and_eq_true, decide_eq_true_eq] at within
  have holds := apart _ member c.toNat (List.mem_range'_1.mpr (by omega))
  rwa [Char.ofNat_toNat] at holds

theorem isMargin_of_isDigit (digit : isDigit c = true) : isMargin c = false := by
  rw [isMargin, Bool.and_eq_false_iff]
  left
  cases blank : isBlank c with
  | false => rfl
  | true => rw [isDigit_of_isBlank blank] at digit; cases digit

theorem isDigitOrJoint_of_isDigit (digit : isDigit c = true) : isDigitOrJoint c = isDecimal c := by
  have other : c ≠ '_' := by
    rintro rfl
    revert digit
    decide
  rw [isDigitOrJoint, decide_eq_false other, Bool.false_or]

theorem pieces_of_not_mem {separator : Char} (absent : separator ∉ cs) :
    pieces separator cs = [cs] := by
  induction cs with
  | nil => rfl
  | cons c rest ih =>
    obtain ⟨other, absent⟩ := not_or.mp (mt List.mem_cons.mpr absent)
    rw [pieces, if_neg (Ne.symm other), ih absent]

theorem span_congr {test other : Char → Bool} (same : ∀ c ∈ cs, test c = other c) :
    cs.takeWhile test = cs.takeWhile other ∧ cs.dropWhile test = cs.dropWhile other := by
  induction cs with
  | nil => exact ⟨rfl, rfl⟩
  | cons c rest ih =>
    obtain ⟨here, later⟩ := List.forall_mem_cons.mp same
    obtain ⟨taken, dropped⟩ := ih later
    rw [List.takeWhile_cons, List.takeWhile_cons, List.dropWhile_cons, List.dropWhile_cons, here,
      taken, dropped]
    exact ⟨rfl, rfl⟩

theorem length_filterMap_decimal (decimal : ∀ c ∈ cs, isDecimal c = true) :
    (cs.filterMap decimalValue?).length = cs.length := by
  rw [List.length_filterMap_eq_countP]
  exact List.countP_eq_length.mpr decimal

/-- Characters with decimal values are decimal digits, and the values are all of theirs. -/
theorem decimal_iff {digits : List Nat} : cs.map decimalValue? = digits.map some ↔
    (∀ c ∈ cs, isDecimal c = true) ∧ cs.filterMap decimalValue? = digits := by
  constructor
  · intro values
    refine ⟨fun c member => ?_, ?_⟩
    · have among : decimalValue? c ∈ digits.map some := values ▸ List.mem_map_of_mem member
      obtain ⟨d, -, value⟩ := List.mem_map.mp among
      rw [isDecimal, ← value]
      rfl
    · have same := congrArg (List.filterMap id) values
      simpa [List.filterMap_map] using same
  · rintro ⟨decimal, rfl⟩
    induction cs with
    | nil => rfl
    | cons c rest ih =>
      obtain ⟨here, later⟩ := List.forall_mem_cons.mp decimal
      obtain ⟨d, value⟩ := Option.isSome_iff_exists.mp here
      rw [List.map_cons, List.filterMap_cons_some value, List.map_cons, ih later, value]

theorem isJoined_of_decimal (filled : cs ≠ []) (decimal : ∀ c ∈ cs, isDecimal c = true) :
    isJoined cs = true := by
  have absent : '_' ∉ cs := fun member => absurd (decimal '_' member) (by decide)
  rw [isJoined, pieces_of_not_mem absent]
  simpa using filled

/-- What comes behind the leading decimal digits is no white space, so it has to be nothing. -/
theorem all_isMargin_dropWhile (digits : ∀ c ∈ cs, isDigit c = true) :
    (cs.dropWhile isDecimal).all isMargin = cs.all isDecimal := by
  cases rest : cs.dropWhile isDecimal with
  | nil => rw [List.all_nil, eq_comm, List.all_eq_true, ← List.dropWhile_eq_nil_iff, rest]
  | cons c more =>
    have member : c ∈ cs := (List.dropWhile_sublist isDecimal).subset (rest ▸ List.mem_cons_self)
    have other : isDecimal c = false := by
      have stops := List.head?_dropWhile_not isDecimal cs
      rwa [rest] at stops
    rw [List.all_cons, isMargin_of_isDigit (digits c member), Bool.false_and, eq_comm,
      List.all_eq_false]
    exact ⟨c, member, by simp [other]⟩

/-- The integer that a text of digits spells. -/
theorem readDigits_of_digits (filled : cs ≠ []) (digits : ∀ c ∈ cs, isDigit c = true) :
    readDigits cs =
      if digitLimit < (cs.takeWhile isDecimal).length then
        .tooLong (cs.takeWhile isDecimal).length
      else if cs.all isDecimal then .value (ofDigits (cs.filterMap decimalValue?))
      else .malformed := by
  have joints := span_congr fun c member => isDigitOrJoint_of_isDigit (digits c member)
  have decimal : ∀ c ∈ cs.takeWhile isDecimal, isDecimal c = true := fun c =>
    List.mem_takeWhile_imp
  simp only [readDigits, joints, length_filterMap_decimal decimal, all_isMargin_dropWhile digits]
  have whole (all : cs.all isDecimal = true) : cs.takeWhile isDecimal = cs :=
    List.takeWhile_eq_self_iff.mpr (List.all_eq_true.mp all)
  -- With no leading decimal digit there is nothing to join, and the first digit is not decimal.
  by_cases none : cs.takeWhile isDecimal = []
  · have other : cs.all isDecimal = false :=
      Bool.eq_false_iff.mpr fun all => filled ((whole all).symm.trans none)
    rw [none, other]
    rfl
  · rw [isJoined_of_decimal none decimal, Bool.not_true, if_neg Bool.false_ne_true]
    cases all : cs.all isDecimal with
    | false => rfl
    | true => rw [whole all]

theorem readInteger_of_digits {s : String} (filled : s.toList ≠ [])
    (digits : ∀ c ∈ s.toList, isDigit c = true) : readInteger s = readDigits s.toList := by
  obtain ⟨c, rest, reads⟩ := List.exists_cons_of_ne_nil filled
  have digit : isDigit c = true := digits c (reads ▸ List.mem_cons_self)
  have stays : s.toList.dropWhile isMargin = c :: rest := by
    rw [reads, List.dropWhile_cons_of_neg (by simp [isMargin_of_isDigit digit])]
  rw [readInteger, stays, reads]
  split
  · rename_i same
    cases same
    exact absurd digit (by decide)
  · rename_i same
    cases same
    exact absurd digit (by decide)
  · rfl

end TreeLint.Text
