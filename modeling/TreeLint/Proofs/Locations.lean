import Mathlib.Data.List.TakeWhile
import TreeLint.Proofs.Emission

/-! Lines and columns. Of the pieces between the line feeds of a text, a location names one and a
place in it, and the pieces before it make up the rest of the offset. So locations come in the order
of their offsets, and reports that are sorted by location are sorted by offset. -/

namespace TreeLint

namespace Text

/-- The offset at which a line starts, the first line being line zero: the characters of the lines
before it and a line feed for each of them. -/
def lineStart (lines : List (List Char)) (line : Nat) : Nat :=
  (lines.take line).flatten.length + line

/-- A line and a column point at an offset of the text with the given lines. -/
structure PointsAt (lines : List (List Char)) (location : Nat × Nat) (offset : Nat) : Prop where
  first : 1 ≤ location.1
  last : location.1 ≤ lines.length
  within : ∃ piece, lines[location.1 - 1]? = some piece ∧ location.2 ≤ piece.length
  offset_eq : lineStart lines (location.1 - 1) + location.2 = offset

@[simp] theorem lineStart_zero (lines : List (List Char)) : lineStart lines 0 = 0 := by
  simp [lineStart]

@[simp] theorem lineStart_cons (piece : List Char) (lines : List (List Char)) (line : Nat) :
    lineStart (piece :: lines) (line + 1) = piece.length + 1 + lineStart lines line := by
  simp only [lineStart, List.take_succ_cons, List.flatten_cons, List.length_append]
  omega

theorem lineStart_succ {lines : List (List Char)} {line : Nat} {piece : List Char}
    (holds : lines[line]? = some piece) :
    lineStart lines (line + 1) = lineStart lines line + piece.length + 1 := by
  simp only [lineStart, List.take_add_one, holds, Option.toList_some, List.flatten_append,
    List.flatten_cons, List.flatten_nil, List.append_nil, List.length_append]
  omega

theorem lineStart_mono (lines : List (List Char)) {line other : Nat} (before : line ≤ other) :
    lineStart lines line ≤ lineStart lines other := by
  have taken : lines.take line = (lines.take other).take line := by
    rw [List.take_take, Nat.min_eq_left before]
  have whole := congrArg (List.length ∘ List.flatten)
    (List.take_append_drop line (lines.take other))
  simp only [Function.comp_apply, List.flatten_append, List.length_append, ← taken] at whole
  simp only [lineStart]
  omega

namespace PointsAt

variable {lines : List (List Char)} {location other : Nat × Nat} {offset further : Nat}

theorem offset_zero (piece : List Char) : PointsAt (piece :: lines) (1, 0) 0 :=
  ⟨le_refl 1, Nat.le_add_left 1 _, ⟨piece, rfl, Nat.zero_le _⟩, by simp⟩

/-- A line feed in front moves the line. -/
theorem feed (here : PointsAt lines location offset) :
    PointsAt ([] :: lines) (location.1 + 1, location.2) (offset + 1) := by
  obtain ⟨first, last, ⟨piece, holds, inside⟩, total⟩ := here
  obtain ⟨line, same⟩ : ∃ line, location.1 = line + 1 := ⟨location.1 - 1, by omega⟩
  rw [same, Nat.add_sub_cancel] at holds total
  refine ⟨Nat.le_add_left 1 _, ?_, ⟨piece, ?_, inside⟩, ?_⟩
  · simpa using last
  · simpa [same] using holds
  · simp only [same, Nat.add_sub_cancel, lineStart_cons, List.length_nil]
    omega

/-- Another character in front moves the columns of the first line. -/
theorem onFirst {piece : List Char} {more : List (List Char)} (c : Char)
    (here : PointsAt (piece :: more) location offset) (first : location.1 = 1) :
    PointsAt ((c :: piece) :: more) (1, location.2 + 1) (offset + 1) := by
  obtain ⟨-, -, ⟨held, holds, inside⟩, total⟩ := here
  simp only [first, Nat.sub_self, List.getElem?_cons_zero, Option.some.injEq] at holds
  rw [first, Nat.sub_self, lineStart_zero] at total
  subst holds
  refine ⟨le_refl 1, Nat.le_add_left 1 _, ⟨c :: piece, rfl, ?_⟩, ?_⟩
  · exact Nat.succ_le_succ inside
  · simp only [Nat.sub_self, lineStart_zero]
    omega

/-- Another character in front leaves the locations on later lines. -/
theorem onLater {piece : List Char} {more : List (List Char)} (c : Char)
    (here : PointsAt (piece :: more) location offset) (later : location.1 ≠ 1) :
    PointsAt ((c :: piece) :: more) location (offset + 1) := by
  obtain ⟨first, last, ⟨held, holds, inside⟩, total⟩ := here
  obtain ⟨line, same⟩ : ∃ line, location.1 = line + 2 := ⟨location.1 - 2, by omega⟩
  simp only [same, Nat.add_succ_sub_one, lineStart_cons, List.getElem?_cons_succ] at holds total
  refine ⟨first, last, ⟨held, ?_, inside⟩, ?_⟩
  · simpa [same] using holds
  · simp only [same, Nat.add_succ_sub_one, lineStart_cons, List.length_cons]
    omega

/-- An offset on one line comes before every offset on a later line. -/
theorem lt_of_line_lt (here : PointsAt lines location offset)
    (there : PointsAt lines other further) (above : location.1 < other.1) : offset < further := by
  obtain ⟨piece, holds, inside⟩ := here.within
  have first := here.first
  have next : lineStart lines location.1 =
      lineStart lines (location.1 - 1) + piece.length + 1 := by
    have line : location.1 = location.1 - 1 + 1 := by omega
    rw [line]
    exact lineStart_succ holds
  have later : lineStart lines location.1 ≤ lineStart lines (other.1 - 1) :=
    lineStart_mono lines (by omega)
  have one := here.offset_eq
  have two := there.offset_eq
  omega

/-- Locations are in the order of the offsets that they point at. -/
theorem lt_iff (here : PointsAt lines location offset) (there : PointsAt lines other further) :
    toLex location < toLex other ↔ offset < further := by
  have one := here.offset_eq
  have two := there.offset_eq
  rw [Prod.Lex.toLex_lt_toLex]
  rcases Nat.lt_trichotomy location.1 other.1 with above | same | below
  · exact iff_of_true (.inl above) (here.lt_of_line_lt there above)
  · rw [same] at one
    omega
  · have before := there.lt_of_line_lt here below
    omega

theorem unique (here : PointsAt lines location offset) (there : PointsAt lines other offset) :
    location = other := by
  rcases lt_trichotomy (toLex location) (toLex other) with before | same | after
  · exact absurd ((here.lt_iff there).mp before) (lt_irrefl offset)
  · exact toLex.injective same
  · exact absurd ((there.lt_iff here).mp after) (lt_irrefl offset)

end PointsAt

theorem pieces_feed (separator : Char) (rest : List Char) :
    pieces separator (separator :: rest) = [] :: pieces separator rest := by
  rw [pieces, if_pos rfl]

theorem pieces_of_ne {separator c : Char} (other : c ≠ separator) {rest piece : List Char}
    {more : List (List Char)} (cut : pieces separator rest = piece :: more) :
    pieces separator (c :: rest) = (c :: piece) :: more := by
  rw [pieces, if_neg other, cut]

theorem pieces_cons (separator : Char) (text : List Char) :
    ∃ piece more, pieces separator text = piece :: more := by
  induction text with
  | nil => exact ⟨[], [], rfl⟩
  | cons c rest ih =>
    obtain ⟨piece, more, cut⟩ := ih
    by_cases same : c = separator
    · exact ⟨[], piece :: more, by rw [same, pieces_feed, cut]⟩
    · exact ⟨c :: piece, more, pieces_of_ne same cut⟩

/-- Put together with the separator between them, the pieces of a text are the text. -/
theorem intercalate_pieces (separator : Char) (text : List Char) :
    [separator].intercalate (pieces separator text) = text := by
  induction text with
  | nil => rfl
  | cons c rest ih =>
    obtain ⟨piece, more, cut⟩ := pieces_cons separator rest
    rw [cut] at ih
    by_cases same : c = separator
    · rw [same, pieces_feed, cut, List.intercalate_cons_of_ne_nil (List.cons_ne_nil _ _), ih]
      rfl
    · rw [pieces_of_ne same cut, ← ih]
      cases more with
      | nil => simp
      | cons next more =>
        simp only [List.intercalate_cons_of_ne_nil (List.cons_ne_nil _ _), List.cons_append]

theorem not_mem_of_mem_pieces {separator : Char} {text piece : List Char}
    (member : piece ∈ pieces separator text) : separator ∉ piece := by
  induction text generalizing piece with
  | nil =>
    obtain rfl := List.mem_singleton.mp member
    exact List.not_mem_nil
  | cons c rest ih =>
    by_cases same : c = separator
    · rw [same, pieces_feed] at member
      rcases List.mem_cons.mp member with rfl | later
      · exact List.not_mem_nil
      · exact ih later
    · obtain ⟨first, more, cut⟩ := pieces_cons separator rest
      rw [pieces_of_ne same cut] at member
      rw [cut] at ih
      rcases List.mem_cons.mp member with rfl | later
      · exact List.not_mem_cons_of_ne_of_not_mem (Ne.symm same) (ih List.mem_cons_self)
      · exact ih (List.mem_cons_of_mem _ later)

end Text

namespace SourceCode

open Text

theorem locate_zero (text : List Char) : locate text 0 = (1, 0) := by simp [locate]

/-- What a character in front changes: a line feed moves the line, and any other character moves the
columns of the first line. -/
theorem locate_cons (c : Char) (rest : List Char) (offset : Nat) :
    locate (c :: rest) (offset + 1) =
      if c = '\n' then ((locate rest offset).1 + 1, (locate rest offset).2)
      else if (locate rest offset).1 = 1 then (1, (locate rest offset).2 + 1)
      else locate rest offset := by
  simp only [locate, List.take_succ_cons, List.reverse_cons, List.count_cons]
  by_cases bare : ∀ d ∈ (rest.take offset).reverse, (d ≠ '\n' : Bool) = true
  · have none : (rest.take offset).count '\n' = 0 :=
      List.count_eq_zero.mpr fun member => by simpa using bare _ (List.mem_reverse.mpr member)
    simp only [List.takeWhile_append_of_pos bare, List.takeWhile_eq_self_iff.mpr bare, none]
    by_cases feed : c = '\n' <;> simp [feed]
  · have some : (rest.take offset).count '\n' ≠ 0 := by
      intro none
      refine bare fun d member => decide_eq_true fun same => ?_
      exact List.count_eq_zero.mp none (same ▸ List.mem_reverse.mp member)
    have short : ((rest.take offset).reverse.takeWhile (· ≠ '\n')).length ≠
        (rest.take offset).reverse.length := by
      intro long
      have whole := (List.takeWhile_sublist (· ≠ '\n')).eq_of_length long
      exact bare (List.takeWhile_eq_self_iff.mp whole)
    rw [List.takeWhile_append, if_neg short]
    by_cases feed : c = '\n' <;> simp [feed, some]

/-- A location points at the offset of which it is the location. The induction is on the text: each
character in front moves the offset by one, and by it the location. -/
theorem locate_pointsAt {text : List Char} {offset : Nat} (within : offset ≤ text.length) :
    PointsAt (pieces '\n' text) (locate text offset) offset := by
  induction text generalizing offset with
  | nil =>
    obtain rfl := Nat.le_zero.mp within
    rw [locate_zero]
    exact PointsAt.offset_zero []
  | cons c rest ih =>
    cases offset with
    | zero =>
      obtain ⟨piece, more, cut⟩ := pieces_cons '\n' (c :: rest)
      rw [locate_zero, cut]
      exact PointsAt.offset_zero piece
    | succ offset =>
      have here := ih (Nat.le_of_succ_le_succ within)
      rw [locate_cons]
      by_cases feed : c = '\n'
      · rw [if_pos feed, feed, pieces_feed]
        exact here.feed
      · obtain ⟨piece, more, cut⟩ := pieces_cons '\n' rest
        rw [if_neg feed, pieces_of_ne feed cut]
        rw [cut] at here
        by_cases first : (locate rest offset).1 = 1
        · rw [if_pos first]
          exact here.onFirst c first
        · rw [if_neg first]
          exact here.onLater c first

/-- The offset of a text that is nearest to an offset. -/
def clamped (source : SourceCode) (offset : Int) : Int := max 0 (min offset source.text.length)

theorem locationOf_pointsAt (source : SourceCode) (offset : Int) :
    PointsAt (pieces '\n' source.text) (source.locationOf offset) (source.clamped offset).toNat := by
  have nearest : (source.clamped offset).toNat = min offset.toNat source.text.length := by
    rw [clamped]
    omega
  rw [nearest]
  exact locate_pointsAt (Nat.min_le_right _ _)

theorem locationOf_lt_iff (source : SourceCode) (offset other : Int) :
    toLex (source.locationOf offset) < toLex (source.locationOf other) ↔
      source.clamped offset < source.clamped other := by
  rw [(source.locationOf_pointsAt offset).lt_iff (source.locationOf_pointsAt other)]
  simp only [clamped]
  omega

/-- A report stands where a node starts of which only the offset is known. -/
def RangeLocated (source : SourceCode) (v : Violation) (offset : Int) : Prop :=
  ∃ n start, (n.line = none ∨ n.column = none) ∧ n.start = .ok (some start) ∧
    start.value = offset ∧ source.nodeLocation n = .ok (v.line, v.column)

variable {source : SourceCode} {v w : Violation} {offset other : Int}

theorem RangeLocated.place_eq (located : source.RangeLocated v offset) :
    v.place = toLex (((source.locationOf offset).1 : Int), ((source.locationOf offset).2 : Int)) := by
  obtain ⟨n, start, unknown, starts, rfl, located⟩ := located
  have read : source.nodeLocation n = .ok (.int (source.locationOf start.value).1,
      .int (source.locationOf start.value).2) := by
    unfold nodeLocation
    split
    · rename_i line column known known'
      simp [known, known'] at unknown
    · rw [starts]
      rfl
  obtain ⟨line, column⟩ := Prod.mk.inj (Except.ok.inj (located.symm.trans read))
  rw [Violation.place, line, column]
  rfl

theorem RangeLocated.place_le_iff (here : source.RangeLocated v offset)
    (there : source.RangeLocated w other) :
    v.place ≤ w.place ↔ source.clamped offset ≤ source.clamped other := by
  rw [here.place_eq, there.place_eq, ← not_lt, ← not_lt, ← locationOf_lt_iff]
  simp only [Prod.Lex.toLex_lt_toLex]
  norm_cast

/-- What locations come to. The location of an offset, moved into the text, is the one line and
column that point at it among the pieces between line feeds. Inside the text locations differ and
are in the order of the offsets. So the order of the locations puts reports whose nodes have offsets
only into the stable order of these offsets, as it does in the result of a run. -/
theorem locationOf_outcome [Host] (source : SourceCode) :
    ([ '\n' ].intercalate (pieces '\n' source.text) = source.text ∧
      ∀ piece ∈ pieces '\n' source.text, '\n' ∉ piece) ∧
    (∀ offset location, location = source.locationOf offset ↔
      PointsAt (pieces '\n' source.text) location (source.clamped offset).toNat) ∧
    (∀ offset other, 0 ≤ offset → offset < other → other ≤ source.text.length →
      (source.locationOf offset).1 < (source.locationOf other).1 ∨
        (source.locationOf offset).1 = (source.locationOf other).1 ∧
          (source.locationOf offset).2 < (source.locationOf other).2) ∧
    (∀ offset other, 0 ≤ offset → offset ≤ source.text.length → 0 ≤ other →
      other ≤ source.text.length → source.locationOf offset = source.locationOf other →
      offset = other) ∧
    (∀ (found : List Violation) (offset : Violation → Int),
      (∀ v ∈ found, source.RangeLocated v (offset v)) →
      StableSort (fun v => source.clamped (offset v)) found
        (found.mergeSort Violation.isBefore)) ∧
    ∀ config filename path cwd result,
      Lint.run config ⟨filename, source, path⟩ cwd = .ok result →
      result.violations.Pairwise fun v w => ∀ offset other, source.RangeLocated v offset →
        source.RangeLocated w other → source.clamped offset ≤ source.clamped other := by
  refine ⟨⟨intercalate_pieces _ _, fun _ => not_mem_of_mem_pieces⟩, ?_, ?_, ?_, ?_, ?_⟩
  · intro offset location
    constructor
    · rintro rfl
      exact source.locationOf_pointsAt offset
    · exact fun points => points.unique (source.locationOf_pointsAt offset)
  · intro offset other low before high
    rw [← Prod.Lex.toLex_lt_toLex, locationOf_lt_iff]
    simp only [clamped]
    omega
  · intro offset other low high low' high' same
    have one := source.locationOf_pointsAt offset
    rw [same] at one
    have equal := one.offset_eq.symm.trans (source.locationOf_pointsAt other).offset_eq
    simp only [clamped] at equal
    omega
  · intro found offset located
    exact (Violation.stableSort_byPlace found).of_key fun v member w member' =>
      (located v member).place_le_iff (located w member')
  · intro config filename path cwd result gives
    obtain ⟨emitted, -, sorted, -⟩ := (Lint.run_ok_iff config _ cwd result).mp gives
    exact sorted.ordered.imp fun ordered _ _ here there => (here.place_le_iff there).mp ordered

end SourceCode

end TreeLint
