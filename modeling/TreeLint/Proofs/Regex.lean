import Mathlib.Data.List.TakeWhile
import TreeLint.Text.Word

/-! Regular expressions, matched with backtracking. The ends of the matches at a place form a list in
the order in which they are tried, so that the first of them is the match that is found. Searching
takes the leftmost place with a match, and replacing goes on behind each match. -/

namespace TreeLint.Text

/-- Something holds somewhere in a text, of the character before and the text after the place. -/
def Somewhere (P : Option Char → List Char → Prop) (before : Option Char) (cs : List Char) : Prop :=
  ∃ first rest, cs = first ++ rest ∧ P (first.getLast?.or before) rest

theorem somewhere_nil {P : Option Char → List Char → Prop} {before : Option Char} :
    Somewhere P before [] ↔ P before [] := by
  constructor
  · rintro ⟨first, rest, split, holds⟩
    obtain ⟨rfl, rfl⟩ := List.append_eq_nil_iff.mp split.symm
    exact holds
  · exact fun holds => ⟨[], [], rfl, holds⟩

theorem somewhere_cons {P : Option Char → List Char → Prop} {before : Option Char} {c : Char}
    {rest : List Char} :
    Somewhere P before (c :: rest) ↔ P before (c :: rest) ∨ Somewhere P (some c) rest := by
  have last (first : List Char) :
      (c :: first).getLast?.or before = first.getLast?.or (some c) := by
    rw [List.getLast?_cons]
    cases first.getLast? <;> rfl
  constructor
  · rintro ⟨_ | ⟨d, first⟩, later, split, holds⟩
    · exact .inl (split ▸ holds)
    · obtain ⟨rfl, rfl⟩ := List.cons.inj split
      exact .inr ⟨first, later, rfl, last first ▸ holds⟩
  · rintro (here | ⟨first, later, rfl, holds⟩)
    · exact ⟨[], c :: rest, rfl, here⟩
    · exact ⟨c :: first, later, rfl, (last first).symm ▸ holds⟩

/-- A place that matching has come to: the character before it, the text after it, and what the last
group held. -/
structure Place where
  before : Option Char
  rest : List Char
  held : List Char := []

namespace Place

def after (p : Place) (n : Nat) : Place :=
  { p with before := (p.rest.take n).getLast?.or p.before, rest := p.rest.drop n }

def past (p : Place) (taken rest : List Char) : Place :=
  { p with before := taken.getLast?.or p.before, rest }

theorem after_eq_past (p : Place) (n : Nat) : p.after n = p.past (p.rest.take n) (p.rest.drop n) :=
  rfl

@[simp] theorem past_nil (p : Place) : p.past [] p.rest = p := rfl

@[simp] theorem past_past (p : Place) (one two rest last : List Char) :
    (p.past one rest).past two last = p.past (one ++ two) last := by
  simp only [past, List.getLast?_append, Option.or_assoc]

@[simp] theorem past_rest (p : Place) (taken rest : List Char) : (p.past taken rest).rest = rest :=
  rfl

theorem after_length {p : Place} {taken rest : List Char} (reads : p.rest = taken ++ rest) :
    p.after taken.length = p.past taken rest := by
  rw [after_eq_past, reads, List.take_left, List.drop_left]

@[simp] theorem after_rest (p : Place) (n : Nat) : (p.after n).rest = p.rest.drop n := rfl

end Place

/-- Regular expressions. A run is a number of characters of one class, between two bounds; a lazy
run tries the shortest first and any other run the longest. -/
inductive Regex where
  | fail
  | empty
  | edge
  | char (test : Char → Bool)
  | run (test : Char → Bool) (least : Nat) (most : Option Nat) (isLazy : Bool)
  | seq (first second : Regex)
  | either (first second : Regex)
  | group (inside : Regex)

namespace Regex

/-- The places at which a match can end, in the order in which they are tried. -/
def ends : Regex → Place → List Place
  | fail, _ => []
  | empty, p => [p]
  | edge, p => if p.before.any isWord = p.rest.head?.any isWord then [] else [p]
  | char test, p => match p.rest with
    | c :: _ => if test c then [p.after 1] else []
    | [] => []
  | run test least most isLazy, p =>
    let longest := min (p.rest.takeWhile test).length (most.getD p.rest.length)
    let lengths := List.range' least (longest + 1 - least)
    (if isLazy then lengths else lengths.reverse).map p.after
  | seq r s, p => (r.ends p).flatMap s.ends
  | either r s, p => r.ends p ++ s.ends p
  | group r, p =>
    (r.ends p).map fun q => { q with held := p.rest.take (p.rest.length - q.rest.length) }

/-- As many characters of a class as there are, or else fewer. -/
def many (test : Char → Bool) : Regex := run test 0 none false

/-- A character that may be there, where characters with one image count as the same. -/
def optional (fold : Char → Char) (w : Char) : Regex := run (fun c => fold c = w) 0 (some 1) false

/-- The characters of a word, where characters with one image count as the same. -/
def spelled (fold : Char → Char) : List Char → Regex
  | [] => empty
  | w :: word => seq (char fun c => fold c = w) (spelled fold word)

/-- One of some expressions, the first that matches. -/
def oneOf : List Regex → Regex
  | [] => fail
  | r :: rest => either r (oneOf rest)

def at? (r : Regex) (before : Option Char) (cs : List Char) : Option Place :=
  (r.ends ⟨before, cs, []⟩).head?

/-- The end of the leftmost match in a text, given the character before the text. -/
def search (r : Regex) (before : Option Char) (cs : List Char) : Option Place :=
  match cs with
  | [] => r.at? before []
  | c :: rest => (r.at? before (c :: rest)).or (r.search (some c) rest)

/-- Put something in the place of every match, from left to right, given the text of the match and
what its group holds. A match of no characters is passed over. -/
def replaceAll (r : Regex) (put : List Char → List Char → List Char) (before : Option Char)
    (cs : List Char) : List Char :=
  match cs with
  | [] => []
  | c :: rest => match r.at? before (c :: rest) with
    | some q =>
      if _shorter : q.rest.length < (c :: rest).length then
        put ((c :: rest).take ((c :: rest).length - q.rest.length)) q.held
          ++ r.replaceAll put q.before q.rest
      else c :: r.replaceAll put (some c) rest
    | none => c :: r.replaceAll put (some c) rest
termination_by cs.length
decreasing_by
  · assumption
  all_goals exact Nat.lt_add_one rest.length

variable {r s : Regex} {p q : Place} {test : Char → Bool}

@[simp] theorem not_mem_ends_fail : q ∉ fail.ends p := List.not_mem_nil

@[simp] theorem mem_ends_empty : q ∈ empty.ends p ↔ q = p := List.mem_singleton

@[simp] theorem mem_ends_seq : q ∈ (seq r s).ends p ↔ ∃ m ∈ r.ends p, q ∈ s.ends m :=
  List.mem_flatMap

@[simp] theorem mem_ends_either : q ∈ (either r s).ends p ↔ q ∈ r.ends p ∨ q ∈ s.ends p :=
  List.mem_append

theorem mem_ends_group : q ∈ (group r).ends p ↔ ∃ m ∈ r.ends p,
    q = { m with held := p.rest.take (p.rest.length - m.rest.length) } := by
  simp only [ends, List.mem_map, eq_comm]

theorem mem_ends_edge :
    q ∈ edge.ends p ↔ p.before.any isWord ≠ p.rest.head?.any isWord ∧ q = p := by
  simp only [ends]
  split <;> simp_all

theorem mem_ends_char :
    q ∈ (char test).ends p ↔
      ∃ c rest, p.rest = c :: rest ∧ test c = true ∧ q = p.past [c] rest := by
  simp only [ends]
  cases reads : p.rest with
  | nil => simp
  | cons c rest =>
    have next : p.after 1 = p.past [c] rest := Place.after_length (show p.rest = [c] ++ rest from reads)
    by_cases passes : test c = true
    · simp only [passes, if_true, next, List.mem_singleton, List.cons.injEq]
      constructor
      · rintro rfl
        exact ⟨c, rest, ⟨rfl, rfl⟩, passes, rfl⟩
      · rintro ⟨_, _, ⟨rfl, rfl⟩, -, same⟩
        exact same
    · simp [passes]

theorem mem_ends_run {least : Nat} {most : Option Nat} {isLazy : Bool} :
    q ∈ (run test least most isLazy).ends p ↔ ∃ taken rest, p.rest = taken ++ rest ∧
      (∀ c ∈ taken, test c = true) ∧ least ≤ taken.length ∧ (∀ m ∈ most, taken.length ≤ m) ∧
      q = p.past taken rest := by
  have split : p.rest = p.rest.takeWhile test ++ p.rest.dropWhile test :=
    List.takeWhile_append_dropWhile.symm
  have either : q ∈ (run test least most isLazy).ends p ↔
      ∃ n, least ≤ n ∧ n ≤ (p.rest.takeWhile test).length ∧ n ≤ most.getD p.rest.length ∧
        q = p.after n := by
    have lengths (n : Nat) : n ∈ List.range' least (min (p.rest.takeWhile test).length
        (most.getD p.rest.length) + 1 - least) ↔
        least ≤ n ∧ n ≤ (p.rest.takeWhile test).length ∧ n ≤ most.getD p.rest.length := by
      rw [List.mem_range'_1]
      omega
    -- The order of the lengths makes no difference to which of them there are.
    cases isLazy <;> simp [ends, lengths, and_assoc, eq_comm]
  rw [either]
  constructor
  · rintro ⟨n, low, high, bound, rfl⟩
    have inside := congrArg List.length split
    rw [List.length_append] at inside
    have size : (p.rest.take n).length = n := by
      rw [List.length_take]
      omega
    refine ⟨p.rest.take n, p.rest.drop n, (List.take_append_drop n p.rest).symm, ?_, ?_, ?_, rfl⟩
    · intro c member
      rw [split, List.take_append_of_le_length high] at member
      exact List.mem_takeWhile_imp (List.mem_of_mem_take member)
    · rwa [size]
    · rintro m rfl
      rwa [size]
  · rintro ⟨taken, rest, reads, all, low, bound, rfl⟩
    refine ⟨taken.length, low, ?_, ?_, (Place.after_length reads).symm⟩
    · rw [reads, List.takeWhile_append_of_pos all, List.length_append]
      exact Nat.le_add_right _ _
    · cases most with
      | none => simp [reads]
      | some m => exact bound m rfl

theorem mem_ends_many : q ∈ (many test).ends p ↔ ∃ taken rest, p.rest = taken ++ rest ∧
    (∀ c ∈ taken, test c = true) ∧ q = p.past taken rest := by
  simp [many, mem_ends_run]

theorem mem_ends_optional {fold : Char → Char} {w : Char} :
    q ∈ (optional fold w).ends p ↔ ∃ taken rest, p.rest = taken ++ rest ∧
      (taken.map fold = [] ∨ taken.map fold = [w]) ∧ q = p.past taken rest := by
  rw [optional, mem_ends_run]
  refine exists_congr fun taken => exists_congr fun rest => and_congr_right fun _ => ?_
  match taken with
  | [] => simp
  | [c] => simp
  | c :: d :: more => simp

theorem mem_ends_spelled {fold : Char → Char} {word : List Char} :
    q ∈ (spelled fold word).ends p ↔ ∃ taken rest, p.rest = taken ++ rest ∧
      taken.map fold = word ∧ q = p.past taken rest := by
  induction word generalizing p with
  | nil =>
    simp only [spelled, mem_ends_empty, List.map_eq_nil_iff]
    constructor
    · rintro rfl
      exact ⟨[], q.rest, rfl, rfl, rfl⟩
    · rintro ⟨_, rest, reads, rfl, rfl⟩
      obtain rfl : p.rest = rest := reads
      exact p.past_nil
  | cons w word ih =>
    simp only [spelled, mem_ends_seq, mem_ends_char, ih, decide_eq_true_eq]
    constructor
    · rintro ⟨_, ⟨c, _, reads, same, rfl⟩, taken, last, rfl, spells, rfl⟩
      refine ⟨c :: taken, last, reads, ?_, Place.past_past ..⟩
      rw [List.map_cons, same, spells]
    · rintro ⟨taken, last, reads, spells, rfl⟩
      obtain ⟨c, taken, rfl, same, spells⟩ := List.map_eq_cons_iff.mp spells
      exact ⟨_, ⟨c, taken ++ last, reads, same, rfl⟩, taken, last, rfl, spells,
        (p.past_past [c] taken _ last).symm⟩

theorem mem_ends_oneOf {options : List Regex} :
    q ∈ (oneOf options).ends p ↔ ∃ r ∈ options, q ∈ r.ends p := by
  induction options with
  | nil => simp [oneOf]
  | cons r rest ih => simp [oneOf, ih]

theorem ends_many : (many test).ends p =
    (List.range' 0 ((p.rest.takeWhile test).length + 1)).reverse.map p.after := by
  have bounded := (p.rest.takeWhile_sublist test).length_le
  simp [many, ends, bounded]

theorem ends_group_lazy : (group (run test 1 none true)).ends p =
    (List.range' 1 (p.rest.takeWhile test).length).map fun n =>
      { p.after n with held := p.rest.take n } := by
  have bounded := (p.rest.takeWhile_sublist test).length_le
  simp only [ends, if_true, Option.getD_none, Nat.min_eq_left bounded, Nat.add_sub_cancel,
    List.map_map]
  refine List.map_congr_left fun n member => ?_
  rw [List.mem_range'_1] at member
  have count : p.rest.length - (p.rest.drop n).length = n := by
    rw [List.length_drop]
    omega
  simp only [Function.comp_apply, Place.after_rest, count]

theorem range'_eq_append {start size n : Nat} (low : start ≤ n) (high : n < start + size) :
    List.range' start size =
      List.range' start (n - start) ++ n :: List.range' (n + 1) (start + size - n - 1) := by
  have sizes : n - start + (start + size - n - 1 + 1) = size := by omega
  have whole := @List.range'_append_1 start (n - start) (start + size - n - 1 + 1)
  rw [sizes, Nat.add_sub_cancel' low, List.range'_succ] at whole
  exact whole.symm

/-- What begins with a run matches with the longest run behind which the rest matches. -/
theorem head?_seq_many {n : Nat} (fits : n ≤ (p.rest.takeWhile test).length)
    (found : (r.ends (p.after n)).head? = some q)
    (longer : ∀ m, n < m → m ≤ (p.rest.takeWhile test).length →
      (r.ends (p.after m)).head? = none) :
    ((seq (many test) r).ends p).head? = some q := by
  rw [ends, List.head?_flatMap, ends_many, List.findSome?_map, List.findSome?_eq_some_iff,
    range'_eq_append (Nat.zero_le n) (by omega), List.reverse_append, List.reverse_cons,
    List.append_assoc]
  refine ⟨_, n, _, rfl, found, fun m member => ?_⟩
  rw [List.mem_reverse, List.mem_range'_1] at member
  exact longer m (by omega) (by omega)

/-- What begins with a lazy run in a group matches with the shortest run behind which the rest
matches. -/
theorem head?_seq_group_lazy {n : Nat} (filled : 1 ≤ n) (fits : n ≤ (p.rest.takeWhile test).length)
    (found : (r.ends { p.after n with held := p.rest.take n }).head? = some q)
    (shorter : ∀ m, 1 ≤ m → m < n →
      (r.ends { p.after m with held := p.rest.take m }).head? = none) :
    ((seq (group (run test 1 none true)) r).ends p).head? = some q := by
  rw [ends, List.head?_flatMap, ends_group_lazy, List.findSome?_map, List.findSome?_eq_some_iff,
    range'_eq_append filled (by omega)]
  refine ⟨_, n, _, rfl, found, fun m member => ?_⟩
  rw [List.mem_range'_1] at member
  exact shorter m (by omega) (by omega)

theorem replaceAll_of_match {put : List Char → List Char → List Char} {before : Option Char}
    {cs : List Char} (found : r.at? before cs = some q) (shorter : q.rest.length < cs.length) :
    r.replaceAll put before cs =
      put (cs.take (cs.length - q.rest.length)) q.held ++ r.replaceAll put q.before q.rest := by
  obtain ⟨c, rest, rfl⟩ := List.exists_cons_of_length_pos (Nat.zero_lt_of_lt shorter)
  rw [replaceAll, found]
  simp only [shorter, dif_pos]

theorem replaceAll_of_none {put : List Char → List Char → List Char} {before : Option Char} {c : Char}
    {rest : List Char} (none : r.at? before (c :: rest) = none) :
    r.replaceAll put before (c :: rest) = c :: r.replaceAll put (some c) rest := by
  rw [replaceAll, none]

theorem isSome_at?_iff {before : Option Char} {cs : List Char} :
    (r.at? before cs).isSome = true ↔ ∃ q, q ∈ r.ends ⟨before, cs, []⟩ := by
  rw [at?, List.isSome_head?]
  exact ⟨List.exists_mem_of_ne_nil _, fun ⟨_, member⟩ => List.ne_nil_of_mem member⟩

theorem isSome_search_iff {before : Option Char} {cs : List Char} :
    (r.search before cs).isSome = true ↔
      Somewhere (fun before cs => ∃ q, q ∈ r.ends ⟨before, cs, []⟩) before cs := by
  induction cs generalizing before with
  | nil => rw [search, isSome_at?_iff, somewhere_nil]
  | cons c rest ih =>
    rw [search, Option.isSome_or, Bool.or_eq_true, isSome_at?_iff, ih, somewhere_cons]

/-! Expressions for whole texts. -/

/-- An expression several times in a row, as often as it can but no more often than some number. -/
def repeated (r : Regex) : Nat → Regex
  | 0 => empty
  | most + 1 => either (seq r (repeated r most)) empty

/-- Whether an expression matches a text from its start to its end. A line feed at the very end need
not be matched. -/
def accepts (r : Regex) (cs : List Char) : Bool :=
  (r.ends ⟨none, cs, []⟩).any fun p => p.rest = [] || p.rest = ['\n']

/-- Wherever an expression is tried, the texts that it can take are those of a language. -/
def Takes (r : Regex) (L : List Char → Prop) : Prop :=
  ∀ (p : Place) (rest : List Char),
    (∃ q ∈ r.ends p, q.rest = rest) ↔ ∃ taken, p.rest = taken ++ rest ∧ L taken

/-- A text of a language, or one with a line feed behind it. -/
def MayFeed (L : List Char → Prop) (cs : List Char) : Prop :=
  L cs ∨ ∃ first, cs = first ++ ['\n'] ∧ L first

namespace Takes

variable {L M : List Char → Prop}

theorem empty : Regex.empty.Takes (· = []) := by
  intro p rest
  simp [eq_comm]

theorem char : (Regex.char test).Takes fun cs => ∃ c, cs = [c] ∧ test c = true := by
  intro p rest
  simp only [mem_ends_char]
  constructor
  · rintro ⟨_, ⟨c, rest, reads, passes, rfl⟩, rfl⟩
    exact ⟨[c], reads, c, rfl, passes⟩
  · rintro ⟨_, reads, c, rfl, passes⟩
    exact ⟨_, ⟨c, rest, reads, passes, rfl⟩, rfl⟩

theorem run {least : Nat} : (Regex.run test least none false).Takes fun cs =>
    least ≤ cs.length ∧ ∀ c ∈ cs, test c = true := by
  intro p rest
  simp only [mem_ends_run]
  constructor
  · rintro ⟨_, ⟨taken, rest, reads, all, long, -, rfl⟩, rfl⟩
    exact ⟨taken, reads, long, all⟩
  · rintro ⟨taken, reads, long, all⟩
    exact ⟨_, ⟨taken, rest, reads, all, long, nofun, rfl⟩, rfl⟩

theorem spelled (word : List Char) : (Regex.spelled id word).Takes (· = word) := by
  intro p rest
  simp only [mem_ends_spelled, List.map_id]
  constructor
  · rintro ⟨_, ⟨taken, rest, reads, same, rfl⟩, rfl⟩
    exact ⟨taken, reads, same⟩
  · rintro ⟨taken, reads, same⟩
    exact ⟨_, ⟨taken, rest, reads, same, rfl⟩, rfl⟩

theorem seq (first : r.Takes L) (second : s.Takes M) :
    (Regex.seq r s).Takes fun cs => ∃ one two, cs = one ++ two ∧ L one ∧ M two := by
  intro p rest
  simp only [mem_ends_seq]
  constructor
  · rintro ⟨q, ⟨m, between, last⟩, rfl⟩
    obtain ⟨two, reads, holds⟩ := (second m q.rest).mp ⟨q, last, rfl⟩
    obtain ⟨one, reads', holds'⟩ := (first p m.rest).mp ⟨m, between, rfl⟩
    exact ⟨one ++ two, by rw [reads', reads, List.append_assoc], one, two, rfl, holds', holds⟩
  · rintro ⟨_, reads, one, two, rfl, holds, holds'⟩
    obtain ⟨m, between, onward⟩ := (first p (two ++ rest)).mpr
      ⟨one, by rw [reads, List.append_assoc], holds⟩
    obtain ⟨q, last, same⟩ := (second m rest).mpr ⟨two, onward, holds'⟩
    exact ⟨q, ⟨m, between, last⟩, same⟩

theorem either (first : r.Takes L) (second : s.Takes M) :
    (Regex.either r s).Takes fun cs => L cs ∨ M cs := by
  intro p rest
  simp only [mem_ends_either, or_and_right, exists_or, first p rest, second p rest, and_or_left]

theorem group (inside : r.Takes L) : (Regex.group r).Takes L := by
  intro p rest
  rw [← inside p rest]
  simp only [mem_ends_group]
  constructor
  · rintro ⟨_, ⟨m, member, rfl⟩, rfl⟩
    exact ⟨m, member, rfl⟩
  · rintro ⟨m, member, rfl⟩
    exact ⟨_, ⟨m, member, rfl⟩, rfl⟩

theorem repeated (inside : r.Takes L) (most : Nat) : (r.repeated most).Takes fun cs =>
    ∃ parts : List (List Char), parts.length ≤ most ∧ (∀ part ∈ parts, L part) ∧
      cs = parts.flatten := by
  induction most with
  | zero =>
    intro p rest
    rw [Regex.repeated, Takes.empty p rest]
    simp
  | succ most ih =>
    intro p rest
    rw [Regex.repeated, (inside.seq ih).either Takes.empty p rest]
    refine exists_congr fun taken => and_congr_right fun _ => ?_
    constructor
    · rintro (⟨first, _, rfl, holds, parts, few, all, rfl⟩ | rfl)
      · exact ⟨first :: parts, Nat.succ_le_succ few, List.forall_mem_cons.mpr ⟨holds, all⟩, rfl⟩
      · exact ⟨[], Nat.zero_le _, List.forall_mem_nil _, rfl⟩
    · rintro ⟨_ | ⟨first, parts⟩, few, all, rfl⟩
      · exact .inr rfl
      · obtain ⟨holds, all⟩ := List.forall_mem_cons.mp all
        exact .inl ⟨first, _, rfl, holds, parts, Nat.le_of_succ_le_succ few, all, rfl⟩

theorem accepts_iff (takes : r.Takes L) {cs : List Char} :
    r.accepts cs = true ↔ MayFeed L cs := by
  have ends (rest : List Char) := takes ⟨none, cs, []⟩ rest
  simp only [accepts, List.any_eq_true, Bool.or_eq_true, decide_eq_true_eq, and_or_left, exists_or,
    ends, List.append_nil, MayFeed]
  simp

end Takes

end Regex

end TreeLint.Text
