import Mathlib.Data.List.Forall2
import TreeLint.Proofs.Placeholders
import TreeLint.Proofs.Regex
import TreeLint.Proofs.Table

/-! Filling a template from a table. A template is cut in one way only into literal texts and the
placeholders between them, each the leftmost one behind the one before; a message is these texts in
turn with entries in the place of placeholders. The same is done by one regular expression, in which
white space around a name is read by runs that may give characters back. -/

namespace TreeLint.Message

open Text

/-- A stretch of a template. -/
inductive Part where
  | literal (text : List Char)
  | slot (inside : List Char)

/-- A template is cut at its placeholders, from left to right: in front of a cut no placeholder
starts, and behind it the search goes on. -/
inductive Splits : List Char → List Part → Prop
  | last {text : List Char} : (∀ first rest, text = first ++ rest → ¬ Opens rest) →
      Splits text [.literal text]
  | slot {text inside tail : List Char} {parts : List Part} : IsInside inside →
      (∀ first rest, text ++ braced inside ++ tail = first ++ rest → first.length < text.length →
        ¬ Opens rest) →
      Splits tail parts →
      Splits (text ++ braced inside ++ tail) (.literal text :: .slot inside :: parts)

/-- The name that a placeholder asks for: what is between its braces without the white space at both
ends, or the last character where there is nothing but white space. -/
inductive Asks : List Char → List Char → Prop
  | trimmed {inside name : List Char} : Trims inside name → name ≠ [] → Asks inside name
  | blank {before : List Char} {c : Char} : (∀ d ∈ before ++ [c], isBlank d = true) →
      Asks (before ++ [c]) [c]

/-- What a stretch becomes in a message: a placeholder gives way to the entry of its name and stays
as it is where there is none. -/
inductive Becomes (given : String → Option String) : Part → List Char → Prop
  | literal (text : List Char) : Becomes given (.literal text) text
  | entry {inside name : List Char} {text : String} : Asks inside name →
      given (String.ofList name) = some text → Becomes given (.slot inside) text.toList
  | kept {inside name : List Char} : Asks inside name → given (String.ofList name) = none →
      Becomes given (.slot inside) (braced inside)

def closing : Regex := .seq (.many isBlank) (.spelled id ['\x7d', '\x7d'])

/-- The expression for a name, which its group holds, and the end of a placeholder. -/
def named : Regex := .seq (.group (.run isInner 1 none true)) closing

def expression : Regex :=
  .seq (.spelled id ['\x7b', '\x7b']) (.seq (.many isBlank) named)

variable {cs inside tail name : List Char} {parts others : List Part}

theorem isInner_of_isBlank {c : Char} (blank : isBlank c = true) : isInner c = true := by
  rw [isInner_iff]
  constructor <;> (rintro rfl; revert blank; decide)

/-! How a template is cut. -/

theorem Splits.cons {c : Char} (closed : ¬ Opens (c :: cs)) (splits : Splits cs parts) :
    ∃ text more, parts = .literal text :: more ∧ Splits (c :: cs) (.literal (c :: text) :: more) := by
  cases splits with
  | last bare =>
    refine ⟨cs, [], rfl, .last fun first rest split => ?_⟩
    cases first with
    | nil =>
      obtain rfl : c :: cs = rest := split
      exact closed
    | cons d first => exact bare first rest (List.cons.inj split).2
  | @slot text inside tail parts within bare splits =>
    refine ⟨text, _, rfl, @Splits.slot (c :: text) _ _ _ within ?_ splits⟩
    intro first rest split before
    cases first with
    | nil =>
      obtain rfl : c :: (text ++ braced inside ++ tail) = rest := split
      exact closed
    | cons d first =>
      exact bare first rest (List.cons.inj split).2 (Nat.lt_of_succ_lt_succ before)

theorem Splits.nil : Splits [] [.literal []] :=
  .last fun _ _ split => (List.append_eq_nil_iff.mp split.symm).2 ▸ not_opens_nil

theorem Splits.here (within : IsInside inside) (splits : Splits tail parts) :
    Splits (braced inside ++ tail) (.literal [] :: .slot inside :: parts) :=
  @Splits.slot [] _ _ _ within (fun _ _ _ before => absurd before (Nat.not_lt_zero _)) splits

/-- There is one way only to cut a template. Of two first cuts neither lies before the other, so
they leave the same text to be cut. -/
theorem Splits.unique (one : Splits cs parts) (two : Splits cs others) : parts = others := by
  induction one generalizing others with
  | last bare =>
    cases two with
    | last => rfl
    | @slot text inside tail parts within _ _ =>
      exact absurd ⟨inside, tail, within, rfl⟩ (bare text _ (List.append_assoc ..))
  | @slot text inside tail parts within bare splits ih =>
    generalize same : text ++ braced inside ++ tail = template at two
    cases two with
    | last bare' =>
      exact absurd ⟨inside, tail, within, rfl⟩ (bare' text _ (same ▸ List.append_assoc ..))
    | @slot text' inside' tail' parts' within' bare' splits' =>
      have level : text.length = text'.length := by
        rcases Nat.lt_trichotomy text.length text'.length with before | level | after
        · exact absurd ⟨inside, tail, within, rfl⟩
            (bare' text _ (same.symm.trans (List.append_assoc ..)) before)
        · exact level
        · exact absurd ⟨inside', tail', within', rfl⟩
            (bare text' _ (same.trans (List.append_assoc ..)) after)
      rw [List.append_assoc, List.append_assoc] at same
      obtain ⟨rfl, rest⟩ := List.append_inj same level
      have found := placeholder?_braced within tail
      rw [rest, placeholder?_braced within' tail'] at found
      obtain ⟨rfl, rfl⟩ := Prod.mk.inj (Option.some.inj found)
      rw [ih splits']

/-! What stands in a message. -/

theorem asks_slotName (some : inside ≠ []) : Asks inside (slotName inside) := by
  rw [slotName]
  split
  · rename_i blank
    obtain ⟨before, c, rfl⟩ := (List.eq_nil_or_concat inside).resolve_left some
    rw [List.concat_eq_append] at blank ⊢
    simpa using Asks.blank (List.all_eq_true.mp blank)
  · rename_i seen
    exact .trimmed (trims_strip inside) (mt strip_eq_nil_iff.mp seen)

theorem Asks.unique {other : List Char} (one : Asks inside name) (two : Asks inside other) :
    name = other := by
  have seen {cs name : List Char} (blank : ∀ c ∈ cs, isBlank c = true) (trims : Trims cs name) :
      name = [] := trims.strip_eq.symm.trans (strip_eq_nil_iff.mpr (List.all_eq_true.mpr blank))
  cases one with
  | trimmed trims filled =>
    cases two with
    | trimmed trims' => exact trims.strip_eq.symm.trans trims'.strip_eq
    | blank all => exact absurd (seen all trims) filled
  | blank all =>
    generalize same : _ ++ [_] = inside at two
    cases two with
    | trimmed trims filled => exact absurd (seen (same ▸ all) trims) filled
    | blank all' => exact (List.append_inj' same rfl).2

theorem Becomes.unique {given : String → Option String} {part : Part} {text other : List Char}
    (one : Becomes given part text) (two : Becomes given part other) : text = other := by
  cases one with
  | literal => 
    cases two
    rfl
  | entry asks found =>
    cases two with
    | entry asks' found' =>
      rw [asks.unique asks', found'] at found
      cases found
      rfl
    | kept asks' none =>
      rw [asks.unique asks', none] at found
      cases found
  | kept asks none =>
    cases two with
    | entry asks' found =>
      rw [asks'.unique asks, none] at found
      cases found
    | kept => rfl

theorem fill_becomes {data : List (String × String)} (some : inside ≠ []) :
    Becomes (data.lookup ·) (.slot inside) (fill data inside) := by
  have asks := asks_slotName some
  rw [fill]
  split
  · exact .entry asks ‹_›
  · exact .kept asks ‹_›

/-- Filling a template puts the texts of its stretches together. -/
theorem exists_splits (data : List (String × String)) (cs : List Char) :
    ∃ parts texts, Splits cs parts ∧ List.Forall₂ (Becomes (data.lookup ·)) parts texts ∧
      fillAll data cs = texts.flatten := by
  induction cs using searchInduction with
  | nil =>
    refine ⟨[.literal []], [[]], .nil, .cons (.literal []) .nil, ?_⟩
    rw [fillAll]
    rfl
  | slot inside tail within ih =>
    obtain ⟨parts, texts, splits, become, filled⟩ := ih
    refine ⟨_, _, splits.here within,
      .cons (.literal []) (.cons (fill_becomes within.1) become), ?_⟩
    rw [fillAll_of_found within, filled]
    rfl
  | char c cs closed ih =>
    -- The character joins the literal text in front of the next cut.
    obtain ⟨parts, texts, splits, become, filled⟩ := ih
    obtain ⟨text, more, rfl, longer⟩ := splits.cons closed
    obtain ⟨_, texts, ⟨⟩, rest, rfl⟩ := List.forall₂_cons_left_iff.mp become
    refine ⟨_, _, longer, .cons (.literal (c :: text)) rest, ?_⟩
    rw [fillAll_of_closed closed, filled]
    rfl

/-! What the expression matches. -/

variable {p : Place}

theorem mem_ends_closing {q : Place} : q ∈ closing.ends p ↔ ∃ blanks after,
    p.rest = blanks ++ '\x7d' :: '\x7d' :: after ∧ (∀ c ∈ blanks, isBlank c = true) ∧
      q = ⟨some '\x7d', after, p.held⟩ := by
  simp only [closing, Regex.mem_ends_seq, Regex.mem_ends_many, Regex.mem_ends_spelled, List.map_id]
  constructor
  · rintro ⟨_, ⟨blanks, _, reads, blank, rfl⟩, _, after, rfl, rfl, rfl⟩
    exact ⟨blanks, after, reads, blank, rfl⟩
  · rintro ⟨blanks, after, reads, blank, rfl⟩
    exact ⟨_, ⟨blanks, _, reads, blank, rfl⟩, _, after, rfl, rfl, rfl⟩

/-- White space is what is left of an inside where a placeholder can end. -/
theorem eq_of_closes {blanks rest after : List Char} (blank : ∀ c ∈ blanks, isBlank c = true)
    (inner : ∀ c ∈ inside, isInner c = true) (stops : ∀ c ∈ rest.head?, isInner c = false)
    (same : inside ++ rest = blanks ++ '\x7d' :: after) : blanks = inside ∧ rest = '\x7d' :: after := by
  have one := span_append ('\x7d' :: after) (fun c member =>
    isInner_of_isBlank (blank c member)) (by rintro _ ⟨⟩; decide)
  have two := span_append rest inner stops
  rw [same] at two
  exact ⟨one.1.symm.trans two.1, two.2.symm.trans one.2⟩

theorem head?_closing (inner : ∀ c ∈ inside, isInner c = true)
    (reads : p.rest = inside ++ '\x7d' :: '\x7d' :: tail) :
    (closing.ends p).head? = if allBlank inside then some ⟨some '\x7d', tail, p.held⟩ else none := by
  have only (q : Place) (member : q ∈ closing.ends p) :
      allBlank inside = true ∧ q = ⟨some '\x7d', tail, p.held⟩ := by
    obtain ⟨blanks, after, split, blank, rfl⟩ := mem_ends_closing.mp member
    obtain ⟨rfl, same⟩ := eq_of_closes blank inner (by rintro _ ⟨⟩; decide) (reads.symm.trans split)
    obtain ⟨-, rfl⟩ := List.cons.inj (List.cons.inj same).2
    exact ⟨List.all_eq_true.mpr blank, rfl⟩
  split
  · rename_i blank
    have member := mem_ends_closing.mpr ⟨inside, tail, reads, List.all_eq_true.mp blank, rfl⟩
    obtain ⟨q, more, ends⟩ := List.exists_cons_of_ne_nil (List.ne_nil_of_mem member)
    rw [ends, List.head?_cons, (only q (ends ▸ List.mem_cons_self)).2]
  · rename_i seen
    rw [List.head?_eq_none_iff, List.eq_nil_iff_forall_not_mem]
    exact fun q member => seen (only q member).1

theorem allBlank_drop_of_last {after : List Char} {n : Nat} (within : n < name.length)
    (last : ∀ c ∈ name.getLast?, isBlank c = false) :
    allBlank ((name ++ after).drop n) = false := by
  have stays : name.getLast? = (name.drop n).getLast? := by
    rw [List.getLast?_drop, if_neg (by omega)]
  cases final : name.getLast? with
  | none =>
    rw [List.getLast?_eq_none_iff.mp final] at within
    cases within
  | some c =>
    have member : c ∈ (name ++ after).drop n := by
      rw [List.drop_append_of_le_length within.le]
      exact List.mem_append_left _ (List.mem_of_getLast? (stays ▸ final))
    rw [allBlank, List.all_eq_false]
    exact ⟨c, member, by simp [last c final]⟩

/-- Behind the white space that it has skipped, the expression finds the shortest start of the rest
that leaves nothing but white space. -/
theorem head?_named (name after : List Char) (some : name ≠ []) (blank : ∀ c ∈ after, isBlank c = true)
    (least : ∀ n, 1 ≤ n → n < name.length → allBlank ((name ++ after).drop n) = false)
    (inner : ∀ c ∈ name ++ after, isInner c = true)
    (reads : p.rest = name ++ after ++ '\x7d' :: '\x7d' :: tail) :
    (named.ends p).head? = .some ⟨.some '\x7d', tail, name⟩ := by
  have spans := span_append ('\x7d' :: '\x7d' :: tail) inner (by rintro _ ⟨⟩; decide)
  have filled := List.length_pos_of_ne_nil some
  have size : name.length ≤ (name ++ after).length := by simp
  have closes (n : Nat) (fits : n ≤ name.length) :
      (closing.ends { p.after n with held := p.rest.take n }).head? =
        if allBlank ((name ++ after).drop n) then .some ⟨.some '\x7d', tail, p.rest.take n⟩
        else none := by
    refine head?_closing (fun c member => inner c (List.mem_of_mem_drop member)) ?_
    rw [← List.drop_append_of_le_length (fits.trans size), ← reads, Place.after_rest]
  refine Regex.head?_seq_group_lazy filled ?_ ?_ fun n low within => ?_
  · rwa [reads, spans.1]
  · rw [closes _ le_rfl, List.drop_left,
      if_pos (show allBlank after = true from List.all_eq_true.mpr blank), reads, List.append_assoc,
      List.take_left]
  · rw [closes n within.le, if_neg (by simp [least n low within])]

theorem ends_opening (before : Option Char) (rest : List Char) :
    (Regex.spelled id ['\x7b', '\x7b']).ends ⟨before, '\x7b' :: '\x7b' :: rest, []⟩ =
      [⟨some '\x7b', rest, []⟩] := by
  rfl

/-- The expression finds the placeholder that a text starts with, and its group holds the name. The
white space in front is skipped as a whole, except where nothing else would be left for the name. -/
theorem at?_braced (within : IsInside inside) (asks : Asks inside name) (before : Option Char)
    (tail : List Char) :
    expression.at? before (braced inside ++ tail) = some ⟨some '\x7d', tail, name⟩ := by
  have inner : ∀ c ∈ inside, isInner c = true := fun c member => isInner_iff.mpr (within.2 c member)
  have reads : braced inside ++ tail = '\x7b' :: '\x7b' :: (inside ++ '\x7d' :: '\x7d' :: tail) := by
    simp [braced]
  rw [reads, Regex.at?, expression, Regex.ends, ends_opening, List.flatMap_singleton]
  cases asks with
  | @trimmed _ _ trims seen =>
    obtain ⟨⟨skipped, after, rfl, blank, blank'⟩, first, last⟩ := trims
    have stops : ∀ c ∈ (name ++ (after ++ '\x7d' :: '\x7d' :: tail)).head?, isBlank c = false := by
      rwa [List.head?_append_of_ne_nil _ seen]
    -- The run of white space ends at the name, so that the longest run is the one that matches.
    have skips := (span_append _ blank stops).1
    simp only [List.append_assoc] at inner ⊢
    refine Regex.head?_seq_many (n := skipped.length) (by rw [skips]) ?_ fun m longer fits => ?_
    · refine head?_named name after seen blank' (fun n _ within => allBlank_drop_of_last within last)
        (fun c member => inner c (List.mem_append_right _ member)) ?_
      rw [Place.after_rest, List.drop_left, List.append_assoc]
    · rw [skips] at fits
      omega
  | @blank skipped c blank =>
    -- The longest run leaves nothing for the name, and the next one leaves one character.
    have skips := (span_append ('\x7d' :: '\x7d' :: tail) blank (by rintro _ ⟨⟩; decide)).1
    have size : (skipped ++ [c]).length = skipped.length + 1 := List.length_append
    refine Regex.head?_seq_many (n := skipped.length) ?_ ?_ fun m longer fits => ?_
    · rw [skips, size]
      exact Nat.le_succ _
    · refine head?_named [c] [] (List.cons_ne_nil c []) (List.forall_mem_nil _)
        (fun n low within => absurd within (Nat.not_lt.mpr low))
        (fun d member => inner d (List.mem_append_right _ (by simpa using member))) ?_
      rw [Place.after_rest, List.append_assoc, List.drop_left]
      rfl
    · obtain rfl : m = (skipped ++ [c]).length := by
        rw [skips] at fits
        omega
      rw [named, Regex.ends, Regex.ends_group_lazy, Place.after_rest, List.drop_left]
      rfl

theorem opens_of_mem_ends {q : Place} (member : q ∈ expression.ends p) : Opens p.rest := by
  simp only [expression, named, Regex.mem_ends_seq, Regex.mem_ends_spelled, Regex.mem_ends_many,
    Regex.mem_ends_group, Regex.mem_ends_run, mem_ends_closing, List.map_id] at member
  obtain ⟨_, ⟨_, _, starts, rfl, rfl⟩, _, ⟨skipped, _, rfl, blank, rfl⟩, _,
    ⟨_, ⟨name, _, rest, inner, filled, -, rfl⟩, rfl⟩, after, tail, rfl, blank', rfl⟩ := member
  rw [Place.past_rest] at rest
  refine ⟨skipped ++ name ++ after, tail, ⟨?_, ?_⟩, ?_⟩
  · rintro none
    rw [List.append_eq_nil_iff, List.append_eq_nil_iff] at none
    rw [none.1.2] at filled
    cases filled
  · intro c member
    rw [List.mem_append, List.mem_append, or_assoc] at member
    exact isInner_iff.mp (member.elim (fun member => isInner_of_isBlank (blank c member))
      (·.elim (inner c) fun member => isInner_of_isBlank (blank' c member)))
  · rw [starts, rest]
    simp [braced]

theorem at?_of_closed {before : Option Char} (closed : ¬ Opens cs) :
    expression.at? before cs = none := by
  rw [← Option.not_isSome_iff_eq_none, Regex.isSome_at?_iff]
  rintro ⟨q, member⟩
  exact closed (opens_of_mem_ends member)

def substitute (given : String → Option String) (whole name : List Char) : List Char :=
  ((given (String.ofList name)).map String.toList).getD whole

theorem fill_eq_substitute (data : List (String × String)) (inside : List Char) :
    fill data inside = substitute (data.lookup ·) (braced inside) (slotName inside) := by
  rw [fill, substitute]
  split <;> simp [*, braced]

theorem fillAll_eq_replaceAll (data : List (String × String)) (before : Option Char)
    (cs : List Char) :
    fillAll data cs = expression.replaceAll (substitute (data.lookup ·)) before cs := by
  induction cs using searchInduction generalizing before with
  | nil => rw [fillAll, Regex.replaceAll]
  | slot inside tail within ih =>
    have found := at?_braced within (asks_slotName within.1) before tail
    have whole : (braced inside ++ tail).take ((braced inside ++ tail).length - tail.length) =
        braced inside := by
      rw [List.length_append, Nat.add_sub_cancel, List.take_left]
    rw [fillAll_of_found within, Regex.replaceAll_of_match found length_lt_braced, whole,
      ih (some '\x7d'), fill_eq_substitute]
  | char c cs closed ih =>
    rw [fillAll_of_closed closed, Regex.replaceAll_of_none (at?_of_closed closed), ih (some c)]

/-- A message is made of its template from left to right. There is one way only to cut the template
into literal texts and placeholders, the leftmost first, and one text only that each of them becomes:
a literal text stays, and a placeholder gives way to the entry of its name as it is written, or
stays where there is none. The message is these texts in turn, so that no text of an entry is
searched again; it is what replacing the matches of the expression makes of the template, and
without entries it is the template. -/
theorem interpolate_outcome {α : Type} (write : α → String) (template : String)
    (data : List (String × α)) :
    let message := interpolate template (data.map fun entry => (entry.1, write entry.2))
    let given := fun name => (data.lookup name).map write
    (∃ parts texts, (∀ others, Splits template.toList others ↔ others = parts) ∧
      (∀ others, List.Forall₂ (Becomes given) parts others ↔ others = texts) ∧
      message.toList = texts.flatten) ∧
    message.toList = expression.replaceAll (substitute given) none template.toList ∧
    interpolate template [] = template := by
  intro message given
  have looked : ((data.map fun entry => (entry.1, write entry.2)).lookup ·) = given :=
    funext (Table.lookup_map write data)
  have filled := interpolate_toList template (data.map fun entry => (entry.1, write entry.2))
  refine ⟨?_, ?_, rfl⟩
  · obtain ⟨parts, texts, splits, become, joined⟩ :=
      exists_splits (data.map fun entry => (entry.1, write entry.2)) template.toList
    rw [looked] at become
    refine ⟨parts, texts, fun others => ⟨fun other => other.unique splits, ?_⟩,
      fun others => ⟨fun other => ?_, ?_⟩, filled.trans joined⟩
    · rintro rfl
      exact splits
    · exact List.right_unique_forall₂' (fun _ _ _ one two => one.unique two) other become
    · rintro rfl
      exact become
  · rw [← looked, ← fillAll_eq_replaceAll]
    exact filled

end TreeLint.Message
