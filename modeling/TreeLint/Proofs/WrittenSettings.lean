import Mathlib.Data.List.Forall2
import TreeLint.Command.Override
import TreeLint.Proofs.Numerals
import TreeLint.Proofs.Table

/-! Settings as they are written on the command line. Each item is read by itself: it gives a name
and a value, or there is one thing wrong with it. The items together give the last value of every
name, unless one of them cannot be read; then the first such item tells the error. -/

namespace TreeLint.Override

open Text

section

variable [Host]

/-- An item gives a name and a text: they stand on the two sides of its first equals sign, with white
space around them, and neither is empty. -/
structure Gives (item : String) (front name text : List Char) : Prop where
  cut : ∃ back, item.toList = front ++ '=' :: back ∧ Trims back text
  first : '=' ∉ front
  named : Trims front name
  name_ne : name ≠ []
  text_ne : text ≠ []

/-- An item has no equals sign, or nothing but white space on one side of the first one. -/
inductive Lacks (item : String) : Prop
  | sign : '=' ∉ item.toList → Lacks item
  | name {front back : List Char} : item.toList = front ++ '=' :: back → '=' ∉ front →
      allBlank front = true → Lacks item
  | text {front back : List Char} : item.toList = front ++ '=' :: back → '=' ∉ front →
      allBlank back = true → Lacks item

/-- The name and the value of an item: what a list in JSON says, the number that decimal digits
spell, and any other text as it is. -/
inductive Reads (item : String) : String × Value → Prop
  | list {front name text : List Char} {v : Value} : Gives item front name text →
      text.head? = some '[' → Json.parse Host.overrideLevels text = .ok v →
      Reads item (String.ofList name, v)
  | number {front name text : List Char} {digits : List Nat} : Gives item front name text →
      text.map decimalValue? = digits.map some → digits.length ≤ digitLimit →
      Reads item (String.ofList name, .int (ofDigits digits))
  | text {front name text : List Char} : Gives item front name text → text.head? ≠ some '[' →
      (∃ c ∈ text, isDigit c = false) → Reads item (String.ofList name, .str (String.ofList text))

/-- What is wrong with an item. Of a text that is all digits this is a digit that is not decimal, or
the number of the leading decimal digits. -/
inductive Fails (item : String) : OverrideError → Prop
  | incomplete : Lacks item → Fails item (.incomplete item)
  | notJson {front name text : List Char} {problem : Json.Problem} {offset line column : Nat} :
      Gives item front name text → text.head? = some '[' →
      Json.parse Host.overrideLevels text = .error (.malformed problem offset line column) →
      Fails item (.notJson (String.ofList front) (.malformed problem offset line column))
  | deepList {front name text : List Char} : Gives item front name text →
      text.head? = some '[' → Json.parse Host.overrideLevels text = .error .tooDeep →
      Fails item .tooDeep
  | longInList {front name text : List Char} {digits : Nat} : Gives item front name text →
      text.head? = some '[' → Json.parse Host.overrideLevels text = .error (.longInteger digits) →
      Fails item (.fault (.longInteger digits))
  | noInteger {front name text : List Char} : Gives item front name text →
      (∀ c ∈ text, isDigit c = true) → (∃ c ∈ text, isDecimal c = false) →
      (text.takeWhile isDecimal).length ≤ digitLimit →
      Fails item (.fault (.noInteger (String.ofList text)))
  | longInteger {front name text : List Char} : Gives item front name text →
      (∀ c ∈ text, isDigit c = true) → digitLimit < (text.takeWhile isDecimal).length →
      Fails item (.fault (.longInteger (text.takeWhile isDecimal).length))

variable {item : String} {front name text : List Char}

omit [Host] in
theorem gives_of_cut {back : List Char} (cut : item.toList = front ++ '=' :: back)
    (first : '=' ∉ front) (seen : allBlank front = false) (seen' : allBlank back = false) :
    Gives item front (strip front) (strip back) where
  cut := ⟨back, cut, trims_strip back⟩
  first := first
  named := trims_strip front
  name_ne none := by simp [strip_eq_nil_iff.mp none] at seen
  text_ne none := by simp [strip_eq_nil_iff.mp none] at seen'

omit [Host] in
theorem gives_or_lacks (item : String) :
    (∃ front name text, Gives item front name text) ∨ Lacks item := by
  by_cases sign : '=' ∈ item.toList
  · obtain ⟨front, back, cut, first⟩ := List.eq_append_cons_of_mem sign
    cases seen : allBlank front with
    | true => exact .inr (.name cut first seen)
    | false =>
      cases seen' : allBlank back with
      | true => exact .inr (.text cut first seen')
      | false => exact .inl ⟨_, _, _, gives_of_cut cut first seen seen'⟩
  · exact .inr (.sign sign)

omit [Host] in
theorem isEmpty_strip (cs : List Char) : (String.ofList (strip cs)).isEmpty = allBlank cs := by
  rw [Bool.eq_iff_iff, ← strip_eq_nil_iff, String.isEmpty_iff, String.ofList_eq_empty_iff]

theorem read_of_cut {back : List Char} (cut : item.toList = front ++ '=' :: back)
    (first : '=' ∉ front) :
    read item = if allBlank front || allBlank back then .error (.incomplete item)
      else (valueOf (String.ofList front) (String.ofList (strip back))).map
        (String.ofList (strip front), ·) := by
  have others : ∀ c ∈ front, decide (c ≠ '=') = true := fun c member =>
    decide_eq_true (ne_of_mem_of_not_mem member first)
  obtain ⟨taken, dropped⟩ := span_append ('=' :: back) others (by rintro _ ⟨⟩; rfl)
  rw [read, cut, taken, dropped]
  simp only [isBlankString, trimmed, String.toList_ofList, isEmpty_strip]
  split
  · rfl
  · cases valueOf (String.ofList front) (String.ofList (strip back)) <;> rfl

theorem Gives.read_eq (gives : Gives item front name text) :
    read item =
      (valueOf (String.ofList front) (String.ofList text)).map (String.ofList name, ·) := by
  obtain ⟨⟨back, cut, shows⟩, first, named, name_ne, text_ne⟩ := gives
  have seen : ¬ allBlank front = true := fun blank =>
    name_ne (named.strip_eq.symm.trans (strip_eq_nil_iff.mpr blank))
  have seen' : ¬ allBlank back = true := fun blank =>
    text_ne (shows.strip_eq.symm.trans (strip_eq_nil_iff.mpr blank))
  rw [read_of_cut cut first, if_neg (by simp [seen, seen']), shows.strip_eq, named.strip_eq]

theorem Lacks.read_eq (lacks : Lacks item) : read item = .error (.incomplete item) := by
  cases lacks with
  | sign absent =>
    have others : ∀ c ∈ item.toList, decide (c ≠ '=') = true := fun c member =>
      decide_eq_true (ne_of_mem_of_not_mem member absent)
    rw [read, List.dropWhile_eq_nil_iff.mpr others]
  | name cut first blank => rw [read_of_cut cut first, blank, Bool.true_or, if_pos rfl]
  | text cut first blank => rw [read_of_cut cut first, blank, Bool.or_true, if_pos rfl]

/-! What a text says. -/

theorem valueOf_of_list (front : String) (starts : text.head? = some '[') :
    valueOf front (String.ofList text) = match Json.parse Host.overrideLevels text with
      | .ok v => .ok v
      | .error .tooDeep => .error .tooDeep
      | .error (.longInteger digits) => .error (.fault (.longInteger digits))
      | .error error => .error (.notJson front error) := by
  cases parsed : Json.parse Host.overrideLevels text with
  | ok v => simp only [valueOf, String.toList_ofList, if_pos starts, parsed]
  | error error =>
    cases error <;> simp only [valueOf, String.toList_ofList, if_pos starts, parsed]

theorem valueOf_of_digits (front : String) (filled : text ≠ [])
    (digits : ∀ c ∈ text, isDigit c = true) :
    valueOf front (String.ofList text) =
      if digitLimit < (text.takeWhile isDecimal).length then
        .error (.fault (.longInteger (text.takeWhile isDecimal).length))
      else if text.all isDecimal then .ok (.int (ofDigits (text.filterMap decimalValue?)))
      else .error (.fault (.noInteger (String.ofList text))) := by
  have other : text.head? ≠ some '[' := by
    intro starts
    exact absurd (digits '[' (List.mem_of_mem_head? starts)) (by decide)
  rw [valueOf, String.toList_ofList, if_neg other, if_pos (List.all_eq_true.mpr digits),
    readInteger_of_digits (by rwa [String.toList_ofList]) (by rwa [String.toList_ofList]),
    String.toList_ofList, readDigits_of_digits filled digits]
  by_cases many : digitLimit < (text.takeWhile isDecimal).length
  · rw [if_pos many, if_pos many]
  · rw [if_neg many, if_neg many]
    cases text.all isDecimal <;> rfl

theorem valueOf_of_other (front : String) (starts : text.head? ≠ some '[')
    (other : ∃ c ∈ text, isDigit c = false) :
    valueOf front (String.ofList text) = .ok (.str (String.ofList text)) := by
  obtain ⟨c, member, noDigit⟩ := other
  have mixed : ¬ text.all isDigit = true := fun all => by
    rw [List.all_eq_true.mp all c member] at noDigit
    cases noDigit
  rw [valueOf, String.toList_ofList, if_neg starts, if_neg mixed]

theorem Reads.read_eq {setting : String × Value} (reads : Reads item setting) :
    read item = .ok setting := by
  cases reads with
  | list gives starts parsed =>
    rw [gives.read_eq, valueOf_of_list _ starts, parsed]
    rfl
  | number gives values fits =>
    obtain ⟨decimal, rfl⟩ := decimal_iff.mp values
    have whole := List.takeWhile_eq_self_iff.mpr decimal
    rw [length_filterMap_decimal decimal] at fits
    rw [gives.read_eq, valueOf_of_digits _ gives.text_ne
      fun c member => isDigit_of_isDecimal (decimal c member), whole, if_neg (by omega),
      if_pos (List.all_eq_true.mpr decimal)]
    rfl
  | text gives starts other =>
    rw [gives.read_eq, valueOf_of_other _ starts other]
    rfl

theorem Fails.read_eq {error : OverrideError} (fails : Fails item error) :
    read item = .error error := by
  cases fails with
  | incomplete lacks => exact lacks.read_eq
  | notJson gives starts parsed =>
    rw [gives.read_eq, valueOf_of_list _ starts, parsed]
    rfl
  | deepList gives starts parsed =>
    rw [gives.read_eq, valueOf_of_list _ starts, parsed]
    rfl
  | longInList gives starts parsed =>
    rw [gives.read_eq, valueOf_of_list _ starts, parsed]
    rfl
  | noInteger gives digits other fits =>
    obtain ⟨c, member, other⟩ := other
    rw [gives.read_eq, valueOf_of_digits _ gives.text_ne digits, if_neg (by omega), if_neg]
    · rfl
    · intro all
      rw [List.all_eq_true.mp all c member] at other
      cases other
  | longInteger gives digits many =>
    rw [gives.read_eq, valueOf_of_digits _ gives.text_ne digits, if_pos many]
    rfl

/-- Every item is read or has something wrong with it. -/
theorem reads_or_fails (item : String) :
    (∃ setting, Reads item setting) ∨ ∃ error, Fails item error := by
  rcases gives_or_lacks item with ⟨front, name, text, gives⟩ | lacks
  · by_cases starts : text.head? = some '['
    · cases parsed : Json.parse Host.overrideLevels text with
      | ok v => exact .inl ⟨_, .list gives starts parsed⟩
      | error error =>
        cases error with
        | malformed => exact .inr ⟨_, .notJson gives starts parsed⟩
        | tooDeep => exact .inr ⟨_, .deepList gives starts parsed⟩
        | longInteger => exact .inr ⟨_, .longInList gives starts parsed⟩
    · by_cases digits : ∀ c ∈ text, isDigit c = true
      · by_cases many : digitLimit < (text.takeWhile isDecimal).length
        · exact .inr ⟨_, .longInteger gives digits many⟩
        · by_cases decimal : ∀ c ∈ text, isDecimal c = true
          · have fits := List.takeWhile_eq_self_iff.mpr decimal ▸ Nat.le_of_not_lt many
            exact .inl ⟨_, .number gives (decimal_iff.mpr ⟨decimal, rfl⟩)
              (length_filterMap_decimal decimal ▸ fits)⟩
          · have other : ∃ c ∈ text, isDecimal c = false := by simpa using decimal
            exact .inr ⟨_, .noInteger gives digits other (Nat.le_of_not_lt many)⟩
      · exact .inl ⟨_, .text gives starts (by simpa using digits)⟩
  · exact .inr ⟨_, .incomplete lacks⟩

theorem Fails.not_reads {error : OverrideError} (fails : Fails item error) {setting : String × Value} :
    ¬ Reads item setting := fun reads => by
  cases fails.read_eq.symm.trans reads.read_eq

/-! What the items make together. -/

variable {items : List String} {settings table : List (String × Value)}

theorem readOnto_of_reads (reads : List.Forall₂ Reads items settings) (table : List (String × Value)) :
    readOnto table items = .ok (Table.putAll table settings) := by
  induction reads generalizing table with
  | nil => rfl
  | @cons item setting items settings here _ ih =>
    rw [readOnto, here.read_eq]
    exact ih _

theorem readOnto_of_fails {before after : List String} {error : OverrideError}
    (fine : ∀ other ∈ before, ∃ setting, Reads other setting) (fails : Fails item error)
    (table : List (String × Value)) :
    readOnto table (before ++ item :: after) = .error error := by
  induction before generalizing table with
  | nil =>
    rw [List.nil_append, readOnto, fails.read_eq]
    rfl
  | cons other before ih =>
    obtain ⟨⟨setting, reads⟩, fine⟩ := List.forall_mem_cons.mp fine
    rw [List.cons_append, readOnto, reads.read_eq]
    exact ih fine _

theorem all_read_iff : (∃ settings, List.Forall₂ Reads items settings) ↔
    ∀ item ∈ items, ∃ setting, Reads item setting := by
  induction items with
  | nil => exact ⟨fun _ => nofun, fun _ => ⟨[], .nil⟩⟩
  | cons item items ih =>
    rw [List.forall_mem_cons, ← ih]
    constructor
    · rintro ⟨_, reads⟩
      cases reads with
      | cons here later => exact ⟨⟨_, here⟩, _, later⟩
    · rintro ⟨⟨setting, here⟩, settings, later⟩
      exact ⟨setting :: settings, .cons here later⟩

/-- Items are all read, or there is a first one that fails. -/
theorem all_read_or_first_fails (items : List String) :
    (∃ settings, List.Forall₂ Reads items settings) ∨ ∃ before item after error,
      items = before ++ item :: after ∧ (∀ other ∈ before, ∃ setting, Reads other setting) ∧
        Fails item error := by
  induction items with
  | nil => exact .inl ⟨[], .nil⟩
  | cons item items ih =>
    rcases reads_or_fails item with ⟨setting, reads⟩ | ⟨error, fails⟩
    · rcases ih with ⟨settings, all⟩ | ⟨before, other, after, error, rfl, fine, fails⟩
      · exact .inl ⟨setting :: settings, .cons reads all⟩
      · exact .inr ⟨item :: before, other, after, error, rfl,
          List.forall_mem_cons.mpr ⟨⟨setting, reads⟩, fine⟩, fails⟩
    · exact .inr ⟨[], item, items, error, rfl, nofun, fails⟩

theorem readAll_ok_iff : readAll items = .ok table ↔
    ∃ settings, List.Forall₂ Reads items settings ∧ table = Table.ofEntries settings := by
  constructor
  · intro made
    rcases all_read_or_first_fails items with ⟨settings, all⟩ | ⟨_, _, _, error, rfl, fine, fails⟩
    · exact ⟨settings, all, Except.ok.inj (made.symm.trans (readOnto_of_reads all []))⟩
    · cases made.symm.trans (readOnto_of_fails fine fails [])
  · rintro ⟨settings, all, rfl⟩
    exact readOnto_of_reads all []

theorem readAll_error_iff {error : OverrideError} : readAll items = .error error ↔
    ∃ before item after, items = before ++ item :: after ∧
      (∀ other ∈ before, ∃ setting, Reads other setting) ∧ Fails item error := by
  constructor
  · intro stopped
    rcases all_read_or_first_fails items with ⟨settings, all⟩ |
      ⟨before, item, after, other, rfl, fine, fails⟩
    · cases stopped.symm.trans (readOnto_of_reads all [])
    · obtain rfl := Except.error.inj (stopped.symm.trans (readOnto_of_fails fine fails []))
      exact ⟨before, item, after, rfl, fine, fails⟩
  · rintro ⟨before, item, after, rfl, fine, fails⟩
    exact readOnto_of_fails fine fails []

/-- The settings make a table just when each item is read, and then each name leads to the value of
its last item. Otherwise the first item that cannot be read tells the error. Where nothing else is
wrong with an item than what makes the command line wrong as such, the items are either read or
make it wrong, and they make it wrong just when something is wrong with one of them. -/
theorem readAll_outcome (items : List String) :
    ((∃ table, readAll items = .ok table) ↔ ∀ item ∈ items, ∃ setting, Reads item setting) ∧
    (∀ table, readAll items = .ok table → ∃ settings, List.Forall₂ Reads items settings ∧
      (table.map (·.1)).Nodup ∧ ∀ name, table.lookup name = settings.reverse.lookup name) ∧
    (∀ error, readAll items = .error error ↔ ∃ before item after,
      items = before ++ item :: after ∧ (∀ other ∈ before, ∃ setting, Reads other setting) ∧
        Fails item error) ∧
    ((∀ item ∈ items, ∀ error, Fails item error → error.isUsage = true) →
      ((∃ error, readAll items = .error error ∧ error.isUsage = true) ∨
        ∃ table, readAll items = .ok table) ∧
      ((∃ error, readAll items = .error error) ↔ ∃ item ∈ items, ∃ error, Fails item error)) := by
  refine ⟨?_, fun table made => ?_, fun error => readAll_error_iff, fun usage => ⟨?_, ?_, ?_⟩⟩
  · rw [← all_read_iff]
    constructor
    · rintro ⟨table, made⟩
      obtain ⟨settings, all, -⟩ := readAll_ok_iff.mp made
      exact ⟨settings, all⟩
    · rintro ⟨settings, all⟩
      exact ⟨_, readAll_ok_iff.mpr ⟨settings, all, rfl⟩⟩
  · obtain ⟨settings, all, rfl⟩ := readAll_ok_iff.mp made
    refine ⟨settings, all, Table.keys_ofEntries_nodup settings, fun name => ?_⟩
    rw [Table.ofEntries, Table.lookup_putAll, List.lookup_nil, Option.or_none]
  · cases outcome : readAll items with
    | ok table => exact .inr ⟨table, rfl⟩
    | error error =>
      obtain ⟨before, item, after, rfl, -, fails⟩ := readAll_error_iff.mp outcome
      exact .inl ⟨error, rfl, usage item (by simp) error fails⟩
  · rintro ⟨error, stopped⟩
    obtain ⟨before, item, after, rfl, -, fails⟩ := readAll_error_iff.mp stopped
    exact ⟨item, by simp, error, fails⟩
  · rintro ⟨item, member, error, fails⟩
    rcases all_read_or_first_fails items with all | ⟨before, item, after, error, split, fine, stops⟩
    -- The item that fails need not be the first one to fail, but then there is a first one.
    · obtain ⟨setting, reads⟩ := all_read_iff.mp all item member
      exact absurd reads fails.not_reads
    · exact ⟨error, readAll_error_iff.mpr ⟨before, item, after, split, fine, stops⟩⟩

end

attribute [local instance] Host.usual in
/-- A digit without a place value stops the reading, and the command line is not wrong as such. -/
theorem readAll_stops : ¬ ∀ items : List String,
    (∃ error, readAll items = .error error ∧ error.isUsage = true) ∨
      ∃ table, readAll items = .ok table := by
  intro claim
  have stopped : (match readAll ["no-default-export=²"] with
      | .error error => some error
      | .ok _ => none) = some (.fault (.noInteger "²")) := by
    decide +kernel
  rcases claim ["no-default-export=²"] with ⟨error, refused, usage⟩ | ⟨table, made⟩
  · rw [refused] at stopped
    cases stopped
    cases usage
  · rw [made] at stopped
    cases stopped

end TreeLint.Override
