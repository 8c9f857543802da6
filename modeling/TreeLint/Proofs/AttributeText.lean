import TreeLint.Proofs.BracedText
import TreeLint.Toml.Number

/-! What a literal says in the place of its braces. A string literal of a script may spell a text
with escapes; a text of an attribute knows none. So the literal says the same without its braces
just when it has no backslash; and a text that the linter spells in JSON says the same just when
none of its characters is escaped there. -/

namespace TreeLint

namespace Text

def unitsOf (n : Nat) : List Nat :=
  if n < 0x10000 then [n] else [0xD800 + (n - 0x10000) / 0x400, 0xDC00 + (n - 0x10000) % 0x400]

def units (cs : List Char) : List Nat := cs.flatMap fun c => unitsOf c.toNat

theorem units_cons (c : Char) (cs : List Char) : units (c :: cs) = unitsOf c.toNat ++ units cs :=
  List.flatMap_cons

theorem units_append (cs ds : List Char) : units (cs ++ ds) = units cs ++ units ds :=
  List.flatMap_append

theorem length_unitsOf (n : Nat) : (unitsOf n).length = if n < 0x10000 then 1 else 2 := by
  unfold unitsOf
  split <;> rfl

theorem length_le_units (cs : List Char) : cs.length ≤ (units cs).length := by
  induction cs with
  | nil => exact Nat.le_refl 0
  | cons c rest ih =>
    rw [units_cons, List.length_append, length_unitsOf, List.length_cons]
    split <;> omega

theorem unitsOf_append_inj (c d : Char) {more others : List Nat}
    (same : unitsOf c.toNat ++ more = unitsOf d.toNat ++ others) : c = d ∧ more = others := by
  have first : c.toNat < 0xD800 ∨ 0xDFFF < c.toNat ∧ c.toNat < 0x110000 := c.valid
  have second : d.toNat < 0xD800 ∨ 0xDFFF < d.toNat ∧ d.toNat < 0x110000 := d.valid
  unfold unitsOf at same
  rw [← Char.toNat_inj]
  split at same
  · split at same
    · simp only [List.singleton_append, List.cons.injEq] at same
      exact same
    · simp only [List.cons_append, List.cons.injEq] at same
      omega
  · split at same
    · simp only [List.cons_append, List.cons.injEq] at same
      omega
    · simp only [List.cons_append, List.nil_append, List.cons.injEq] at same
      obtain ⟨high, low, same⟩ := same
      exact ⟨by omega, same⟩

/-- No character is a surrogate, so the units of a text tell its characters. -/
theorem units_injective {cs ds : List Char} (same : units cs = units ds) : cs = ds := by
  induction cs generalizing ds with
  | nil =>
    have short := length_le_units ds
    rw [← same] at short
    exact (List.eq_nil_of_length_eq_zero (Nat.le_zero.mp short)).symm
  | cons c rest ih =>
    cases ds with
    | nil =>
      have short := length_le_units (c :: rest)
      rw [same] at short
      exact absurd short (by simp [units])
    | cons d others =>
      rw [units_cons, units_cons] at same
      obtain ⟨here, later⟩ := unitsOf_append_inj c d same
      rw [here, ih later]

end Text

namespace Script
open Text

def Digits (base : Nat) (digits : List Char) : Prop :=
  digits ≠ [] ∧ ∀ d ∈ digits, (Json.hexValue? d).any (· < base) = true

def letters : List (Char × Char) :=
  [('b', '\x08'), ('f', '\x0c'), ('n', '\n'), ('r', '\r'), ('t', '\t'), ('v', '\x0b')]

def lineEnds : List Char := ['\n', '\r', '\u2028', '\u2029']

/-- The characters that begin an escape of more than one character. -/
def longEscapes : List Char := ['x', 'u', '0', '1', '2', '3', '4', '5', '6', '7']

/-- What stands between two marks in a script spells a text, given by its UTF-16 units. -/
inductive Spells (mark : Char) : List Char → List Nat → Prop
  | none : Spells mark [] []
  | plain {c : Char} {rest : List Char} {units : List Nat} :
      c ∉ [mark, '\x5c', '\n', '\r'] → Spells mark rest units →
      Spells mark (c :: rest) (unitsOf c.toNat ++ units)
  | letter {c d : Char} {rest : List Char} {units : List Nat} :
      (c, d) ∈ letters → Spells mark rest units →
      Spells mark ('\x5c' :: c :: rest) (unitsOf d.toNat ++ units)
  | itself {c : Char} {rest : List Char} {units : List Nat} :
      c ∉ letters.map (·.1) ++ lineEnds ++ longEscapes → Spells mark rest units →
      Spells mark ('\x5c' :: c :: rest) (unitsOf c.toNat ++ units)
  | lineEnd {c : Char} {rest : List Char} {units : List Nat} :
      c ∈ lineEnds → Spells mark rest units → Spells mark ('\x5c' :: c :: rest) units
  | lineEndPair {rest : List Char} {units : List Nat} : Spells mark rest units →
      Spells mark ('\x5c' :: '\r' :: '\n' :: rest) units
  | byte {digits rest : List Char} {units : List Nat} :
      Digits 16 digits → digits.length = 2 → Spells mark rest units →
      Spells mark ('\x5c' :: 'x' :: digits ++ rest) (Toml.inBase 16 digits :: units)
  | unit {digits rest : List Char} {units : List Nat} :
      Digits 16 digits → digits.length = 4 → Spells mark rest units →
      Spells mark ('\x5c' :: 'u' :: digits ++ rest) (Toml.inBase 16 digits :: units)
  | codePoint {digits rest : List Char} {units : List Nat} :
      Digits 16 digits → Toml.inBase 16 digits ≤ 0x10FFFF → Spells mark rest units →
      Spells mark ('\x5c' :: 'u' :: '\x7b' :: digits ++ '\x7d' :: rest)
        (unitsOf (Toml.inBase 16 digits) ++ units)
  /-- As many octal digits as may be taken, which are three at most and spell a byte. -/
  | octal {digits rest : List Char} {units : List Nat} :
      Digits 8 digits → digits.length ≤ 3 → Toml.inBase 8 digits < 256 →
      (∀ d more, rest = d :: more → Digits 8 [d] →
        digits.length = 3 ∨ 256 ≤ Toml.inBase 8 (digits ++ [d])) → Spells mark rest units →
      Spells mark ('\x5c' :: digits ++ rest) (Toml.inBase 8 digits :: units)

/-- A source is a string literal of a script that denotes a text. -/
def IsString (source text : List Char) : Prop :=
  ∃ mark body, mark ∈ ['\x27', '\x22'] ∧ source = mark :: body ++ [mark] ∧
    Spells mark body (units text)

/-- A source is the text of an attribute that says a text: what stands between two marks is read as
it is, if no character reference begins in it. -/
def IsAttributeText (source text : List Char) : Prop :=
  ∃ mark, mark ∈ ['\x27', '\x22'] ∧ source = mark :: text ++ [mark] ∧ mark ∉ text ∧ '&' ∉ text

variable {mark : Char}

theorem length_lt_of_taken (made : List Nat) (taken : List Char) {spelt : List Nat}
    {rest : List Char} (few : made.length < (units taken).length)
    (short : spelt.length ≤ (units rest).length) :
    (made ++ spelt).length < (units (taken ++ rest)).length := by
  rw [units_append, List.length_append, List.length_append]
  omega

/-- An escape is longer than what it stands for. -/
theorem Spells.length_le {body : List Char} {spelt : List Nat} (spells : Spells mark body spelt) :
    spelt.length ≤ (units body).length ∧ ('\x5c' ∈ body → spelt.length < (units body).length) := by
  have strict {made total : Nat} (less : made < total) {P : Prop} :
      made ≤ total ∧ (P → made < total) := ⟨Nat.le_of_lt less, fun _ => less⟩
  have long {made : List Nat} {taken : List Char} (few : made.length < taken.length) :
      made.length < (units taken).length := Nat.lt_of_lt_of_le few (length_le_units taken)
  induction spells with
  | none => exact ⟨Nat.le_refl 0, fun member => absurd member List.not_mem_nil⟩
  | @plain c rest spelt other _ ih =>
    rw [units_cons, List.length_append, List.length_append]
    refine ⟨by omega, fun member => ?_⟩
    rcases List.mem_cons.mp member with rfl | later
    · exact absurd (by simp) other
    · have := ih.2 later
      omega
  | @letter c d rest spelt known _ ih =>
    have each : ∀ entry ∈ letters, (unitsOf entry.2.toNat).length = 1 := by decide
    have single : (unitsOf d.toNat).length = 1 := each _ known
    exact strict (length_lt_of_taken _ ['\x5c', c] (long (by simp [single])) ih.1)
  | @itself c rest spelt _ _ ih =>
    refine strict (length_lt_of_taken _ ['\x5c', c] ?_ ih.1)
    rw [units_cons, units_cons, List.length_append, List.length_append]
    exact Nat.lt_add_of_pos_left (by decide)
  | @lineEnd c rest spelt _ _ ih =>
    exact strict (length_lt_of_taken [] ['\x5c', c] (long (by simp)) ih.1)
  | @lineEndPair rest spelt _ ih =>
    exact strict (length_lt_of_taken [] ['\x5c', '\r', '\n']
      (long (by decide)) ih.1)
  | @byte digits rest spelt _ _ _ ih =>
    exact strict (length_lt_of_taken [_] ('\x5c' :: 'x' :: digits)
      (long (by simp)) ih.1)
  | @unit digits rest spelt _ _ _ ih =>
    exact strict (length_lt_of_taken [_] ('\x5c' :: 'u' :: digits)
      (long (by simp)) ih.1)
  | @codePoint digits rest spelt _ _ _ ih =>
    have few : (unitsOf (Toml.inBase 16 digits)).length <
        ('\x5c' :: 'u' :: '\x7b' :: (digits ++ ['\x7d'])).length := by
      rw [length_unitsOf]
      simp only [List.length_cons, List.length_append, List.length_nil]
      split <;> omega
    have less := length_lt_of_taken _ _ (long few) ih.1
    rw [List.cons_append, List.cons_append, List.cons_append, List.append_assoc] at less
    exact strict less
  | @octal digits rest spelt some _ _ _ _ ih =>
    have more : 0 < digits.length := List.length_pos_of_ne_nil some.1
    exact strict (length_lt_of_taken [_] ('\x5c' :: digits)
      (long (by simpa using more)) ih.1)

/-- Without a backslash the text is spelled by itself, and the mark is not in it. -/
theorem Spells.eq_units {body : List Char} {spelt : List Nat} (spells : Spells mark body spelt)
    (bare : '\x5c' ∉ body) : spelt = units body ∧ mark ∉ body := by
  induction spells with
  | none => exact ⟨rfl, List.not_mem_nil⟩
  | @plain c rest spelt other _ ih =>
    simp only [List.mem_cons, not_or] at bare other
    obtain ⟨same, unmarked⟩ := ih bare.2
    rw [same, units_cons, List.mem_cons, not_or]
    exact ⟨rfl, Ne.symm other.1, unmarked⟩
  | _ => exact absurd (by simp) bare

theorem isAttributeText_iff_of_isString {source text : List Char} (denotes : IsString source text)
    (reference : '&' ∉ text) : IsAttributeText source text ↔ '\x5c' ∉ source := by
  obtain ⟨mark, body, isMark, rfl, spells⟩ := denotes
  have mark_ne : '\x5c' ≠ mark := by
    rintro rfl
    exact absurd isMark (by decide)
  have inside : '\x5c' ∈ mark :: body ++ [mark] ↔ '\x5c' ∈ body := by
    simp [mark_ne]
  rw [inside]
  constructor
  · rintro ⟨mark', -, same, -⟩ escape
    simp only [List.cons_append, List.cons.injEq] at same
    obtain ⟨rfl, same⟩ := same
    obtain rfl := List.append_cancel_right same
    exact absurd (spells.length_le.2 escape) (Nat.lt_irrefl _)
  · intro bare
    obtain ⟨same, unmarked⟩ := spells.eq_units bare
    obtain rfl := units_injective same
    exact ⟨mark, isMark, rfl, unmarked, reference⟩

end Script

namespace Json

/-- A character that stands in JSON for itself. -/
def IsPlain (c : Char) : Prop := ' ' ≤ c ∧ c ≤ '~' ∧ c ≠ '\x22' ∧ c ≠ '\x5c'

theorem escaped_of_isPlain {c : Char} (plain : IsPlain c) : escaped c = [c] := by
  obtain ⟨low, high, mark, escape⟩ := plain
  have control {d : Char} (below : d < ' ') : c ≠ d := by
    rintro rfl
    exact absurd low (Char.not_le.mpr below)
  unfold escaped
  simp [low, high, mark, escape, control (d := '\n') (by decide), control (d := '\r') (by decide),
    control (d := '\t') (by decide), control (d := '\x08') (by decide),
    control (d := '\x0c') (by decide)]

theorem length_escaped {c : Char} (special : ¬ IsPlain c) : 1 < (escaped c).length := by
  unfold escaped
  split
  · exact Nat.lt_succ_self 1
  · rename_i unmarked
    simp only [Bool.or_eq_true, decide_eq_true_eq, not_or] at unmarked
    repeat' split
    any_goals decide
    · rename_i shown
      simp only [Bool.and_eq_true, decide_eq_true_eq] at shown
      exact absurd ⟨shown.1, shown.2, unmarked.1, unmarked.2⟩ special
    · exact Nat.le_add_left 2 _
    · rw [List.length_append]
      exact Nat.le_trans (Nat.le_add_left 2 _) (Nat.le_add_right _ _)

variable [Host]

theorem escapedUnit_of_isPlain {c : Char} (plain : IsPlain c) : escapedUnit Host.half? c = [c] := by
  have ascii : c.toNat < 0x80 := by
    have high : c.toNat ≤ 0x7e := plain.2.1
    omega
  rw [escapedUnit, Host.half?_ascii c ascii]
  exact escaped_of_isPlain plain

theorem length_escapedUnit {c : Char} (special : ¬ IsPlain c) :
    1 < (escapedUnit Host.half? c).length := by
  unfold escapedUnit
  split
  · exact Nat.le_add_left 2 _
  · exact length_escaped special

/-- A text is its own spelling in JSON when each of its characters is. -/
theorem flatMap_escapedUnit_iff (cs : List Char) :
    cs.flatMap (escapedUnit Host.half?) = cs ↔ ∀ c ∈ cs, IsPlain c := by
  constructor
  · have long (cs : List Char) : cs.length ≤ (cs.flatMap (escapedUnit Host.half?)).length := by
      induction cs with
      | nil => exact Nat.le_refl 0
      | cons c rest ih =>
        have one : 1 ≤ (escapedUnit Host.half? c).length := by
          by_cases plain : IsPlain c
          · rw [escapedUnit_of_isPlain plain]
            exact Nat.le_refl 1
          · exact Nat.le_of_lt (length_escapedUnit plain)
        rw [List.flatMap_cons, List.length_append, List.length_cons]
        omega
    induction cs with
    | nil => exact fun _ => List.forall_mem_nil _
    | cons c rest ih =>
      intro same
      by_cases plain : IsPlain c
      · rw [List.flatMap_cons, escapedUnit_of_isPlain plain, List.singleton_append,
          List.cons.injEq] at same
        exact List.forall_mem_cons.mpr ⟨plain, ih same.2⟩
      · have more := congrArg List.length same
        rw [List.flatMap_cons, List.length_append, List.length_cons] at more
        have := length_escapedUnit plain
        have := long rest
        omega
  · intro plain
    induction cs with
    | nil => rfl
    | cons c rest ih =>
      obtain ⟨here, others⟩ := List.forall_mem_cons.mp plain
      rw [List.flatMap_cons, escapedUnit_of_isPlain here, ih others, List.singleton_append]

theorem isAttributeText_quoted_iff {text : String} (reference : '&' ∉ text.toList) :
    Script.IsAttributeText (quoted Host.half? text).toList text.toList ↔
      ∀ c ∈ text.toList, IsPlain c := by
  rw [← flatMap_escapedUnit_iff, quoted, String.toList_ofList]
  constructor
  · rintro ⟨mark, -, same, -⟩
    simp only [List.cons_append, List.cons.injEq] at same
    exact List.append_cancel_right (same.1 ▸ same.2)
  · intro same
    refine ⟨'\x22', by decide, by rw [same, List.cons_append], fun marked => ?_, reference⟩
    exact ((flatMap_escapedUnit_iff _).mp same _ marked).2.2.1 rfl

end Json

/-- The literal is written without escapes. -/
def BracedText.Verbatim (b : BracedText) : Prop :=
  match (b.literal.get "raw").string? with
  | some raw => '\x5c' ∉ raw.toList
  | none => ∀ c ∈ b.text.toList, Json.IsPlain c

theorem BracedText.isAttributeText_source_iff [Host] {b : BracedText} (reference : '&' ∉ b.text.toList)
    (denotes : ∀ raw, (b.literal.get "raw").string? = some raw →
      Script.IsString raw.toList b.text.toList) :
    Script.IsAttributeText (b.source Host.half?).toList b.text.toList ↔ b.Verbatim := by
  unfold source Verbatim
  cases written : (b.literal.get "raw").string? with
  | some raw => exact Script.isAttributeText_iff_of_isString (denotes raw written) reference
  | none => exact Json.isAttributeText_quoted_iff reference

/-- A change that a run offers leaves an attribute that says what the literal in braces said just
when the literal is written without escapes. -/
theorem Lint.fix_says_iff [Host] {config : Configuration} {file : ParsedFile}
    {cwd : Option String} {result : LintResult} (ran : run config file cwd = .ok result)
    {v : Violation} (reported : v ∈ result.violations) {f : Fix} (offered : v.fix = some f) :
    ∃ c b, (Cursor.ofRoot file.source.root).Below c ∧ c.node.Braces b ∧
      Fix.replacing b.container (b.source Host.half?) = .ok (some f) ∧
      ('&' ∉ b.text.toList →
        (∀ raw, (b.literal.get "raw").string? = some raw →
          Script.IsString raw.toList b.text.toList) →
        (Script.IsAttributeText f.text.toList b.text.toList ↔ b.Verbatim)) := by
  obtain ⟨c, b, below, braces, replaces⟩ := bracedText_of_fix ran reported offered
  refine ⟨c, b, below, braces, replaces, fun reference denotes => ?_⟩
  rw [(Fix.replacing_ok_iff.mp replaces).2.2]
  exact BracedText.isAttributeText_source_iff reference denotes

namespace Lint

/-- A literal whose text has a backslash, which its source spells with an escape. -/
def escapedLiteral : Node :=
  ⟨"Literal", [("value", .value (.str "a\\b")), ("raw", .value (.str "'a\\\\b'"))]⟩

def escapedBraces : BracedText :=
  ⟨⟨"JSXExpressionContainer", [("range", .value (.list [.int 5, .int 13])),
    ("expression", escapedLiteral.toTree)]⟩, escapedLiteral, "a\\b"⟩

def escapedFile : ParsedFile :=
  ⟨some "a.tsx", ⟨[], ⟨"JSXAttribute", [("value", escapedBraces.container.toTree)]⟩, []⟩, none⟩

section

attribute [local instance] Host.usual

theorem escapedFile_reports : ∃ result v, run curlyOnly escapedFile none = .ok result ∧
    v ∈ result.violations ∧ v.fix = some ⟨.int 5, .int 13, "'a\\\\b'"⟩ := by
  have offers : (run curlyOnly escapedFile none).toOption.any (fun result =>
      result.violations.any (·.fix = some ⟨.int 5, .int 13, "'a\\\\b'"⟩)) = true := by
    decide +kernel
  obtain ⟨result, ran, offers⟩ := exists_ok_of_any offers
  obtain ⟨v, reported, offered⟩ := List.any_eq_true.mp offers
  exact ⟨result, v, ran, reported, of_decide_eq_true offered⟩

end

theorem escapedLiteral_isString : Script.IsString "'a\\\\b'".toList "a\\b".toList := by
  refine ⟨'\x27', ['a', '\x5c', '\x5c', 'b'], by decide, by decide, ?_⟩
  have last : Script.Spells '\x27' ['b'] [98] := .plain (by decide) .none
  have escape : Script.Spells '\x27' ['\x5c', '\x5c', 'b'] [92, 98] := .itself (by decide) last
  exact .plain (by decide) escape

theorem escapedBraces_denotes (raw : String)
    (written : (escapedBraces.literal.get "raw").string? = some raw) :
    Script.IsString raw.toList escapedBraces.text.toList := by
  cases written
  exact escapedLiteral_isString

attribute [local instance] Host.usual in
/-- The change to that file. -/
theorem fix_says_escapedFile : ∃ v : Violation, v.fix = some ⟨.int 5, .int 13, "'a\\\\b'"⟩ ∧ ∃ c b,
    (Cursor.ofRoot escapedFile.source.root).Below c ∧ c.node.Braces b ∧
      Fix.replacing b.container (b.source Host.half?) = .ok (some ⟨.int 5, .int 13, "'a\\\\b'"⟩) ∧
      ('&' ∉ b.text.toList →
        (∀ raw, (b.literal.get "raw").string? = some raw →
          Script.IsString raw.toList b.text.toList) →
        (Script.IsAttributeText "'a\\\\b'".toList b.text.toList ↔ b.Verbatim)) := by
  obtain ⟨result, v, ran, reported, offered⟩ := escapedFile_reports
  exact ⟨v, offered, fix_says_iff ran reported offered⟩

attribute [local instance] Host.usual in
/-- The change to that file does not say what the literal said. -/
theorem fix_not_says :
    ¬ ∀ (config : Configuration) (file : ParsedFile) (cwd : Option String)
      (result : LintResult) (v : Violation) (f : Fix) (c : Cursor) (b : BracedText),
      run config file cwd = .ok result → v ∈ result.violations → v.fix = some f →
      (Cursor.ofRoot file.source.root).Below c → c.node.Braces b →
      Fix.replacing b.container (b.source Host.half?) = .ok (some f) → '&' ∉ b.text.toList →
      (∀ raw, (b.literal.get "raw").string? = some raw →
        Script.IsString raw.toList b.text.toList) →
      Script.IsAttributeText f.text.toList b.text.toList := by
  intro claim
  obtain ⟨result, v, ran, reported, offered⟩ := escapedFile_reports
  have braces : (Cursor.ofRoot escapedFile.source.root).node.Braces escapedBraces :=
    ⟨rfl, rfl, rfl, rfl, rfl, rfl⟩
  obtain ⟨mark, -, same, -⟩ := claim _ _ _ result v _ (.ofRoot escapedFile.source.root)
    escapedBraces ran reported offered .refl braces (by rfl) (by decide) escapedBraces_denotes
  have long := congrArg List.length same
  rw [List.length_append, List.length_cons, List.length_singleton] at long
  exact absurd long (by decide)

end Lint

end TreeLint
