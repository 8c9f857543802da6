import Mathlib.Algebra.BigOperators.Group.List.Basic
import Mathlib.Data.List.Chain
import TreeLint.Proofs.Locations
import TreeLint.Proofs.NodeReports
import TreeLint.Proofs.Numerals
import TreeLint.Proofs.Regex
import TreeLint.Rules.ConstantName
import TreeLint.Rules.FileName
import TreeLint.Rules.TypeName

/-! The spellings of names. Each spelling is said by its words and characters, without the check for
it, and is what one regular expression matches from the start of a name to its end. A name is also
accepted if a line feed stands behind it, since a line feed at the very end is not matched. -/

namespace TreeLint

namespace Spelling
open Text (Regex pieces)
open Text.Regex (MayFeed Takes)

/-- A small letter of the Latin alphabet or a digit. -/
def IsPlain (c : Char) : Prop := ('a' ≤ c ∧ c ≤ 'z') ∨ ('0' ≤ c ∧ c ≤ '9')

instance : DecidablePred IsPlain := fun c =>
  inferInstanceAs (Decidable (('a' ≤ c ∧ c ≤ 'z') ∨ ('0' ≤ c ∧ c ≤ '9')))

/-- Small letters and digits, at least one of them. -/
@[mk_iff isWord_iff]
structure IsWord (cs : List Char) : Prop where
  filled : cs ≠ []
  all : ∀ c ∈ cs, IsPlain c

/-- Words with single hyphens between them. -/
def Hyphenated (cs : List Char) : Prop :=
  ∃ words : List (List Char), words ≠ [] ∧ (∀ word ∈ words, IsWord word) ∧
    cs = ['-'].intercalate words

/-- Capitals, digits and underscores, the first of them a capital. -/
structure Capitals (cs : List Char) : Prop where
  first : ∃ c ∈ cs.head?, 'A' ≤ c ∧ c ≤ 'Z'
  all : ∀ c ∈ cs, ('A' ≤ c ∧ c ≤ 'Z') ∨ ('0' ≤ c ∧ c ≤ '9') ∨ c = '_'

/-- Letters and digits that start with a mark and a capital, or are more than `Props` and end in
it. -/
@[mk_iff marked_iff]
structure Marked (mark : Char) (cs : List Char) : Prop where
  all : ∀ c ∈ cs, ('A' ≤ c ∧ c ≤ 'Z') ∨ IsPlain c
  marked : (∃ c rest, cs = mark :: c :: rest ∧ 'A' ≤ c ∧ c ≤ 'Z') ∨
    (5 < cs.length ∧ "Props".toList <:+ cs)

variable {c : Char} {cs word : List Char} {words : List (List Char)} {mark : Char}
  {L M : List Char → Prop}

theorem isCapital_iff : NameShape.isCapital c = true ↔ 'A' ≤ c ∧ c ≤ 'Z' := by
  simp [NameShape.isCapital]

theorem isNumeral_iff : NameShape.isNumeral c = true ↔ '0' ≤ c ∧ c ≤ '9' := by
  simp [NameShape.isNumeral]

theorem isPlain_iff : (isSmall c || NameShape.isNumeral c) = true ↔ IsPlain c := by
  simp [isSmall, NameShape.isNumeral, IsPlain]

theorem isAlphanumeric_iff : isAlphanumeric c = true ↔ ('A' ≤ c ∧ c ≤ 'Z') ∨ IsPlain c := by
  rw [isAlphanumeric, Bool.or_assoc, Bool.or_eq_true, isCapital_iff, isPlain_iff]

theorem IsPlain.ne_hyphen (plain : IsPlain c) : c ≠ '-' := by
  rintro rfl
  exact absurd plain (by decide)

theorem IsWord.noHyphen (isWord : IsWord word) : '-' ∉ word :=
  fun hyphen => (isWord.all _ hyphen).ne_hyphen rfl

/-! A line feed at the end. -/

theorem mayFeed_congr (same : ∀ first, first.length ≤ cs.length → (L first ↔ M first)) :
    MayFeed L cs ↔ MayFeed M cs := by
  refine or_congr (same cs le_rfl) (exists_congr fun first => and_congr_right ?_)
  rintro rfl
  exact same first (by simp)

/-- A name is of a spelling without the line feed at its end just when it is of it, or a line feed
stands behind a name of it. -/
theorem withoutFinalFeed_iff (noFeed : ∀ cs, L cs → '\n' ∉ cs) :
    L (withoutFinalFeed cs) ↔ MayFeed L cs := by
  unfold withoutFinalFeed MayFeed
  split
  · rename_i last
    have split : cs = cs.dropLast ++ ['\n'] := (List.dropLast_append_getLast? _ last).symm
    constructor
    · exact fun holds => .inr ⟨_, split, holds⟩
    · rintro (holds | ⟨first, rfl, holds⟩)
      · exact absurd (List.mem_of_getLast? last) (noFeed cs holds)
      · rwa [List.dropLast_concat]
  · rename_i other
    refine ⟨.inl, ?_⟩
    rintro (holds | ⟨first, rfl, -⟩)
    · exact holds
    · exact absurd (by simp) other

/-! Words and hyphens. -/

theorem pieces_append {separator : Char} (absent : separator ∉ word) (rest : List Char) :
    pieces separator (word ++ separator :: rest) = word :: pieces separator rest := by
  induction word with
  | nil => exact Text.pieces_feed separator rest
  | cons c more ih =>
    obtain ⟨other, absent⟩ := not_or.mp (mt List.mem_cons.mpr absent)
    exact Text.pieces_of_ne (Ne.symm other) (ih absent)

theorem pieces_intercalate {separator : Char} (some : words ≠ [])
    (absent : ∀ word ∈ words, separator ∉ word) :
    pieces separator ([separator].intercalate words) = words := by
  induction words with
  | nil => exact absurd rfl some
  | cons word rest ih =>
    obtain ⟨here, others⟩ := List.forall_mem_cons.mp absent
    cases rest with
    | nil => simpa using Text.pieces_of_not_mem here
    | cons next more =>
      rw [List.intercalate_cons_of_ne_nil (List.cons_ne_nil _ _), List.append_assoc,
        List.singleton_append, pieces_append here, ih (List.cons_ne_nil _ _) others]

theorem intercalate_eq_flatten (word : List Char) (words : List (List Char)) :
    ['-'].intercalate (word :: words) = word ++ (words.map ('-' :: ·)).flatten := by
  induction words generalizing word with
  | nil => simp
  | cons next rest ih =>
    rw [List.intercalate_cons_of_ne_nil (List.cons_ne_nil _ _), ih]
    simp

/-- A word with a hyphen in front. -/
def IsLaterWord (cs : List Char) : Prop := ∃ word, cs = '-' :: word ∧ IsWord word

/-- Hyphenated words are a word, and then words with hyphens in front. -/
theorem hyphenated_iff_later : Hyphenated cs ↔ ∃ (word : List Char) (parts : List (List Char)),
    cs = word ++ parts.flatten ∧ IsWord word ∧ ∀ part ∈ parts, IsLaterWord part := by
  constructor
  · rintro ⟨_ | ⟨word, words⟩, filled, each, rfl⟩
    · exact absurd rfl filled
    · obtain ⟨isWord, others⟩ := List.forall_mem_cons.mp each
      refine ⟨word, words.map ('-' :: ·), intercalate_eq_flatten word words, isWord, ?_⟩
      exact List.forall_mem_map.mpr fun word member => ⟨word, rfl, others word member⟩
  · rintro ⟨word, parts, rfl, isWord, each⟩
    have hyphens : parts = (parts.map List.tail).map ('-' :: ·) := by
      rw [List.map_map, List.map_congr_left (g := id), List.map_id]
      intro part member
      obtain ⟨_, rfl, -⟩ := each part member
      rfl
    refine ⟨word :: parts.map List.tail, List.cons_ne_nil _ _, ?_, ?_⟩
    · refine List.forall_mem_cons.mpr ⟨isWord, List.forall_mem_map.mpr fun part member => ?_⟩
      obtain ⟨_, rfl, isWord⟩ := each part member
      exact isWord
    · rw [intercalate_eq_flatten, ← hyphens]

theorem length_le_of_later {parts : List (List Char)} (each : ∀ part ∈ parts, IsLaterWord part) :
    parts.length ≤ parts.flatten.length := by
  rw [List.length_flatten, ← List.length_map (f := List.length)]
  refine List.length_le_sum_of_one_le _ (List.forall_mem_map.mpr fun part member => ?_)
  obtain ⟨word, rfl, -⟩ := each part member
  exact Nat.succ_le_succ (Nat.zero_le _)

theorem hyphenated_iff_pieces : Hyphenated cs ↔ ∀ word ∈ pieces '-' cs, IsWord word := by
  constructor
  · rintro ⟨words, some, each, rfl⟩
    rwa [pieces_intercalate some fun word member => (each word member).noHyphen]
  · intro each
    obtain ⟨piece, more, cut⟩ := Text.pieces_cons '-' cs
    exact ⟨pieces '-' cs, by simp [cut], each, (Text.intercalate_pieces '-' cs).symm⟩

theorem isKebab_iff : isKebab cs = true ↔ Hyphenated (withoutFinalFeed cs) := by
  rw [hyphenated_iff_pieces]
  simp only [isKebab, List.all_eq_true, Bool.and_eq_true, Bool.not_eq_true',
    List.isEmpty_eq_false_iff, isPlain_iff, isWord_iff]

/-- A word starts with no hyphen, and is followed by one if it is not the last. -/
theorem head_of_empty_piece {more : List (List Char)} (cut : pieces '-' cs = [] :: more) :
    cs = [] ∨ cs.head? = some '-' := by
  cases cs with
  | nil => exact .inl rfl
  | cons c rest =>
    by_cases same : c = '-'
    · exact .inr (by rw [same]; rfl)
    · obtain ⟨piece, others, cut'⟩ := Text.pieces_cons '-' rest
      rw [Text.pieces_of_ne same cut'] at cut
      cases cut

/-- No word behind the first is empty where no hyphen is doubled and none stands at the end. -/
theorem nil_not_mem_tail_pieces (last : cs.getLast? ≠ some '-')
    (single : cs.IsChain fun a b => ¬ (a = '-' ∧ b = '-')) : [] ∉ (pieces '-' cs).tail := by
  induction cs with
  | nil => exact List.not_mem_nil
  | cons c rest ih =>
    obtain ⟨piece, more, cut⟩ := Text.pieces_cons '-' rest
    rw [List.isChain_cons] at single
    have later : rest.getLast? ≠ some '-' := by
      intro ends
      cases rest with
      | nil => cases ends
      | cons => rw [List.getLast?_cons_cons] at last; exact last ends
    have others := ih later single.2
    rw [cut, List.tail_cons] at others
    by_cases same : c = '-'
    · subst same
      rw [Text.pieces_feed, List.tail_cons, cut]
      intro member
      rcases List.mem_cons.mp member with rfl | member
      · rcases head_of_empty_piece cut with rfl | starts
        · exact last rfl
        · exact single.1 '-' starts ⟨rfl, rfl⟩
      · exact others member
    · rwa [Text.pieces_of_ne same cut, List.tail_cons]

/-- A text is not empty and has only small letters, digits and hyphens, of which none is doubled or
stands at the start or the end. -/
structure Neat (cs : List Char) : Prop where
  filled : cs ≠ []
  all : ∀ c ∈ cs, IsPlain c ∨ c = '-'
  first : cs.head? ≠ some '-'
  last : cs.getLast? ≠ some '-'
  single : cs.IsChain fun a b => ¬ (a = '-' ∧ b = '-')

theorem IsWord.neat (isWord : IsWord word) : Neat word where
  filled := isWord.filled
  all c member := .inl (isWord.all c member)
  first starts := isWord.noHyphen (List.mem_of_head? starts)
  last ends := isWord.noHyphen (List.mem_of_getLast? ends)
  single := by
    refine (List.pairwise_of_forall_mem_list ?_).isChain
    rintro a here b - ⟨rfl, -⟩
    exact isWord.noHyphen here

theorem neat_append (one : Neat word) (two : Neat cs) : Neat (word ++ '-' :: cs) where
  filled := by simp
  all := by
    rw [List.forall_mem_append, List.forall_mem_cons]
    exact ⟨one.all, .inr rfl, two.all⟩
  first := by
    rw [List.head?_append_of_ne_nil _ one.filled]
    exact one.first
  last := by
    rw [List.getLast?_append_of_ne_nil _ (List.cons_ne_nil _ _), List.getLast?_cons,
      List.getLast?_eq_some_getLast two.filled]
    simpa [List.getLast?_eq_some_getLast two.filled] using two.last
  single := by
    rw [List.isChain_append, List.isChain_cons]
    refine ⟨one.single, ⟨?_, two.single⟩, ?_⟩
    · rintro b starts ⟨-, rfl⟩
      exact two.first starts
    · rintro a ends b - ⟨rfl, -⟩
      exact one.last ends

theorem mem_of_mem_pieces (member : word ∈ pieces '-' cs) (inside : c ∈ word) : c ∈ cs := by
  obtain ⟨piece, more, cut⟩ := Text.pieces_cons '-' cs
  rw [← Text.intercalate_pieces '-' cs, cut, intercalate_eq_flatten]
  rw [cut] at member
  rcases List.mem_cons.mp member with rfl | member
  · exact List.mem_append_left _ inside
  · refine List.mem_append_right _ (List.mem_flatten.mpr ⟨'-' :: word, ?_, .tail _ inside⟩)
    exact List.mem_map_of_mem member

theorem hyphenated_iff_neat : Hyphenated cs ↔ Neat cs := by
  constructor
  · rintro ⟨words, some, each, rfl⟩
    induction words with
    | nil => exact absurd rfl some
    | cons word rest ih =>
      obtain ⟨here, others⟩ := List.forall_mem_cons.mp each
      cases rest with
      | nil => simpa using here.neat
      | cons next more =>
        rw [List.intercalate_cons_of_ne_nil (List.cons_ne_nil _ _), List.append_assoc]
        exact neat_append here.neat (ih (List.cons_ne_nil _ _) others)
  · intro neat
    refine hyphenated_iff_pieces.mpr fun word member => ⟨?_, fun c inside => ?_⟩
    · rintro rfl
      obtain ⟨piece, more, cut⟩ := Text.pieces_cons '-' cs
      have others := nil_not_mem_tail_pieces neat.last neat.single
      rw [cut] at member others
      rcases List.mem_cons.mp member with rfl | member
      · exact (head_of_empty_piece cut).elim neat.filled neat.first
      · exact others member
    · refine (neat.all c (mem_of_mem_pieces member inside)).resolve_right ?_
      rintro rfl
      exact Text.not_mem_of_mem_pieces member inside

theorem Hyphenated.noFeed (hyphenated : Hyphenated cs) : '\n' ∉ cs := by
  intro feed
  exact absurd ((hyphenated_iff_neat.mp hyphenated).all _ feed) (by decide)

/-! The other spellings. -/

theorem isAllCaps_iff {name : String} :
    isAllCaps name = true ↔ Capitals (withoutFinalFeed name.toList) := by
  unfold isAllCaps
  cases withoutFinalFeed name.toList with
  | nil =>
    refine iff_of_false Bool.false_ne_true ?_
    rintro ⟨⟨c, ⟨⟩, -⟩, -⟩
  | cons c rest =>
    simp only [Bool.and_eq_true, isCapital_iff, List.all_eq_true, Bool.or_eq_true, isNumeral_iff,
      decide_eq_true_eq, or_assoc]
    constructor
    · rintro ⟨first, all⟩
      exact ⟨⟨c, rfl, first⟩, List.forall_mem_cons.mpr ⟨.inl first, all⟩⟩
    · rintro ⟨⟨_, ⟨⟩, first⟩, all⟩
      exact ⟨first, (List.forall_mem_cons.mp all).2⟩

theorem Capitals.noFeed (capitals : Capitals cs) : '\n' ∉ cs := by
  intro feed
  exact absurd (capitals.all _ feed) (by decide)

theorem isTypeName_iff {name : String} :
    isTypeName mark name = true ↔ Marked mark (withoutFinalFeed name.toList) := by
  simp only [isTypeName, Bool.and_eq_true, Bool.or_eq_true, List.all_eq_true, isAlphanumeric_iff,
    List.isSuffixOf_iff_suffix, decide_eq_true_eq, marked_iff]
  refine and_congr_right fun _ => or_congr ?_ Iff.rfl
  match withoutFinalFeed name.toList with
  | [] => simp
  | [c] => simp
  | c :: d :: rest =>
    simp only [Bool.and_eq_true, beq_iff_eq, isCapital_iff, List.cons.injEq]
    constructor
    · rintro ⟨rfl, capital⟩
      exact ⟨d, rest, ⟨rfl, rfl, rfl⟩, capital⟩
    · rintro ⟨_, _, ⟨rfl, rfl, rfl⟩, capital⟩
      exact ⟨rfl, capital⟩

theorem Marked.noFeed (marked : Marked mark cs) : '\n' ∉ cs := by
  intro feed
  exact absurd (marked.all _ feed) (by decide)

/-! What the expressions match. -/

def wordExpression : Regex := .run (fun c => isSmall c || NameShape.isNumeral c) 1 none false

/-- A word, and then words with a hyphen in front of each, no more of them than some number. -/
def kebabExpression (most : Nat) : Regex :=
  .seq wordExpression ((Regex.group (.seq (.char (· = '-')) wordExpression)).repeated most)

/-- A capital, and then capitals, digits and underscores. -/
def capitalsExpression : Regex :=
  .seq (.char NameShape.isCapital)
    (.many fun c => NameShape.isCapital c || NameShape.isNumeral c || c = '_')

/-- A mark, a capital and then letters and digits, or letters and digits in front of `Props`. -/
def typeNameExpression (mark : Char) : Regex :=
  .group (.either
    (.seq (.char (· = mark)) (.seq (.char NameShape.isCapital) (.many isAlphanumeric)))
    (.seq (.run isAlphanumeric 1 none false) (.spelled id "Props".toList)))

theorem wordExpression_takes : wordExpression.Takes IsWord := by
  intro p rest
  rw [wordExpression, Takes.run p rest]
  simp only [isPlain_iff, isWord_iff, Nat.one_le_iff_ne_zero, ne_eq, List.length_eq_zero_iff]

theorem laterWord_takes :
    (Regex.group (.seq (.char (· = '-')) wordExpression)).Takes IsLaterWord := by
  intro p rest
  rw [(Takes.char.seq wordExpression_takes).group p rest]
  refine exists_congr fun taken => and_congr_right fun _ => ?_
  constructor
  · rintro ⟨_, word, rfl, ⟨c, rfl, same⟩, isWord⟩
    exact ⟨word, by rw [of_decide_eq_true same]; rfl, isWord⟩
  · rintro ⟨word, rfl, isWord⟩
    exact ⟨['-'], word, rfl, ⟨'-', rfl, rfl⟩, isWord⟩

/-- A text is hyphenated just when the expression takes it, if it may take as many words as the text
has characters. -/
theorem kebabExpression_accepts {most : Nat} (enough : cs.length ≤ most) :
    (kebabExpression most).accepts cs = true ↔ MayFeed Hyphenated cs := by
  have takes : (kebabExpression most).Takes _ :=
    wordExpression_takes.seq (laterWord_takes.repeated most)
  rw [takes.accepts_iff]
  refine mayFeed_congr fun first shorter => ?_
  rw [hyphenated_iff_later]
  constructor
  · rintro ⟨word, _, rfl, isWord, parts, -, each, rfl⟩
    exact ⟨word, parts, rfl, isWord, each⟩
  · rintro ⟨word, parts, rfl, isWord, each⟩
    have few := length_le_of_later each
    rw [List.length_append] at shorter
    exact ⟨word, _, rfl, isWord, parts, by omega, each, rfl⟩

theorem capitalsExpression_accepts :
    capitalsExpression.accepts cs = true ↔ MayFeed Capitals cs := by
  have takes : capitalsExpression.Takes _ := Takes.char.seq Takes.run
  rw [takes.accepts_iff]
  refine mayFeed_congr fun first _ => ?_
  simp only [isCapital_iff, Bool.or_eq_true, isNumeral_iff, decide_eq_true_eq, or_assoc]
  constructor
  · rintro ⟨_, rest, rfl, ⟨c, rfl, capital⟩, -, all⟩
    exact ⟨⟨c, rfl, capital⟩, List.forall_mem_cons.mpr ⟨.inl capital, all⟩⟩
  · rintro ⟨⟨c, starts, capital⟩, all⟩
    obtain ⟨rest, rfl⟩ := List.head?_eq_some_iff.mp starts
    exact ⟨[c], rest, rfl, ⟨c, rfl, capital⟩, Nat.zero_le _, (List.forall_mem_cons.mp all).2⟩

theorem typeNameExpression_accepts (letter : ('A' ≤ mark ∧ mark ≤ 'Z') ∨ IsPlain mark) :
    (typeNameExpression mark).accepts cs = true ↔ MayFeed (Marked mark) cs := by
  have takes : (typeNameExpression mark).Takes _ :=
    ((Takes.char.seq (Takes.char.seq Takes.run)).either (Takes.run.seq (Takes.spelled _))).group
  rw [takes.accepts_iff]
  refine mayFeed_congr fun first _ => ?_
  simp only [isCapital_iff, isAlphanumeric_iff, decide_eq_true_eq, marked_iff, and_or_left]
  refine or_congr ?_ ?_
  · constructor
    · rintro ⟨_, _, rfl, ⟨_, rfl, rfl⟩, _, rest, rfl, ⟨c, rfl, capital⟩, -, all⟩
      exact ⟨List.forall_mem_cons.mpr ⟨letter, List.forall_mem_cons.mpr ⟨.inl capital, all⟩⟩,
        c, rest, rfl, capital⟩
    · rintro ⟨all, c, rest, rfl, capital⟩
      refine ⟨[mark], _, rfl, ⟨mark, rfl, rfl⟩, [c], rest, rfl, ⟨c, rfl, capital⟩, Nat.zero_le _, ?_⟩
      exact (List.forall_mem_cons.mp (List.forall_mem_cons.mp all).2).2
  · constructor
    · rintro ⟨one, _, rfl, ⟨filled, all⟩, rfl⟩
      have letters : "Props".toList.all isAlphanumeric = true := by decide
      have last := fun c member => isAlphanumeric_iff.mp (List.all_eq_true.mp letters c member)
      refine ⟨List.forall_mem_append.mpr ⟨all, last⟩, ?_, List.suffix_append _ _⟩
      rw [List.length_append]
      exact Nat.add_lt_add_right filled 5
    · rintro ⟨all, long, one, rfl⟩
      rw [List.length_append] at long
      refine ⟨one, _, rfl, ⟨?_, (List.forall_mem_append.mp all).1⟩, rfl⟩
      exact Nat.lt_of_add_lt_add_right (show 0 + 5 < one.length + 5 from long)

/-! What the rules report. -/

/-- A declarator gives a name to something that is no function. -/
structure NamesConstant (declarator : Node) (name : String) : Prop where
  constant : Shape.isFunctionValue (declarator.get "init") = .ok false
  named : ∃ id : Node, declarator.get "id" = id.toTree ∧ id.type = "Identifier" ∧
    id.nameText.getD "" = name

variable {context : RuleContext} {name : String}

theorem report_not_silent {spot : RuleContext.Spot} {messageId : String}
    {data : List (String × String)} {fix : Option Fix} :
    context.report spot messageId data fix ≠ pure () := by
  intro silent
  obtain ⟨v, -, given⟩ := Reporting.lift_bind_eq_iff.mp silent
  cases given

/-- A check that reports a node unless its name passes reports nothing just when the name passes. -/
theorem silent_iff {passes : Bool} {n : Node} {messageId : String} {data : List (String × String)} :
    (if !passes then context.reportAt n messageId data else pure ()) = (pure () : Reporting Unit) ↔
      passes = true := by
  cases passes with
  | true => exact iff_of_true rfl rfl
  | false => exact iff_of_false report_not_silent Bool.false_ne_true

theorem checkDeclarator_silent_iff {declarator : Node} (names : NamesConstant declarator name) :
    Rules.ConstantName.checkDeclarator context declarator.toTree = pure () ↔
      isAllCaps name = true := by
  obtain ⟨constant, id, bound, identifier, rfl⟩ := names
  have given : declarator.toTree.asNode = .ok declarator := rfl
  have found : id.toTree.asNode? = .ok (some id) := rfl
  simp only [Rules.ConstantName.checkDeclarator, given, Reporting.lift_ok_bind, constant, bound,
    found, identifier, bne_self_eq_false, Bool.false_eq_true, if_false]
  exact silent_iff

theorem checkDeclaration_silent_iff {messageId : String} {c : Cursor} {id : Node}
    (bound : c.node.get "id" = id.toTree) (named : id.nameText.getD "" = name) :
    Rules.TypeName.checkDeclaration context mark messageId c = pure () ↔
      isTypeName mark name = true := by
  subst named
  have found : id.toTree.asNode? = .ok (some id) := rfl
  simp only [Rules.TypeName.checkDeclaration, bound, found, Reporting.lift_ok_bind]
  exact silent_iff

theorem checkName_silent_iff {visited : Option Cursor} {memory : Memory} :
    Rules.FileName.checkName context name visited memory = pure memory ↔
      isKebabFileName name = true := by
  unfold Rules.FileName.checkName
  cases isKebabFileName name with
  | true => exact iff_of_true rfl rfl
  | false =>
    refine iff_of_false (fun silent => ?_) Bool.false_ne_true
    obtain ⟨first, _, second, reported, -, none⟩ := Reporting.bind_eq_iff.mp silent
    obtain ⟨rfl, -⟩ := List.append_eq_nil_iff.mp none.symm
    exact report_not_silent reported

/-- Names are checked against their spellings, whichever way these are said. A line feed at the very
end of what is checked is allowed, and nothing else is. -/
theorem names_outcome (name : String) :
    let part := name.toList.takeWhile (· ≠ '.')
    (isKebabFileName name = true ↔ MayFeed Hyphenated part) ∧
    (isAllCaps name = true ↔ MayFeed Capitals name.toList) ∧
    (∀ mark, isTypeName mark name = true ↔ MayFeed (Marked mark) name.toList) ∧
    (∀ cs, Hyphenated cs ↔ Neat cs) ∧
    (∀ most, part.length ≤ most → isKebabFileName name = (kebabExpression most).accepts part) ∧
    isAllCaps name = capitalsExpression.accepts name.toList ∧
    (∀ mark, isAlphanumeric mark = true →
      isTypeName mark name = (typeNameExpression mark).accepts name.toList) ∧
    (∀ context visited memory, Rules.FileName.checkName context name visited memory = pure memory ↔
      MayFeed Hyphenated part) ∧
    (∀ context declarator, NamesConstant declarator name →
      (Rules.ConstantName.checkDeclarator context declarator.toTree = pure () ↔
        MayFeed Capitals name.toList)) ∧
    ∀ context mark messageId c (id : Node), c.node.get "id" = id.toTree →
      id.nameText.getD "" = name →
      (Rules.TypeName.checkDeclaration context mark messageId c = pure () ↔
        MayFeed (Marked mark) name.toList) := by
  intro part
  have kebab : isKebabFileName name = true ↔ MayFeed Hyphenated part :=
    isKebab_iff.trans (withoutFinalFeed_iff fun _ => Hyphenated.noFeed)
  have capitals : isAllCaps name = true ↔ MayFeed Capitals name.toList :=
    isAllCaps_iff.trans (withoutFinalFeed_iff fun _ => Capitals.noFeed)
  have marked (mark : Char) : isTypeName mark name = true ↔ MayFeed (Marked mark) name.toList :=
    isTypeName_iff.trans (withoutFinalFeed_iff fun _ => Marked.noFeed)
  refine ⟨kebab, capitals, marked, fun _ => hyphenated_iff_neat, fun most enough => ?_, ?_,
    fun mark letter => ?_, fun _ _ _ => checkName_silent_iff.trans kebab,
    fun _ _ names => (checkDeclarator_silent_iff names).trans capitals,
    fun _ mark _ _ _ bound named => (checkDeclaration_silent_iff bound named).trans (marked mark)⟩
  · exact Bool.eq_iff_iff.mpr (kebab.trans (kebabExpression_accepts enough).symm)
  · exact Bool.eq_iff_iff.mpr (capitals.trans capitalsExpression_accepts.symm)
  · have accepts : _ ↔ MayFeed (Marked mark) name.toList :=
      typeNameExpression_accepts (isAlphanumeric_iff.mp letter)
    exact Bool.eq_iff_iff.mpr ((marked mark).trans accepts.symm)

/-- A short name in capitals with the mark of an interface, in a file of no text. -/
theorem names_outcome_interface :
    let id : Node := ⟨"Identifier", [("name", .value (.str "IX"))]⟩
    let declarator : Node := ⟨"VariableDeclarator", [("id", id.toTree), ("init", .null)]⟩
    let declaration : Node := ⟨"TSInterfaceDeclaration", [("id", id.toTree)]⟩
    let context (info : RuleInfo) : RuleContext :=
      ⟨"", info, some "a.tsx", ⟨[], declaration, []⟩, [], none, .warn, .usual⟩
    isKebabFileName "IX" = (kebabExpression 2).accepts "IX".toList ∧
      isTypeName 'I' "IX" = (typeNameExpression 'I').accepts "IX".toList ∧
      NamesConstant declarator "IX" ∧
      Rules.ConstantName.checkDeclarator (context Rules.ConstantName.info) declarator.toTree =
        pure () ∧
      Rules.TypeName.checkDeclaration (context Rules.TypeName.info) 'I' "badInterfaceName"
        (Cursor.ofRoot declaration) = pure () := by
  intro id declarator declaration context
  have names : NamesConstant declarator "IX" := ⟨rfl, id, rfl, rfl, rfl⟩
  obtain ⟨-, capitals, marked, -, kebab, -, expression, -, constants, types⟩ := names_outcome "IX"
  refine ⟨kebab 2 (by decide), expression 'I' (by decide), names,
    (constants _ _ names).mpr (capitals.mp (by decide +kernel)),
    (types _ 'I' _ _ id rfl rfl).mpr ((marked 'I').mp (by decide +kernel))⟩

/-- A name with a line feed at its end is accepted by each of the checks, and is of no spelling. -/
theorem feed_accepted :
    (isKebabFileName "my-file\n.tsx" = true ∧
        ¬ Hyphenated ("my-file\n.tsx".toList.takeWhile (· ≠ '.'))) ∧
      (isAllCaps "API\n" = true ∧ ¬ Capitals "API\n".toList) ∧
      isTypeName 'I' "IUser\n" = true ∧ ¬ Marked 'I' "IUser\n".toList := by
  refine ⟨⟨by decide +kernel, fun holds => ?_⟩, ⟨by decide +kernel, fun holds => ?_⟩,
    by decide +kernel, fun holds => ?_⟩
  · exact holds.noFeed (by decide)
  · exact holds.noFeed (by decide)
  · exact holds.noFeed (by decide)

end Spelling

end TreeLint
