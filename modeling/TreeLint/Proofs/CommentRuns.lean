import TreeLint.Proofs.Fixing
import TreeLint.Proofs.StableSort
import TreeLint.Shape.Doc

/-! The comments directly before an offset. The scan goes backwards through the comments and moves
its offset to the start of each one it takes. Which comments it finds is said of the characters of
the text alone: between the comment and the offset stand only white space and other comments. -/

namespace TreeLint

/-- A white-space character stands at a place in a text. -/
def Text.IsBlankAt (text : List Char) (i : Nat) : Prop :=
  ∃ ch, text[i]? = some ch ∧ isBlank ch = true

namespace Comment

/-- A comment that has characters, all of them in a text of some length. -/
structure Within (length : Nat) (c : Comment) : Prop where
  nonneg : 0 ≤ c.start
  nonempty : c.start < c.stop
  inside : c.stop ≤ length

/-- Two comments without a common character. -/
def Apart (c d : Comment) : Prop := c.stop ≤ d.start ∨ d.stop ≤ c.start

/-- Every character from the end of a comment up to an offset is white space or stands in a comment
that ends before the offset. -/
def LeadsTo (text : List Char) (listed : List Comment) (offset : Int) (c : Comment) : Prop :=
  c.stop ≤ offset ∧ ∀ i : Nat, c.stop ≤ i → (i : Int) < offset →
    Text.IsBlankAt text i ∨ ∃ d ∈ listed, d.stop ≤ offset ∧ d.start ≤ i ∧ (i : Int) < d.stop

/-- One comment ends before the next one begins; the nearest to the end of the text comes first. -/
abbrev Falling (comments : List Comment) : Prop :=
  comments.Pairwise fun near far => far.stop ≤ near.start

variable {text : List Char} {comments listed : List Comment} {offset : Int} {c d : Comment}

theorem Apart.symm (apart : Apart c d) : Apart d c := Or.symm apart

theorem leadsTo_congr (same : ∀ d, d ∈ comments ↔ d ∈ listed) :
    LeadsTo text comments offset c ↔ LeadsTo text listed offset c := by
  simp only [LeadsTo, same]

theorem leadsTo_cons_of_lt (later : offset < d.stop) :
    LeadsTo text (d :: comments) offset c ↔ LeadsTo text comments offset c := by
  simp [LeadsTo, not_le.mpr later]

/-- Comments that share no character follow each other once they are in the order of their
starts. -/
theorem falling_reverse_mergeSort (apart : listed.Pairwise Apart)
    (within : ∀ c ∈ listed, c.Within text.length) :
    Falling (listed.mergeSort fun a b => a.start ≤ b.start).reverse := by
  have sorted : StableSort start listed (listed.mergeSort fun a b => a.start ≤ b.start) :=
    stableSort_mergeSort (fun _ _ => decide_eq_true_iff) listed
  have separate := (sorted.perm.pairwise_iff Apart.symm).mpr apart
  rw [Falling, List.pairwise_reverse]
  refine (sorted.ordered.and separate).imp_of_mem fun {a b} _ member both => ?_
  obtain ⟨ordered, first | second⟩ := both
  · exact first
  · have proper := (within b (List.mem_mergeSort.mp member)).nonempty
    omega

end Comment

namespace SourceCode

/-- The source with a given text and tree, and comments that may be listed in any order. -/
def ofComments (text : List Char) (root : Node) (listed : List Comment) : SourceCode :=
  ⟨text, root, listed.mergeSort fun a b => a.start ≤ b.start⟩

theorem ofTree_eq [Host] (text : List Char) (root : Node) :
    ofTree text root = (Comment.ofRoot root).map (ofComments text root) := by
  rw [ofTree]
  cases Comment.ofRoot root <;> rfl

variable {text : List Char} {comments : List Comment} {offset : Int} {c d : Comment}

theorem allBlank_slice_iff {first last : Int} (low : 0 ≤ first) (directed : first ≤ last)
    (high : last ≤ text.length) : Text.allBlank (Text.slice text first last) = true ↔
      ∀ i : Nat, first ≤ i → (i : Int) < last → Text.IsBlankAt text i := by
  rw [Fixing.slice_eq low directed high, Text.allBlank, List.all_eq_true]
  constructor
  · intro blank i after before
    have short : i < text.length := by omega
    refine ⟨text[i], List.getElem?_eq_getElem short, blank _ ?_⟩
    refine List.mem_iff_getElem?.mpr ⟨i - first.toNat, ?_⟩
    rw [List.getElem?_drop, Nat.add_sub_cancel' (by omega), List.getElem?_take_of_lt (by omega),
      List.getElem?_eq_getElem short]
  · intro blank ch member
    obtain ⟨j, place⟩ := List.mem_iff_getElem?.mp member
    rw [List.getElem?_drop, List.getElem?_take] at place
    split at place
    · obtain ⟨other, same, white⟩ := blank (first.toNat + j) (by omega) (by omega)
      obtain rfl := Option.some.inj (same.symm.trans place)
      exact white
    · contradiction

theorem runBefore_sublist (text : List Char) (offset : Int) (comments : List Comment) :
    (runBefore text offset comments).Sublist comments := by
  fun_induction runBefore text offset comments with
  | case1 => exact .slnil
  | case2 _ _ _ _ ih => exact ih.cons _
  | case3 _ _ _ _ _ ih => exact ih.cons_cons _
  | case4 => exact List.nil_sublist _

theorem mem_skip (later : offset < d.stop) :
    c ∈ comments ∧ c.LeadsTo text comments offset ↔
      c ∈ d :: comments ∧ c.LeadsTo text (d :: comments) offset := by
  rw [Comment.leadsTo_cons_of_lt later, List.mem_cons]
  constructor
  · exact fun ⟨member, leads⟩ => ⟨.inr member, leads⟩
  · rintro ⟨rfl | member, leads⟩
    · exact absurd leads.1 (not_le.mpr later)
    · exact ⟨member, leads⟩

/-- Behind a comment that only white space parts from the offset, what leads to the start of this
comment is what leads to the offset. -/
theorem mem_take (falling : Comment.Falling (d :: comments)) (proper : d.start < d.stop)
    (before : d.stop ≤ offset)
    (blank : ∀ i : Nat, d.stop ≤ i → (i : Int) < offset → Text.IsBlankAt text i) :
    (c = d ∨ c ∈ comments ∧ c.LeadsTo text comments d.start) ↔
      c ∈ d :: comments ∧ c.LeadsTo text (d :: comments) offset := by
  obtain ⟨far, -⟩ := List.pairwise_cons.mp falling
  rw [List.mem_cons]
  constructor
  · rintro (rfl | ⟨member, ends, fills⟩)
    · exact ⟨.inl rfl, before, fun i after short => .inl (blank i after short)⟩
    · refine ⟨.inr member, by omega, fun i after short => ?_⟩
      -- From `d.start` on a character stands in `d` itself, and behind `d` in the gap.
      by_cases outside : (i : Int) < d.start
      · rcases fills i after outside with white | ⟨e, among, early, inside⟩
        · exact .inl white
        · exact .inr ⟨e, .tail _ among, by omega, inside⟩
      · by_cases within : (i : Int) < d.stop
        · exact .inr ⟨d, .head _, before, by omega, within⟩
        · exact .inl (blank i (by omega) short)
  · rintro ⟨rfl | member, ends, fills⟩
    · exact .inl rfl
    · refine .inr ⟨member, far c member, fun i after short => ?_⟩
      rcases fills i after (by omega) with white | ⟨e, among, early, inside⟩
      · exact .inl white
      · rcases List.mem_cons.mp among with rfl | among
        · omega
        · exact .inr ⟨e, among, far e among, inside⟩

theorem not_leadsTo_of_gap (falling : Comment.Falling (d :: comments)) (proper : d.start < d.stop)
    (gap : ¬ ∀ i : Nat, d.stop ≤ i → (i : Int) < offset → Text.IsBlankAt text i)
    (member : c ∈ d :: comments) : ¬ c.LeadsTo text (d :: comments) offset := by
  obtain ⟨far, -⟩ := List.pairwise_cons.mp falling
  -- No comment of the list reaches beyond `d`, so none covers a character of the gap.
  have early (e : Comment) (among : e ∈ d :: comments) : e.stop ≤ d.stop := by
    rcases List.mem_cons.mp among with rfl | among
    · exact le_refl _
    · have := far e among
      omega
  rintro ⟨-, fills⟩
  refine gap fun i after short => ?_
  rcases fills i ((early c member).trans after) short with white | ⟨e, among, -, -, inside⟩
  · exact white
  · have := early e among
    omega

/-- The scan finds the comments that lead to its offset, and no others. -/
theorem mem_runBefore_iff (falling : Comment.Falling comments)
    (within : ∀ c ∈ comments, c.Within text.length) (high : offset ≤ text.length) :
    c ∈ runBefore text offset comments ↔ c ∈ comments ∧ c.LeadsTo text comments offset := by
  fun_induction runBefore text offset comments with
  | case1 => simp
  | case2 offset d rest later ih =>
    rw [← mem_skip later]
    exact ih falling.of_cons (fun e among => within e (.tail _ among)) high
  | case3 offset d rest before blank ih =>
    obtain ⟨nonneg, proper, inside⟩ := within d (.head _)
    rw [allBlank_slice_iff (by omega) (by omega) high] at blank
    rw [List.mem_cons, ← mem_take falling proper (by omega) blank]
    exact or_congr_right
      (ih falling.of_cons (fun e among => within e (.tail _ among)) (by omega))
  | case4 offset d rest before gap =>
    obtain ⟨nonneg, proper, inside⟩ := within d (.head _)
    rw [allBlank_slice_iff (by omega) (by omega) high] at gap
    refine ⟨fun never => absurd never List.not_mem_nil, fun ⟨member, leads⟩ => ?_⟩
    exact absurd leads (not_leadsTo_of_gap falling proper gap member)

theorem runBefore_outcome {listed : List Comment} (apart : listed.Pairwise Comment.Apart)
    (within : ∀ c ∈ listed, c.Within text.length) (high : offset ≤ text.length) :
    let found := runBefore text offset (listed.mergeSort fun a b => a.start ≤ b.start).reverse
    Comment.Falling found ∧ ∀ c, c ∈ found ↔ c ∈ listed ∧ c.LeadsTo text listed offset := by
  have falling := Comment.falling_reverse_mergeSort apart within
  have same (d : Comment) :
      d ∈ (listed.mergeSort fun a b => a.start ≤ b.start).reverse ↔ d ∈ listed := by
    rw [List.mem_reverse, List.mem_mergeSort]
  refine ⟨falling.sublist (runBefore_sublist _ _ _), fun c => ?_⟩
  rw [mem_runBefore_iff falling (fun d among => within d ((same d).mp among)) high, same,
    Comment.leadsTo_congr same]

theorem commentsBefore_of_start {source : SourceCode} {n : Node} {start : Ordinal}
    (placed : n.start = .ok (some start)) (high : start.value ≤ source.text.length) :
    source.commentsBefore n = .ok (runBefore source.text start.value source.comments.reverse) := by
  rw [commentsBefore, placed]
  exact if_neg (not_lt.mpr high)

/-- For comments that were listed in any order, have characters inside the text and share none: the
comments before a node that starts inside the text, or at its end, are, the nearest first, those
with nothing but white space and other comments between them and the node; and there is a doc comment
for a node if one of those before the statement it documents is a block comment whose text begins
with a star. -/
theorem commentsBefore_outcome [Host] (text : List Char) (root : Node) {listed : List Comment}
    (apart : listed.Pairwise Comment.Apart) (within : ∀ c ∈ listed, c.Within text.length) :
    let source := ofComments text root listed
    (Comment.ofRoot root = .ok listed → ofTree text root = .ok source) ∧
    (∀ (n : Node) (start : Ordinal), n.start = .ok (some start) → start.value ≤ text.length →
      ∃ found, source.commentsBefore n = .ok found ∧ Comment.Falling found ∧
        ∀ c, c ∈ found ↔ c ∈ listed ∧ c.LeadsTo text listed start.value) ∧
    ∀ (node : Cursor) (start : Ordinal),
      (Shape.documentedStatement node).node.start = .ok (some start) →
      start.value ≤ text.length →
      ∃ documented, Shape.hasDoc source node = .ok documented ∧
        (documented = true ↔ ∃ c ∈ listed, c.kind = "Block" ∧ c.text.toList.head? = some '*' ∧
          c.LeadsTo text listed start.value) := by
  intro source
  refine ⟨fun lists => by rw [ofTree_eq, lists]; rfl, ?_, ?_⟩
  · intro n start placed high
    exact ⟨_, commentsBefore_of_start placed high, runBefore_outcome apart within high⟩
  · intro node start placed high
    refine ⟨_, by rw [Shape.hasDoc, commentsBefore_of_start placed high]; rfl, ?_⟩
    obtain ⟨-, found⟩ := runBefore_outcome apart within high
    rw [List.any_eq_true]
    simp only [source, ofComments, found, Comment.isDoc, Bool.and_eq_true, beq_iff_eq]
    refine exists_congr fun c => ?_
    tauto

attribute [local instance] Host.usual in
/-- A doc comment and a block comment stand before a function, which holds one more. They are listed
with the last one first. -/
theorem commentsBefore_outcome_backwards :
    let doc : Comment := ⟨"Block", "*a", 0, 6⟩
    let block : Comment := ⟨"Block", "b", 7, 12⟩
    let within : Comment := ⟨"Block", "", 14, 18⟩
    let listed := [within, block, doc]
    let text := "/**a*/ /*b*/ f/**/".toList
    let root : Node := ⟨"Program", []⟩
    let function : Cursor :=
      (Cursor.ofRoot root).descend "body" [0] ⟨"FunctionDeclaration", [("start", .value (.int 13))]⟩
    listed.Pairwise Comment.Apart ∧ (∀ c ∈ listed, c.Within text.length) ∧
      (∃ found, (ofComments text root listed).commentsBefore function.node = .ok found ∧
        doc ∈ found ∧ within ∉ found) ∧
      Shape.hasDoc (ofComments text root listed) function = .ok true := by
  intro doc block within listed text root function
  have apart : listed.Pairwise Comment.Apart := by
    simp [listed, Comment.Apart, doc, block, within]
  have proper : ∀ c ∈ listed, c.Within text.length := by
    intro c member
    rcases List.mem_cons.mp member with rfl | member
    · exact ⟨by decide, by decide, by decide⟩
    rcases List.mem_cons.mp member with rfl | member
    · exact ⟨by decide, by decide, by decide⟩
    rcases List.mem_singleton.mp member
    exact ⟨by decide, by decide, by decide⟩
  have leads : doc.LeadsTo text listed 13 := by
    refine ⟨by decide, fun i after before => ?_⟩
    have place : i = 6 ∨ i = 12 ∨ 7 ≤ i ∧ i < 12 := by
      change (6 : Int) ≤ i at after
      omega
    rcases place with rfl | rfl | ⟨low, high⟩
    · exact .inl ⟨' ', by decide, by decide⟩
    · exact .inl ⟨' ', by decide, by decide⟩
    · refine .inr ⟨block, by simp [listed], by decide, ?_, ?_⟩
      · exact Int.ofNat_le.mpr low
      · exact Int.ofNat_lt.mpr high
  obtain ⟨-, runs, documents⟩ := commentsBefore_outcome text root apart proper
  obtain ⟨found, read, -, member⟩ := runs function.node (.int 13) rfl (by decide)
  obtain ⟨documented, told, iff⟩ := documents function (.int 13) rfl (by decide)
  have first : doc ∈ found := (member doc).mpr ⟨by simp [listed], leads⟩
  refine ⟨apart, proper, ⟨found, read, first, fun last => ?_⟩, ?_⟩
  · exact absurd ((member within).mp last).2.1 (by decide)
  · rw [told, iff.mpr ⟨doc, by simp [listed], rfl, by decide, leads⟩]

end SourceCode

end TreeLint
