import TreeLint.Proofs.DeclarationRules
import TreeLint.Proofs.ElementRules
import TreeLint.Proofs.RedundantFragments
import TreeLint.Proofs.Serialized

/-! Runs that come to their end. On a tree of the shape that the grammars give it, whose texts can
be written, the comments are read, every enabled rule sets to work, and all of them see the whole
walk without a fault. -/

namespace TreeLint

namespace Registry
open Rules

/-- All rules come to their end. -/
theorem standard_total [Host] : ∀ rule ∈ standard.rules, rule.Total := by
  rw [standard_rules]
  simp only [allRules, List.forall_mem_cons, List.not_mem_nil, false_implies, implies_true,
    and_true]
  exact ⟨Typography.rule_total, DirectColor.rule_total, ConstantName.rule_total,
    Interaction.rule_total, FileName.rule_total, TypeName.rule_total, DefaultExport.rule_total,
    InlineArrow.rule_total, MemberOrder.rule_total, ImportPath.rule_total,
    NestedComponent.rule_total, DocComment.ruleFor_total _ _ _, DocComment.ruleFor_total _ _ _,
    DocComment.ruleFor_total _ _ _, ClassName.utilityRule_total,
    ClassName.blankRule_total _ rfl (by decide), ClassName.blankRule_total _ rfl (by decide),
    CurlyText.rule_total, Fragment.rule_total⟩

end Registry

namespace Comment

variable {members : Members}

theorem gives_span? (whole : ∀ first second,
      members.lookup "range" = some (.list [first, second]) →
        ∃ a b, first = .int a ∧ second = .int b) :
    Gives (fun _ => True) (span? members) := by
  unfold span?
  split
  · rename_i first second pair
    obtain ⟨a, b, rfl, rfl⟩ := whole first second pair
    exact gives_ok trivial
  · split
    · exact gives_ok trivial
    · exact gives_ok trivial

variable [Host]

theorem gives_textOf {key : String}
    (within : ∀ v, members.lookup key = some v → v.Within Host.commentLevels) :
    Gives (fun _ => True) (textOf members key) := by
  unfold textOf
  split
  · rename_i v held
    exact Value.gives_shownPlain (within v held)
  · exact gives_ok trivial

theorem gives_ofMembers? (whole : ∀ first second,
      members.lookup "range" = some (.list [first, second]) →
        ∃ a b, first = .int a ∧ second = .int b)
    (within : ∀ key ∈ ["type", "value"], ∀ v, members.lookup key = some v →
      v.Within Host.commentLevels) :
    Gives (fun _ => True) (ofMembers? members) := by
  refine gives_bind (gives_span? whole) fun span _ => ?_
  cases span with
  | none => exact gives_ok trivial
  | some span =>
    refine gives_bind (gives_textOf (within "type" (by decide))) fun kind _ => ?_
    exact gives_bind (gives_textOf (within "value" (by decide))) fun _ _ => gives_ok trivial

theorem gives_ofItems {items : List Value}
    (each : ∀ members, .object members ∈ items → Gives (fun _ => True) (ofMembers? members)) :
    Gives (fun _ => True) (ofItems items) := by
  induction items with
  | nil => exact gives_ok trivial
  | cons item rest ih =>
    have others := ih fun members later => each members (.tail _ later)
    cases item with
    | object members =>
      refine gives_bind (each members List.mem_cons_self) fun _ _ => ?_
      exact gives_bind others fun _ _ => gives_ok trivial
    | _ => exact others

theorem gives_ofRoot {root : Node} (shaped : root.CommentsShaped) (within : root.CommentsWithin) :
    Gives (fun _ => True) (ofRoot root) := by
  obtain empty | ⟨items, held, whole⟩ := shaped
  · unfold ofRoot
    rw [empty]
    exact gives_ok trivial
  · have read : Gives (fun _ => True) (ofItems items) := gives_ofItems fun members member =>
      gives_ofMembers? (whole members member) (within items held members member)
    unfold ofRoot
    rw [held]
    dsimp only [Value.itemsOrNone]
    split
    · exact read
    · exact gives_ok trivial

end Comment

theorem SourceCode.gives_ofTree [Host] (text : List Char) {root : Node} (shaped : root.CommentsShaped)
    (within : root.CommentsWithin) :
    Gives (fun source => source.root = root) (SourceCode.ofTree text root) :=
  gives_bind (Comment.gives_ofRoot shaped within) fun _ _ => gives_ok rfl

namespace Watcher

theorem hears_total {cursor : Cursor} {listeners : List Listener}
    (each : ∀ listener ∈ listeners, ∀ memory, (listener (some cursor) memory).Completes)
    (memory : Memory) : ∃ reports after, Hears cursor listeners memory reports after := by
  induction listeners generalizing memory with
  | nil => exact ⟨[], memory, .none memory⟩
  | cons listener rest ih =>
    obtain ⟨here, others⟩ := List.forall_mem_cons.mp each
    obtain ⟨reports, between, heard⟩ := here memory
    obtain ⟨more, after, hears⟩ := ih others between
    exact ⟨reports ++ more, after, .next heard hears⟩

variable [Host]

theorem sees_total {visit : Visit} (sound : visit.cursor.Sound) {watchers : List Watcher}
    (total : ∀ watcher ∈ watchers, watcher.listeners.Total) :
    ∃ reports after, Sees visit watchers reports after := by
  induction watchers with
  | nil => exact ⟨[], [], .none⟩
  | cons watcher rest ih =>
    obtain ⟨listeners, memory⟩ := watcher
    obtain ⟨here, others⟩ := List.forall_mem_cons.mp total
    have each : ∀ listener ∈ listeners.awaiting visit.selector, ∀ memory,
        (listener (some visit.cursor) memory).Completes := by
      intro listener awaits
      obtain ⟨entry, chosen, rfl⟩ := List.mem_map.mp awaits
      obtain ⟨listed, same⟩ := List.mem_filter.mp chosen
      obtain same : entry.1 = visit.selector := by simpa using same
      exact here entry listed visit.cursor sound (by rw [same]; rfl)
    obtain ⟨reports, after, hears⟩ := hears_total each memory
    obtain ⟨more, rest', sees⟩ := ih others
    exact ⟨reports ++ more, ⟨listeners, after⟩ :: rest', .next hears sees⟩

theorem total_of_sees {visit : Visit} {before after : List Watcher} {reports : List Violation}
    (sees : Sees visit before reports after)
    (total : ∀ watcher ∈ before, watcher.listeners.Total) :
    ∀ watcher ∈ after, watcher.listeners.Total := by
  have every : ∀ listeners ∈ after.map (·.listeners), listeners.Total := by
    rw [sees.listeners_eq]
    exact List.forall_mem_map.mpr total
  exact List.forall_mem_map.mp every

/-- Rules with total listeners see any visits of sound cursors to their end. -/
theorem follows_total {visits : List Visit} (sound : ∀ visit ∈ visits, visit.cursor.Sound)
    {watchers : List Watcher} (total : ∀ watcher ∈ watchers, watcher.listeners.Total) :
    ∃ reports after, Follows visits watchers reports after := by
  induction visits generalizing watchers with
  | nil => exact ⟨[], watchers, .none watchers⟩
  | cons visit rest ih =>
    obtain ⟨here, others⟩ := List.forall_mem_cons.mp sound
    obtain ⟨reports, between, sees⟩ := sees_total here total
    obtain ⟨more, after, follows⟩ := ih others (total_of_sees sees total)
    exact ⟨reports ++ more, after, .next sees follows⟩

end Watcher

/-- The path patterns among the options of the rules that run are understood. -/
def Configuration.Understood [Host] (config : Configuration) : Prop :=
  ∀ entry ∈ config.enabledRules, ∀ option, entry.2.options.head? = some option →
    ∀ key ∈ ["ignore", "folders"], ∀ items, option.member? key = some (.list items) →
      PathFilter.kept items ≠ [] → ∃ test, Host.pathSpec (PathFilter.kept items) = .ok test

namespace Lint

section

variable [Host] {file : ParsedFile} {cwd : Option String} {config : Configuration}

theorem exists_atWork {rules : List (Rule × RuleSetting)}
    (each : ∀ entry ∈ rules, entry.1.Total ∧ (contextFor file cwd entry.1 entry.2).Ready) :
    ∃ watchers, List.Forall₂ (AtWork file cwd) rules watchers ∧
      ∀ watcher ∈ watchers, watcher.listeners.Total := by
  induction rules with
  | nil => exact ⟨[], .nil, List.forall_mem_nil _⟩
  | cons entry rest ih =>
    obtain ⟨⟨total, ready⟩, others⟩ := List.forall_mem_cons.mp each
    obtain ⟨watchers, atWork, totals⟩ := ih others
    obtain ⟨listeners, made, finish⟩ := total _ rfl ready
    exact ⟨⟨listeners, []⟩ :: watchers, .cons ⟨made, rfl⟩ atWork,
      List.forall_mem_cons.mpr ⟨finish, totals⟩⟩

theorem ready_of_enabled {table : Members} (made : Configuration.ofTable table = .ok config)
    (understood : config.Understood) {name : String} (named : file.filename = some name)
    {rule : Rule} {setting : RuleSetting} (enabled : (rule, setting) ∈ config.enabledRules) :
    (contextFor file cwd rule setting).Ready where
  host := rfl
  named := ⟨name, named⟩
  takes := Configuration.takes_of_enabled made enabled
  understands := by
    intro key known items found
    obtain ⟨option, first, held⟩ := Option.bind_eq_some_iff.mp found
    exact understood _ enabled option first key known items held

/-- A run comes to its end if the tree has the shape that the grammars give it and there is room to
write its texts. -/
theorem run_of_shaped {table : Members} (made : Configuration.ofTable table = .ok config)
    (understood : config.Understood) {root : Node}
    (shaped : root.toTree.Everywhere Node.Shaped) (texts : root.toTree.Everywhere Node.TextWithin)
    (comments : root.CommentsShaped) (within : root.CommentsWithin) (name : String)
    (text : List Char) (path : Option String) (cwd : Option String) :
    ∃ source result, SourceCode.ofTree text root = .ok source ∧
      run config ⟨some name, source, path⟩ cwd = .ok result := by
  obtain ⟨source, read, rfl⟩ := SourceCode.gives_ofTree text comments within
  have top : (Cursor.ofRoot source.root).Sound := ⟨shaped.and texts, List.forall_mem_nil _⟩
  have sound : ∀ visit ∈ (Cursor.ofRoot source.root).visits, visit.cursor.Sound := by
    intro visit visited
    exact top.below ((Cursor.mem_visits_iff _ visit).mp visited)
  have ready : ∀ entry ∈ config.enabledRules,
      entry.1.Total ∧ (contextFor ⟨some name, source, path⟩ cwd entry.1 entry.2).Ready := by
    intro entry enabled
    have known := config.known_of_enabled _ enabled
    exact ⟨Registry.standard_total _ known, ready_of_enabled made understood rfl enabled⟩
  obtain ⟨watchers, atWork, total⟩ := exists_atWork ready
  obtain ⟨emitted, after, follows⟩ := Watcher.follows_total sound total
  have sorted := Violation.stableSort_byPlace emitted
  exact ⟨source, ⟨some name, _, none, 0⟩, read, (run_ok_iff ..).mpr
    ⟨emitted, ⟨watchers, after, atWork, follows⟩, sorted, rfl, rfl, rfl⟩⟩

/-- Runs come to their end on trees of the right shape that meet some condition. -/
def EndsWhen (condition : Node → Prop) : Prop :=
  ∀ (table : Members) (config : Configuration) (root : Node) (name : String) (text : List Char)
    (path cwd : Option String), Configuration.ofTable table = .ok config → config.Understood →
    root.toTree.Everywhere Node.Shaped → root.CommentsShaped → condition root →
    ∃ source result, SourceCode.ofTree text root = .ok source ∧
      run config ⟨some name, source, path⟩ cwd = .ok result

end

/-- A fragment around texts, with comments before it. -/
def wrapped (texts comments : List Value) : Node :=
  ⟨"JSXFragment",
   [("children", .list (texts.map fun text => .node "JSXText" [("value", .value text)])),
    ("comments", .value (.list (comments.map fun comment => .object [("type", .str "Line"),
      ("value", comment), ("range", .list [.int 0, .int 3])])))]⟩

def fragmentsTable (options : List Value) : Members :=
  [("extends", .list []),
    ("rules", .object [("no-unnecessary-fragment", .list (.str "warn" :: options))])]

def fragmentsOnly (options : List Value) : Configuration :=
  ⟨fragmentsTable options, [("no-unnecessary-fragment", ⟨.warn, options⟩)]⟩

theorem fragmentsOnly_enabled (options : List Value) :
    (fragmentsOnly options).enabledRules = [(Rules.Fragment.rule, ⟨.warn, options⟩)] := by rfl

def exceptTests : List Value := [.object [("ignore", .list [.str "*.test.tsx"])]]

section

attribute [local instance] Host.usual

theorem exceptTests_made :
    Configuration.ofTable (fragmentsTable exceptTests) = .ok (fragmentsOnly exceptTests) := by
  with_unfolding_all rfl

theorem exceptTests_understood : (fragmentsOnly exceptTests).Understood := by
  intro entry enabled option first key known items held _
  rw [fragmentsOnly_enabled] at enabled
  cases List.mem_singleton.mp enabled
  cases first
  rcases List.mem_pair.mp known with rfl | rfl
  · cases held
    have reads : (PathSpec.versionControl ["*.test.tsx"]).toOption.isSome = true := by
      decide +kernel
    exact exists_ok_of_isSome reads
  · cases held

end

theorem wrapped_everywhere {P : Node → Prop} {texts comments : List Value}
    (outer : P (wrapped texts comments))
    (inner : ∀ text ∈ texts, P ⟨"JSXText", [("value", .value text)]⟩) :
    (wrapped texts comments).toTree.Everywhere P := by
  have inside : (Tree.list (texts.map fun text =>
      .node "JSXText" [("value", .value text)])).Everywhere P := by
    refine .list (List.forall_mem_map.mpr fun text member => ?_)
    exact .of_fields (inner text member) (List.forall_mem_singleton.mpr (.value text))
  exact .of_fields outer (List.forall_mem_cons.mpr
    ⟨inside, List.forall_mem_singleton.mpr (.value _)⟩)

theorem wrapped_shaped (texts comments : List Value) :
    (wrapped texts comments).toTree.Everywhere Node.Shaped := by
  refine wrapped_everywhere (Node.shaped_of_absent ?_ ?_ ?_)
    fun text _ => Node.shaped_of_absent ?_ ?_ ?_
  · intro key known
    obtain rfl : key = "children" := by simpa [wrapped, Node.listFields] using known
    exact .inr ⟨_, rfl, List.forall_mem_map.mpr fun text _ => ⟨⟨"JSXText", _⟩, rfl⟩⟩
  · simp [wrapped, Node.nodeFields]
  · simp [Node.bodyFields, Node.namingFields, wrapped, Node.get, List.lookup_cons]
  · simp [Node.listFields]
  · simp [Node.nodeFields]
  · simp [Node.bodyFields, Node.namingFields, Node.get, List.lookup_cons]

theorem wrapped_comments (texts comments : List Value) :
    (wrapped texts comments).CommentsShaped := by
  refine .inr ⟨_, rfl, fun members member first second held => ?_⟩
  obtain ⟨comment, -, same⟩ := List.mem_map.mp member
  cases same
  cases held
  exact ⟨0, 3, rfl, rfl⟩

section

variable [Host]

theorem wrapped_texts {texts : List Value} (comments : List Value)
    (within : ∀ text ∈ texts, text.Within Host.textLevels) :
    (wrapped texts comments).toTree.Everywhere Node.TextWithin := by
  refine wrapped_everywhere (fun other => ?_) fun text member _ => .value (within text member)
  simp [wrapped] at other

theorem wrapped_within (texts : List Value) {comments : List Value}
    (within : ∀ v ∈ .str "Line" :: comments, v.Within Host.commentLevels) :
    (wrapped texts comments).CommentsWithin := by
  intro items listed members member key known v held
  cases listed
  obtain ⟨comment, among, same⟩ := List.mem_map.mp member
  cases same
  rcases List.mem_pair.mp known with rfl | rfl
  · cases held
    exact within _ List.mem_cons_self
  · cases held
    exact within _ (.tail _ among)

end

attribute [local instance] Host.usual in
theorem run_of_shaped_wrapped :
    Configuration.ofTable (fragmentsTable exceptTests) = .ok (fragmentsOnly exceptTests) ∧
    (fragmentsOnly exceptTests).Understood ∧
    ∃ source result,
      SourceCode.ofTree "//a\n<>a</>".toList (wrapped [.str "a"] [.str "a"]) = .ok source ∧
      run (fragmentsOnly exceptTests) ⟨some "a.tsx", source, none⟩ none = .ok result := by
  have short (s : String) : (Value.str s).Within 980 := .str 979 s
  exact ⟨exceptTests_made, exceptTests_understood,
    run_of_shaped exceptTests_made exceptTests_understood (wrapped_shaped _ _)
      (wrapped_texts _ (List.forall_mem_singleton.mpr (short "a")))
      (wrapped_comments _ _) (wrapped_within _ (List.forall_mem_cons.mpr
        ⟨short "Line", List.forall_mem_singleton.mpr (short "a")⟩))
      "a.tsx" _ none none⟩

def tower : Nat → Value
  | 0 => .null
  | height + 1 => .object [("a", tower height)]

theorem tower_tall {levels height : Nat} (room : levels ≤ height) :
    (tower height).checkWritable levels = .error .tooDeep := by
  induction levels generalizing height with
  | zero => cases height <;> rfl
  | succ levels ih =>
    obtain ⟨height, rfl⟩ := Nat.exists_eq_add_of_le' room
    rw [← Nat.add_assoc, tower, Value.checkWritable, Value.checkMembers, ih (Nat.le_add_left ..)]
    rfl

section

variable [Host]

theorem fragmentsOnly_made :
    Configuration.ofTable (fragmentsTable []) = .ok (fragmentsOnly []) := by
  with_unfolding_all rfl

theorem fragmentsOnly_understood : (fragmentsOnly []).Understood := by
  intro entry enabled option first
  rw [fragmentsOnly_enabled] at enabled
  cases List.mem_singleton.mp enabled
  cases first

/-- A fragment whose first text is too high to be shown cannot be judged. -/
theorem wrapsSingleChild_of_tall {text : Value} (texts comments : List Value)
    (truthy : text.isTruthy = true)
    (tall : text.checkWritable Host.textLevels = .error .tooDeep) :
    Shape.wrapsSingleChild ‹Host› (wrapped (text :: texts) comments) = .error .tooDeep := by
  have shown : (Tree.value text).plain ‹Host› Host.textLevels = .error .tooDeep := by
    rw [Tree.plain, Value.shownPlain, tall]
    rfl
  have first : Shape.isMeaningful ‹Host› ⟨"JSXText", [("value", .value text)]⟩ =
      .error .tooDeep := by
    simp [Shape.isMeaningful, Node.get, Tree.isTruthy, truthy, shown, Bind.bind, Except.bind]
  have stops : Shape.meaningfulChildren ‹Host› (wrapped (text :: texts) comments) =
      .error .tooDeep := by
    change Shape.meaningful ‹Host› (.node "JSXText" [("value", .value text)] :: _) = _
    rw [Shape.meaningful]
    change (Shape.isMeaningful ‹Host› ⟨"JSXText", [("value", .value text)]⟩ >>= _) = _
    rw [first]
    rfl
  rw [Shape.wrapsSingleChild, stops]
  rfl

theorem report_of_tall {context : RuleContext} (host : context.host = ‹Host›) {text : Value}
    (texts comments : List Value) (truthy : text.isTruthy = true)
    (tall : text.checkWritable Host.textLevels = .error .tooDeep) :
    ((Rules.Fragment.looks context).report
      (Cursor.ofRoot (wrapped (text :: texts) comments))).result = .error .tooDeep := by
  have judged := wrapsSingleChild_of_tall texts comments truthy tall
  rw [← host] at judged
  have known : (Cursor.ofRoot (wrapped (text :: texts) comments)).node.type = "JSXFragment" := rfl
  rw [Looks.report, known]
  change (Rules.Fragment.checkFragment context _).result = _
  rw [Rules.Fragment.checkFragment]
  change ((liftM (Shape.wrapsSingleChild context.host (wrapped (text :: texts) comments)) :
    Reporting Bool) >>= _).result = _
  rw [judged]
  rfl

theorem run_of_tall_text {source : SourceCode} {text : Value} {texts comments : List Value}
    (root : source.root = wrapped (text :: texts) comments) (truthy : text.isTruthy = true)
    (tall : text.checkWritable Host.textLevels = .error .tooDeep) (result : LintResult) :
    run (fragmentsOnly []) ⟨some "a.tsx", source, none⟩ none ≠ .ok result := by
  intro ran
  obtain ⟨emitted, emits, -⟩ := (run_ok_iff ..).mp ran
  have enabled : (Rules.Fragment.rule, ⟨.warn, []⟩) ∈ (fragmentsOnly []).enabledRules := by
    rw [fragmentsOnly_enabled]
    exact List.mem_singleton_self _
  obtain ⟨-, each⟩ := reports_of_looks (Rules.Fragment.looks_distinct _) enabled
    (Rules.Fragment.listeners_of_heeded rfl) emits
  have looked := each (Cursor.ofRoot source.root) .refl
  rw [root, report_of_tall rfl texts comments truthy tall] at looked
  cases looked

theorem ofTree_of_tall_comment {text : List Char} {source : SourceCode} {comment : Value}
    {texts comments : List Value}
    (tall : comment.checkWritable Host.commentLevels = .error .tooDeep) :
    SourceCode.ofTree text (wrapped texts (comment :: comments)) ≠ .ok source := by
  intro made
  obtain ⟨read, found, -⟩ := bind_ok_iff.mp made
  have listing := (Comment.ofRoot_ok_iff rfl).mp ⟨read, found⟩
  cases listing with
  | none falsy => cases falsy
  | list each =>
    have legible := each _ List.mem_cons_self
    have shown := legible.shown (.inl ⟨.int 0, .int 3, rfl⟩) "value" (by simp) comment rfl
    rw [Value.showable_iff, tall] at shown
    cases shown

end

/-- However much room there is, the shape alone does not bring a run to its end: the text of an
element or of a comment may be too high to be written, and neither condition stands in for the
other. -/
theorem run_stops :
    (¬ ∃ _ : Host, EndsWhen fun _ => True) ∧ (¬ ∃ _ : Host, EndsWhen Node.CommentsWithin) ∧
      ¬ ∃ _ : Host, EndsWhen fun root => root.toTree.Everywhere Node.TextWithin := by
  have text (host : Host) (condition : Node → Prop)
      (holds : condition (wrapped [tower (Host.textLevels + 1)] [])) : ¬ EndsWhen condition := by
    intro ends
    obtain ⟨source, result, read, ran⟩ := ends _ _ _ "a.tsx" [] none none fragmentsOnly_made
      fragmentsOnly_understood (wrapped_shaped _ _) (wrapped_comments _ _) holds
    obtain ⟨_, -, made⟩ := bind_ok_iff.mp read
    cases made
    exact run_of_tall_text rfl rfl (tower_tall (Nat.le_add_right ..)) result ran
  have comment (host : Host) (condition : Node → Prop)
      (holds : condition (wrapped [] [tower Host.commentLevels])) : ¬ EndsWhen condition := by
    intro ends
    obtain ⟨source, -, read, -⟩ := ends _ _ _ "a.tsx" [] none none fragmentsOnly_made
      fragmentsOnly_understood (wrapped_shaped _ _) (wrapped_comments _ _) holds
    exact ofTree_of_tall_comment (tower_tall (Nat.le_refl _)) read
  refine ⟨?_, ?_, ?_⟩
  · rintro ⟨host, ends⟩
    exact text host _ trivial ends
  · rintro ⟨host, ends⟩
    refine text host _ (fun items listed members member => ?_) ends
    cases listed
    cases member
  · rintro ⟨host, ends⟩
    exact comment host _ (wrapped_texts _ (List.forall_mem_nil _)) ends

end Lint

end TreeLint
