import TreeLint.Proofs.RuleCompletion

/-! Rules on files, imports, exports and declarations come to their end. What they ask of
statements, of the names that they declare and of the members of types has an answer wherever the
tree has the right shape. -/

namespace TreeLint

variable [Host]

namespace Rules
open Reporting RuleContext Shape
open TreeLint.Tree (gives_at)

variable {context : RuleContext} {c : Cursor}

namespace FileName

omit [Host] in
theorem gives_endsInSome (name : String) {items : List Value}
    (texts : ∀ item ∈ items, ∃ text, item = .str text) :
    Gives (fun _ => True) (endsInSome name items) := by
  induction items with
  | nil => exact gives_ok trivial
  | cons item rest ih =>
    obtain ⟨⟨text, rfl⟩, others⟩ := List.forall_mem_cons.mp texts
    unfold endsInSome
    split
    · exact gives_ok trivial
    · exact ih others

theorem checkName_totalAt (same : context.info = info) (type name : String) :
    (checkName context name).TotalAt type := by
  intro c _ _ memory
  have placed : Gives (fun _ => True) (context.locate (.place (.int 1) (.int 0))) :=
    gives_ok trivial
  unfold checkName
  split
  · exact completes_bind (report_completes placed (by rw [same]; rfl) _ _) fun _ =>
      completes_pure memory
  · exact completes_pure memory

theorem gives_listeners (same : context.info = info) (ready : context.Ready) :
    Gives Listeners.Total (listeners context) := by
  have idle : Gives Listeners.Total (.ok []) := gives_ok (List.forall_mem_nil _)
  have extensions := gives_optionItems ready (by rw [same]; rfl) "extensions"
    (by decide) usualExtensions
  obtain ⟨filename, named⟩ := ready.named
  refine gives_bind extensions fun items texts => ?_
  simp only [named]
  split
  · exact idle
  · refine gives_bind (gives_endsInSome _ texts) fun chosen _ => ?_
    split
    · exact idle
    · refine gives_ok (List.forall_mem_singleton.mpr ?_)
      dsimp only
      exact checkName_totalAt same _ _

theorem rule_total : rule.Total :=
  Rule.total_of_form rfl rfl (fun _ _ _ => gives_ok trivial) fun _ => gives_listeners

end FileName

namespace ImportPath

omit [Host] in
theorem gives_startsWithSome (path : String) {items : List Value}
    (texts : ∀ item ∈ items, ∃ text, item = .str text) :
    Gives (fun _ => True) (startsWithSome path items) := by
  induction items with
  | nil => exact gives_ok trivial
  | cons item rest ih =>
    obtain ⟨⟨text, rfl⟩, others⟩ := List.forall_mem_cons.mp texts
    unfold startsWithSome
    split
    · exact gives_ok trivial
    · exact ih others

theorem checkImport_completes (same : context.info = info) {aliases : List Value}
    (texts : ∀ item ∈ aliases, ∃ text, item = .str text) (ignored : PathFilter) (sound : c.Sound)
    (isImport : c.node.type = "ImportDeclaration") :
    (checkImport context aliases ignored c).Completes := by
  have place : (c.node.get "source").Place := sound.node.place (by rw [isImport]; decide)
  refine completes_at place (completes_pure ()) fun source below => ?_
  dsimp only
  split
  · exact completes_pure ()
  · rename_i path _
    split
    · exact completes_pure ()
    · refine completes_lift_bind (gives_startsWithSome path texts) fun aliased _ => ?_
      split
      · exact completes_pure ()
      · exact reportAt_completes below (by rw [same]; rfl) _

theorem rule_total : rule.Total := by
  refine Rule.total_of_form rfl rfl (fun _ _ _ => gives_ok trivial)
    fun context same ready => ?_
  have aliases := gives_optionItems ready (by rw [same]; rfl) "aliases" (by decide) ["@"]
  refine gives_bind aliases fun items texts => ?_
  refine gives_bind (gives_ignorePatterns ready (by rw [same]; rfl)) fun patterns understood => ?_
  refine gives_bind (gives_ofPatterns understood none) fun ignored _ => ?_
  exact gives_ok (List.forall_mem_singleton.mpr
    (Listener.stateless_totalAt fun c => checkImport_completes same texts ignored))

end ImportPath

namespace DefaultExport

theorem rule_total : rule.Total := by
  refine Rule.total_of_table rfl rfl (fun _ _ _ => gives_ok trivial) fun context same => ?_
  refine List.forall_mem_singleton.mpr fun c sound _ memory => ?_
  have placed : Gives (fun _ => True) (context.locate (.node c.node)) :=
    context.source.gives_nodeLocation sound.node
  exact completes_bind (report_completes placed (by rw [same]; rfl) _ _) fun _ =>
    completes_pure memory

end DefaultExport

namespace ConstantName

theorem gives_concerns (ready : context.Ready) : Gives (fun _ => True) (concerns context) :=
  gives_bind (gives_name ready) fun _ _ => gives_ok trivial

theorem checkDeclarator_completes (same : context.info = info) {declarator : Node}
    (sound : declarator.Sound) : (checkDeclarator context declarator.toTree).Completes := by
  refine completes_node ?_
  have init : (declarator.get "init").Place := sound.naming (by decide)
  have id : (declarator.get "id").Place := sound.naming (by decide)
  refine completes_lift_bind (gives_isFunctionValue init) fun function _ => ?_
  split
  · exact completes_pure ()
  · refine completes_at id (completes_pure ()) fun binding below => ?_
    dsimp only
    split
    · exact completes_pure ()
    · split
      · exact reportAt_completes below (by rw [same]; rfl) _
      · exact completes_pure ()

theorem checkDeclarators_completes (same : context.info = info) {items : List Tree}
    (nodes : Tree.Nodes items) : (checkDeclarators context items).Completes := by
  induction items with
  | nil => exact completes_pure ()
  | cons item rest ih =>
    obtain ⟨⟨declarator, rfl, sound⟩, others⟩ := List.forall_mem_cons.mp nodes
    exact completes_bind (checkDeclarator_completes same sound) fun _ => ih others

theorem checkStatement_completes (same : context.info = info) {statement : Node}
    (sound : statement.Sound) : (checkStatement context statement.toTree).Completes := by
  refine completes_node ?_
  split
  · rename_i declares
    refine completes_lift_bind (sound.gives_items "declarations" ?_)
      fun items nodes => checkDeclarators_completes same nodes
    rw [show statement.type = "VariableDeclaration" by simpa using And.left (by simpa using declares)]
    decide
  · exact completes_pure ()

theorem checkStatements_completes (same : context.info = info) {items : List Tree}
    (nodes : Tree.Nodes items) : (checkStatements context items).Completes := by
  induction items with
  | nil => exact completes_pure ()
  | cons item rest ih =>
    obtain ⟨⟨statement, rfl, sound⟩, others⟩ := List.forall_mem_cons.mp nodes
    exact completes_bind (checkStatement_completes same sound) fun _ => ih others

theorem rule_total : rule.Total := by
  refine Rule.total_of_table rfl rfl (fun _ _ => gives_concerns) fun context same => ?_
  refine List.forall_mem_singleton.mpr (Listener.stateless_totalAt fun c sound isProgram => ?_)
  refine completes_lift_bind (sound.node.gives_items "body" ?_)
    fun items nodes => checkStatements_completes same nodes
  rw [show c.node.type = "Program" from isProgram]
  decide

end ConstantName

namespace TypeName

theorem gives_concerns (ready : context.Ready) : Gives (fun _ => True) (concerns context) :=
  gives_bind (gives_name ready) fun _ _ => gives_ok trivial

theorem checkDeclaration_completes (sound : c.Sound) (mark : Char) {messageId : String}
    (known : (context.info.messages.lookup messageId).isSome = true) :
    (checkDeclaration context mark messageId c).Completes := by
  have id : (c.node.get "id").Place := sound.node.naming (by decide)
  refine completes_at id (completes_pure ()) fun id below => ?_
  dsimp only
  split
  · exact reportAt_completes below known _
  · exact completes_pure ()

theorem rule_total : rule.Total := by
  refine Rule.total_of_table rfl rfl (fun _ _ => gives_concerns) fun context same => ?_
  refine List.forall_mem_cons.mpr ⟨Listener.stateless_totalAt fun c sound _ => ?_,
    List.forall_mem_singleton.mpr (Listener.stateless_totalAt fun c sound _ => ?_)⟩
  · exact checkDeclaration_completes sound _ (by rw [same]; rfl)
  · exact checkDeclaration_completes sound _ (by rw [same]; rfl)

end TypeName

namespace MemberOrder

theorem gives_membersOf {container : Tree} (place : container.Place) :
    Gives Tree.Nodes (membersOf container) := by
  refine gives_at place (gives_ok (List.forall_mem_nil _)) fun n sound => ?_
  have nodes {key : String} (known : key ∈ Node.bodyFields) {items : List Tree}
      (held : n.get key = .list items) : Tree.Nodes items :=
    Tree.nodes_of_areNodes (held ▸ sound.get key) (sound.shaped.bodies key known items held)
  dsimp only
  split
  · rename_i held
    exact gives_ok (nodes (by decide) held)
  · rename_i held _
    exact gives_ok (nodes (by decide) held)
  · exact gives_ok (List.forall_mem_nil _)

theorem gives_namedKey? {member : Node} (sound : member.Sound) :
    Gives (fun named => ∀ key name, named = some (key, name) → key.Sound)
      (namedKey? member) := by
  have key : (member.get "key").Place := sound.naming (by decide)
  have unnamed : Gives (fun named => ∀ key name, named = some (key, name) → key.Sound)
      (.ok (none : Option (Node × String))) := gives_ok fun key name named => by cases named
  unfold namedKey?
  split
  · exact unnamed
  · refine gives_at key unnamed fun key below => ?_
    refine gives_ok fun other name named => ?_
    obtain ⟨_, -, pair⟩ := Option.map_eq_some_iff.mp named
    cases pair
    exact below

theorem checkMembers_completes (same : context.info = info) (parent : String) (optionalSeen : Bool)
    {items : List Tree} (nodes : Tree.Nodes items) :
    (checkMembers context parent optionalSeen items).Completes := by
  induction items generalizing optionalSeen with
  | nil => exact completes_pure ()
  | cons item rest ih =>
    obtain ⟨⟨member, rfl, sound⟩, others⟩ := List.forall_mem_cons.mp nodes
    unfold checkMembers
    refine completes_node ?_
    refine completes_lift_bind (gives_namedKey? sound) fun named keyed => ?_
    split
    · exact ih optionalSeen others
    · rename_i key name
      split
      · exact ih true others
      · split
        · refine completes_bind (reportAt_completes (keyed key name rfl) ?_ _) fun _ =>
            ih optionalSeen others
          rw [same]
          rfl
        · exact ih optionalSeen others

theorem gives_declaredName {n : Node} (sound : n.Sound) :
    Gives (fun _ => True) (declaredName n) := by
  have place : (n.get "id").IsNodeOrNone := sound.shaped.naming "id" (by decide)
  unfold declaredName
  obtain empty | ⟨id, held⟩ := place
  · rw [empty]
    exact gives_ok trivial
  · rw [held]
    exact gives_ok trivial

theorem checkInterface_completes (same : context.info = info) (sound : c.Sound)
    (isInterface : c.node.type = "TSInterfaceDeclaration") :
    (checkInterface context c).Completes := by
  have body : (c.node.get "body").Place := sound.node.place (by rw [isInterface]; decide)
  refine completes_lift_bind (gives_declaredName sound.node) fun parent _ => ?_
  exact completes_lift_bind (gives_membersOf body) fun items nodes =>
    checkMembers_completes same parent false nodes

theorem checkAlias_completes (same : context.info = info) (sound : c.Sound)
    (isAlias : c.node.type = "TSTypeAliasDeclaration") : (checkAlias context c).Completes := by
  have aliased : (c.node.get "typeAnnotation").Place := sound.node.place (by rw [isAlias]; decide)
  refine completes_at aliased (completes_pure ()) fun aliased below => ?_
  have place : aliased.toTree.Place := ⟨.inr ⟨aliased, rfl⟩, below⟩
  dsimp only
  split
  · exact completes_pure ()
  · refine completes_lift_bind (gives_declaredName sound.node) fun parent _ => ?_
    exact completes_lift_bind (gives_membersOf place) fun items nodes =>
      checkMembers_completes same parent false nodes

theorem rule_total : rule.Total := by
  refine Rule.total_of_table rfl rfl (fun _ _ => TypeName.gives_concerns) fun context same => ?_
  refine List.forall_mem_cons.mpr
    ⟨Listener.stateless_totalAt fun c => checkInterface_completes same,
      List.forall_mem_singleton.mpr (Listener.stateless_totalAt fun c => checkAlias_completes same)⟩

end MemberOrder

namespace NestedComponent

theorem enter_totalAt (same : context.info = info) {type : String}
    {isComponent : Cursor → Read Bool}
    (judges : ∀ c : Cursor, c.Sound → Gives (fun _ => True) (isComponent c)) :
    (enter context isComponent).TotalAt type := by
  intro c sound _ memory
  have id : (c.node.get "id").Place := sound.node.naming (by decide)
  refine completes_lift_bind (judges c sound) fun component _ => ?_
  split
  · refine completes_lift_bind (gives_identifierName id) fun name _ => ?_
    split
    · refine completes_bind (reportAt_completes sound.node ?_ _) fun _ => completes_pure _
      rw [same]
      rfl
    · exact completes_pure _
  · exact completes_pure memory

theorem leave_totalAt (type : String) : leave.TotalAt type := by
  intro c _ _ memory
  unfold leave
  split
  · exact completes_pure _
  · exact completes_pure _

theorem rule_total : rule.Total := by
  refine Rule.total_of_table rfl rfl (fun _ _ _ => gives_ok trivial) fun context same => ?_
  have declares (c : Cursor) (sound : c.Sound) :
      Gives (fun _ => True) (isComponentDeclarator c.node) := gives_isComponentDeclarator sound.node
  simp only [Listeners.Total, List.forall_mem_cons, List.not_mem_nil, false_implies, implies_true,
    and_true]
  exact ⟨enter_totalAt same fun _ => gives_isComponent, leave_totalAt _,
    enter_totalAt same fun _ => gives_isComponent, leave_totalAt _,
    enter_totalAt same declares, leave_totalAt _⟩

end NestedComponent

namespace DocComment

variable {wants : Option String → Bool}

theorem gives_isInFolders (ready : context.Ready)
    (described : context.info.schema = [.withIgnore [("folders", [])]]) :
    Gives (fun _ => True) (isInFolders context) := by
  unfold isInFolders
  cases found : context.option? "folders" with
  | none => exact gives_ok trivial
  | some folders =>
    obtain ⟨items, rfl, -⟩ := isTexts_of_option? described (by decide) ready.takes found
    have understood := ready.understands "folders" (by decide) items found
    refine gives_bind (P := fun read => read = items) (gives_ok rfl) fun read all => ?_
    subst all
    exact gives_bind (gives_ofPatterns understood context.cwd) fun _ _ => gives_ok trivial

theorem require_completes (known : (context.info.messages.lookup "missingJSDoc").isSome = true)
    (sound : c.Sound) {n : Node} (inside : n.Sound) (name : Option String) :
    (require context wants c n name).Completes := by
  unfold require
  split
  · exact completes_pure ()
  · refine completes_lift_bind (gives_hasDoc context.source sound) fun documented _ => ?_
    split
    · exact completes_pure ()
    · exact reportAt_completes inside known _

theorem checkFunction_completes
    (known : (context.info.messages.lookup "missingJSDoc").isSome = true) (sound : c.Sound) :
    (checkFunction context wants c).Completes := by
  have id : (c.node.get "id").Place := sound.node.naming (by decide)
  unfold checkFunction
  split
  · exact completes_pure ()
  · exact completes_lift_bind (gives_identifierName id) fun name _ =>
      require_completes known sound sound.node name

theorem checkDeclarators_completes
    (known : (context.info.messages.lookup "missingJSDoc").isSome = true) (sound : c.Sound)
    {items : List Tree} (nodes : Tree.Nodes items) :
    (checkDeclarators context wants c items).Completes := by
  induction items with
  | nil => exact completes_pure ()
  | cons item rest ih =>
    obtain ⟨⟨declarator, rfl, inside⟩, others⟩ := List.forall_mem_cons.mp nodes
    have init : (declarator.get "init").Place := inside.naming (by decide)
    have id : (declarator.get "id").Place := inside.naming (by decide)
    refine completes_bind ?_ fun _ => ih others
    refine completes_node ?_
    refine completes_lift_bind (gives_isFunctionValue init) fun function _ => ?_
    split
    · exact completes_lift_bind (gives_identifierName id) fun name _ =>
        require_completes known sound inside name
    · exact completes_pure ()

theorem checkDeclaration_completes
    (known : (context.info.messages.lookup "missingJSDoc").isSome = true) (sound : c.Sound)
    (declares : c.node.type = "VariableDeclaration") :
    (checkDeclaration context wants c).Completes := by
  unfold checkDeclaration
  split
  · exact completes_pure ()
  · refine completes_lift_bind (sound.node.gives_items "declarations" ?_)
      fun items nodes => checkDeclarators_completes known sound nodes
    rw [declares]
    decide

theorem ruleFor_total (name description message : String) :
    (ruleFor name (infoFor description message) wants).Total := by
  refine Rule.total_of_table rfl rfl (fun context same ready => ?_) fun context same => ?_
  · exact gives_isInFolders ready (by rw [same]; rfl)
  · have known : (context.info.messages.lookup "missingJSDoc").isSome = true := by
      rw [same]
      rfl
    refine List.forall_mem_cons.mpr
      ⟨Listener.stateless_totalAt fun c sound _ => checkFunction_completes known sound,
        List.forall_mem_singleton.mpr ?_⟩
    exact Listener.stateless_totalAt fun c => checkDeclaration_completes known

end DocComment

end Rules

end TreeLint
