import TreeLint.Proofs.RuleCompletion

/-! Rules on elements come to their end. What they ask of elements, their attributes, and the
literals and templates in them has an answer wherever the tree has the right shape. -/

namespace TreeLint

variable [Host]

theorem Node.Sound.container {n : Node} (sound : n.Sound)
    (isContainer : n.type = "JSXExpressionContainer") : (n.get "expression").Place :=
  sound.place (by rw [isContainer]; decide)

theorem Node.Sound.attribute {n : Node} (sound : n.Sound) (isAttribute : n.type = "JSXAttribute") :
    (n.get "value").Place :=
  sound.place (by rw [isAttribute]; decide)

namespace Rules
open Reporting RuleContext Shape
open TreeLint.Tree (gives_at)

variable {context : RuleContext} {c : Cursor}

namespace Typography

theorem gives_concerns (ready : context.Ready) : Gives (fun _ => True) (concerns context) := by
  obtain ⟨name, named⟩ := ready.named
  unfold concerns
  rw [named]
  exact gives_ok trivial

theorem checkOpening_completes (same : context.info = info) (sound : c.Sound)
    (isOpening : c.node.type = "JSXOpeningElement") : (checkOpening context c).Completes := by
  refine completes_lift_bind (gives_elementTag sound.node isOpening) fun tag _ => ?_
  cases tag with
  | none => exact completes_pure ()
  | some tag =>
    dsimp only
    split
    · exact reportAt_completes sound.node (by rw [same]; rfl) _
    · exact completes_pure ()

theorem rule_total : rule.Total := by
  refine Rule.total_of_table rfl rfl (fun _ _ => gives_concerns) fun context same => ?_
  exact List.forall_mem_singleton.mpr
    (Listener.stateless_totalAt fun c => checkOpening_completes same)

end Typography

namespace DirectColor

theorem checkText_completes (same : context.info = info) {n : Node} (sound : n.Sound)
    (text : Option String) : (checkText context n text).Completes := by
  unfold checkText
  split
  · exact reportAt_completes sound (by rw [same]; rfl) _
  · exact completes_pure ()

theorem checkValue_completes (same : context.info = info) {place n : Node} (placed : place.Sound)
    (sound : n.Sound) : (checkValue context place n).Completes := by
  unfold checkValue
  split
  · exact checkText_completes same placed _
  · split
    · rename_i template
      refine completes_lift_bind (gives_templateText sound (by simpa using template) "cooked")
        fun text _ => ?_
      exact checkText_completes same placed _
    · exact completes_pure ()

theorem checkProperty_completes (same : context.info = info) {property : Node}
    (sound : property.Sound) : (checkProperty context property.toTree).Completes := by
  refine completes_node ?_
  by_cases isProperty : property.type = "Property"
  · rw [if_neg (by simp [isProperty])]
    have key : (property.get "key").Place := sound.naming (by decide)
    refine completes_lift_bind (gives_identifierName key) fun key _ => ?_
    cases key with
    | none => exact completes_pure ()
    | some key =>
      dsimp only
      split
      · exact completes_pure ()
      · have value : (property.get "value").Place := sound.place (by rw [isProperty]; decide)
        refine completes_at value (completes_pure ()) fun value below => ?_
        exact checkValue_completes same below below
  · rw [if_pos (by simpa using isProperty)]
    exact completes_pure ()

theorem checkProperties_completes (same : context.info = info) {items : List Tree}
    (nodes : Tree.Nodes items) : (checkProperties context items).Completes := by
  induction items with
  | nil => exact completes_pure ()
  | cons item rest ih =>
    obtain ⟨⟨property, rfl, sound⟩, others⟩ := List.forall_mem_cons.mp nodes
    exact completes_bind (checkProperty_completes same sound) fun _ => ih others

theorem checkExpression_completes (same : context.info = info) {place n : Node}
    (placed : place.Sound) (sound : n.Sound) (name : String) :
    (checkExpression context name place n).Completes := by
  unfold checkExpression
  split
  · split
    · rename_i object
      refine completes_lift_bind (sound.gives_items "properties" ?_)
        fun items nodes => checkProperties_completes same nodes
      rw [show n.type = "ObjectExpression" by simpa using object]
      decide
    · exact completes_pure ()
  · exact checkValue_completes same placed sound

theorem checkAttribute_completes (same : context.info = info) (sound : c.Sound)
    (isAttribute : c.node.type = "JSXAttribute") : (checkAttribute context c).Completes := by
  refine completes_lift_bind (gives_attributeName sound.node) fun name _ => ?_
  cases name with
  | none => exact completes_pure ()
  | some name =>
    dsimp only
    split
    · exact completes_pure ()
    · refine completes_at (sound.node.attribute isAttribute) (completes_pure ())
        fun value below => ?_
      dsimp only
      split
      · exact checkText_completes same below _
      · split
        · rename_i container
          have inside := below.container (by simpa using container)
          refine completes_at inside (completes_pure ()) fun expression deeper => ?_
          exact checkExpression_completes same below deeper name
        · exact completes_pure ()

theorem rule_total : rule.Total := by
  refine Rule.total_of_table rfl rfl (fun _ _ _ => gives_ok trivial) fun context same => ?_
  exact List.forall_mem_singleton.mpr
    (Listener.stateless_totalAt fun c => checkAttribute_completes same)

end DirectColor

namespace Interaction

theorem gives_hasButtonRole {opening : Node} (sound : opening.Sound)
    (isOpening : opening.type = "JSXOpeningElement") :
    Gives (fun _ => True) (hasButtonRole opening) := by
  refine gives_bind (gives_findAttribute sound isOpening "role") fun found given => ?_
  cases found with
  | none => exact gives_ok trivial
  | some role =>
    obtain ⟨below, isAttribute⟩ := given role rfl
    exact gives_bind (gives_literalText (below.attribute isAttribute)) fun _ _ => gives_ok trivial

theorem checkOpening_completes (same : context.info = info) (sound : c.Sound)
    (isOpening : c.node.type = "JSXOpeningElement") : (checkOpening context c).Completes := by
  refine completes_lift_bind (gives_elementTag sound.node isOpening) fun tag _ => ?_
  cases tag with
  | none => exact completes_pure ()
  | some tag =>
    dsimp only
    split
    · exact completes_pure ()
    · refine completes_lift_bind (gives_findAttribute sound.node isOpening _) fun clicks _ => ?_
      split
      · exact completes_pure ()
      · refine completes_lift_bind (gives_hasButtonRole sound.node isOpening) fun button _ => ?_
        refine completes_lift_bind (gives_findAttribute sound.node isOpening _) fun keys _ => ?_
        split
        · exact reportAt_completes sound.node (by rw [same]; rfl) _
        · exact completes_pure ()

theorem rule_total : rule.Total := by
  refine Rule.total_of_table rfl rfl (fun _ _ _ => gives_ok trivial) fun context same => ?_
  exact List.forall_mem_singleton.mpr
    (Listener.stateless_totalAt fun c => checkOpening_completes same)

end Interaction

namespace InlineArrow

theorem checkAttribute_completes (same : context.info = info) (sound : c.Sound)
    (isAttribute : c.node.type = "JSXAttribute") : (checkAttribute context c).Completes := by
  refine completes_at (sound.node.attribute isAttribute) (completes_pure ()) fun value below => ?_
  dsimp only
  split
  · exact completes_pure ()
  · rename_i container
    have inside := below.container (by simpa using container)
    refine completes_at inside (completes_pure ()) fun expression _ => ?_
    dsimp only
    split
    · exact reportAt_completes below (by rw [same]; rfl) _
    · exact completes_pure ()

theorem rule_total : rule.Total := by
  refine Rule.total_of_table rfl rfl (fun _ _ _ => gives_ok trivial) fun context same => ?_
  exact List.forall_mem_singleton.mpr
    (Listener.stateless_totalAt fun c => checkAttribute_completes same)

end InlineArrow

namespace ClassName

omit [Host] in
theorem gives_allowedTexts {items : List Value}
    (texts : ∀ item ∈ items, ∃ text, item = .str text) :
    Gives (fun _ => True) (allowedTexts items) := by
  unfold allowedTexts
  rw [if_neg]
  · exact gives_ok trivial
  · intro unhashable
    obtain ⟨item, member, kind⟩ := List.any_eq_true.mp unhashable
    obtain ⟨text, rfl⟩ := texts item member
    cases kind

theorem gives_isAllowed (allowed : List String) {template : Node} (sound : template.Sound)
    (isTemplate : template.type = "TemplateLiteral") :
    Gives (fun _ => True) (isAllowed allowed template) := by
  unfold isAllowed
  split
  · exact gives_ok trivial
  · exact gives_bind (gives_templateText sound isTemplate "cooked") fun _ _ => gives_ok trivial

theorem checkTemplate_completes (same : context.info = utilityInfo) (allowed : List String)
    (sound : c.Sound) (isAttribute : c.node.type = "JSXAttribute") :
    (checkTemplate context allowed c).Completes := by
  refine completes_lift_bind (gives_attributeName sound.node) fun name _ => ?_
  split
  · exact completes_pure ()
  · refine completes_at (sound.node.attribute isAttribute) (completes_pure ()) fun value below => ?_
    dsimp only
    split
    · exact completes_pure ()
    · rename_i container
      have inside := below.container (by simpa using container)
      refine completes_at inside (completes_pure ()) fun expression deeper => ?_
      dsimp only
      split
      · exact completes_pure ()
      · rename_i template
        refine completes_lift_bind
          (gives_isAllowed allowed deeper (by simpa using template)) fun passes _ => ?_
        split
        · exact completes_pure ()
        · exact reportAt_completes below (by rw [same]; rfl) _

theorem utilityRule_total : utilityRule.Total := by
  refine Rule.total_of_form rfl rfl (fun _ _ _ => gives_ok trivial)
    fun context same ready => ?_
  have allow := gives_optionItems ready (by rw [same]; rfl) "allow" (by decide) [""]
  refine gives_bind allow fun items texts => ?_
  refine gives_bind (gives_allowedTexts texts) fun allowed _ => ?_
  exact gives_ok (List.forall_mem_singleton.mpr
    (Listener.stateless_totalAt fun c => checkTemplate_completes same allowed))

theorem gives_blankTemplate {n : Node} (sound : n.Sound) (template : n.type = "TemplateLiteral") :
    Gives (fun found => ∀ blank, found = some blank → blank.Sound) (blankTemplate n) := by
  have quasis : (n.get "quasis").AreNodesOrNone :=
    sound.shaped.lists "quasis" (by rw [template]; decide)
  have part : Gives (fun _ => True) (onlyPart (n.get "quasis")) := by
    obtain empty | ⟨items, held, nodes⟩ := quasis
    · rw [empty]
      exact gives_ok trivial
    · rw [held]
      unfold onlyPart
      split
      · exact gives_ok trivial
      · split
        · rename_i item single
          cases single
          obtain ⟨part, rfl⟩ := nodes item List.mem_cons_self
          exact gives_ok trivial
        · exact gives_ok trivial
        · rename_i other
          cases other
        · rename_i other
          cases other
  refine gives_bind part fun part _ => ?_
  cases part with
  | none => exact gives_ok fun blank found => by cases found
  | some part =>
    refine gives_bind (gives_quasiText part) fun raw _ => ?_
    refine gives_ok fun blank found => ?_
    split at found
    · cases found
      exact sound
    · cases found

theorem blankLiteral_sound {n blank : Node} (sound : n.Sound)
    (found : blankLiteral n = some blank) : blank.Sound := by
  unfold blankLiteral at found
  split at found
  · cases found
    exact sound
  · cases found

theorem gives_blankValue {attr : Node} (sound : attr.Sound)
    (isAttribute : attr.type = "JSXAttribute") :
    Gives (fun found => ∀ blank, found = some blank → blank.Sound) (blankValue attr) := by
  have none : Gives (fun found => ∀ blank, found = some blank → blank.Sound)
      (.ok (none : Option Node)) := gives_ok fun blank found => by cases found
  refine gives_bind (gives_attributeName sound) fun name _ => ?_
  split
  · exact none
  · refine gives_at (sound.attribute isAttribute) none fun value below => ?_
    dsimp only
    split
    · exact gives_ok fun blank found => blankLiteral_sound below found
    · split
      · exact none
      · rename_i container
        have inside := below.container (by simpa using container)
        refine gives_at inside none fun expression deeper => ?_
        dsimp only
        split
        · exact gives_ok fun blank found => blankLiteral_sound deeper found
        · split
          · rename_i template
            exact gives_blankTemplate deeper (by simpa using template)
          · exact none

theorem checkBlank_completes {messageId : String}
    (known : (context.info.messages.lookup messageId).isSome = true) (sound : c.Sound)
    (isAttribute : c.node.type = "JSXAttribute") : (checkBlank context messageId c).Completes := by
  refine completes_lift_bind (gives_blankValue sound.node isAttribute) fun found given => ?_
  cases found with
  | none => exact completes_pure ()
  | some blank => exact reportAt_completes (given blank rfl) known _

theorem blankRule_total {info : RuleInfo} (name : String) {messageId : String}
    (described : info.schema = [.withIgnore []])
    (known : (info.messages.lookup messageId).isSome = true) :
    (blankRule name info messageId).Total := by
  refine Rule.total_of_table rfl described (fun _ _ _ => gives_ok trivial)
    fun context same => ?_
  have listed : (context.info.messages.lookup messageId).isSome = true := by
    rw [same]
    exact known
  exact List.forall_mem_singleton.mpr
    (Listener.stateless_totalAt fun c => checkBlank_completes listed)

end ClassName

namespace CurlyText

theorem gives_replacing {n : Node} (sound : n.Sound) (text : String) :
    Gives (fun _ => True) (Fix.replacing n text) := by
  refine gives_bind sound.gives_start fun start _ => ?_
  cases start with
  | none => exact gives_ok trivial
  | some start => exact gives_bind sound.gives_stop fun _ _ => gives_ok trivial

theorem checkAttribute_completes (same : context.info = info) (sound : c.Sound)
    (isAttribute : c.node.type = "JSXAttribute") : (checkAttribute context c).Completes := by
  refine completes_at (sound.node.attribute isAttribute) (completes_pure ()) fun value below => ?_
  dsimp only
  split
  · exact completes_pure ()
  · rename_i container
    have inside := below.container (by simpa using container)
    obtain ⟨read, given, -⟩ := gives_literalText inside
    refine completes_lift_bind (P := fun found => found = read) ⟨read, given, rfl⟩
      fun found here => ?_
    subst here
    cases found with
    | none => exact completes_pure ()
    | some text =>
      obtain ⟨literal, held, -, -⟩ := literalText_eq_some given
      have written : Gives (fun _ => True)
          (literalSource context.host.half? (value.get "expression") text) := by
        rw [held]
        exact gives_ok trivial
      refine completes_lift_bind written fun source _ => ?_
      refine completes_lift_bind (gives_attributeName sound.node) fun name _ => ?_
      refine completes_lift_bind (gives_replacing below source) fun fix _ => ?_
      have placed : Gives (fun _ => True) (context.locate (.node value)) :=
        context.source.gives_nodeLocation below
      exact report_completes placed (by rw [same]; rfl) _ fix

theorem rule_total : rule.Total := by
  refine Rule.total_of_table rfl rfl (fun _ _ _ => gives_ok trivial) fun context same => ?_
  exact List.forall_mem_singleton.mpr
    (Listener.stateless_totalAt fun c => checkAttribute_completes same)

end CurlyText

namespace Fragment

theorem checkFragment_completes (same : context.info = info) (host : context.host = ‹Host›)
    (sound : c.Sound) (known : (c.node.type, "children") ∈ Node.listFields) :
    (checkFragment context c).Completes := by
  unfold checkFragment
  rw [host]
  refine completes_lift_bind (gives_wrapsSingleChild sound.node known) fun wraps _ => ?_
  split
  · exact reportAt_completes sound.node (by rw [same]; rfl) _
  · exact completes_pure ()

theorem checkElement_completes (same : context.info = info) (host : context.host = ‹Host›)
    (sound : c.Sound) (isElement : c.node.type = "JSXElement") :
    (checkElement context c).Completes := by
  refine completes_lift_bind (gives_isFragmentElement sound.node isElement) fun fragment _ => ?_
  split
  · exact checkFragment_completes same host sound (by rw [isElement]; decide)
  · exact completes_pure ()

theorem rule_total : rule.Total := by
  refine Rule.total_of_form rfl rfl (fun _ _ _ => gives_ok trivial) fun context same ready => ?_
  refine gives_ok (List.forall_mem_cons.mpr
    ⟨Listener.stateless_totalAt fun c sound isFragment => ?_,
      List.forall_mem_singleton.mpr
        (Listener.stateless_totalAt fun c => checkElement_completes same ready.host)⟩)
  have known : (c.node.type, "children") ∈ Node.listFields := by
    rw [show c.node.type = "JSXFragment" from isFragment]
    decide
  exact checkFragment_completes same ready.host sound known

end Fragment

end Rules

end TreeLint
