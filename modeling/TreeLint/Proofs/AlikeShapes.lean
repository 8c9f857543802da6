import TreeLint.Proofs.AlikeTrees
import TreeLint.Shape.Component
import TreeLint.Shape.Doc

/-! Alike nodes have one shape. Every question about the shape of a node has the same answer at
alike nodes, with the same fault where there is none, and the nodes that an answer leads to are
alike again. -/

namespace TreeLint

open Read (Both)

namespace Shape

variable {t u : Tree} {n m : Node} {c d : Cursor} {items others : List Tree}

theorem identifierName_alike (alike : t.Alike u) : identifierName t = identifierName u := by
  apply alike.at_eq rfl
  intro n m node
  simp only [Option.bind_some, node.nameText]

theorem literalText_alike (alike : t.Alike u) : literalText t = literalText u := by
  apply alike.at_eq rfl
  intro n m node
  simp only [node.type, (node.field "value" rfl).string?]

theorem quasiText_alike (key : String) (alike : t.Alike u) : quasiText key t = quasiText key u := by
  apply alike.asNode.bind_eq
  intro n m node
  have held := node.field "value" rfl
  generalize n.get "value" = one at held
  generalize m.get "value" = two at held
  cases held <;> rfl

theorem quasiTexts_alike (key : String) (alike : List.Forall₂ Tree.Alike items others) :
    items.mapM (quasiText key) = others.mapM (quasiText key) := by
  induction alike with
  | nil => rfl
  | cons here _ ih => rw [List.mapM_cons, List.mapM_cons, quasiText_alike key here, ih]

theorem templateText_alike (alike : n.Alike m) (key : String) :
    templateText n key = templateText m key := by
  apply (alike.field "quasis" rfl).items.bind_eq
  intro items others parts
  rw [quasiTexts_alike key parts]

theorem elementTag_alike (alike : n.Alike m) : elementTag n = elementTag m := by
  apply (alike.field "name" rfl).at_eq rfl
  intro n m name
  simp only [name.type, name.nameText]

theorem attributeName_alike (alike : n.Alike m) : attributeName n = attributeName m := by
  unfold attributeName
  rw [alike.type, identifierName_alike (alike.field "name" rfl)]

theorem attributeAmong_alike (name : String) (alike : List.Forall₂ Tree.Alike items others) :
    Both (Option.Rel Node.Alike) (attributeAmong name items) (attributeAmong name others) := by
  induction alike with
  | nil => exact .ok .none
  | cons here _ ih =>
    apply here.asNode.bind
    intro n m attr
    rw [attributeName_alike attr]
    apply Both.after
    intro found
    split
    · exact .ok (.some attr)
    · exact ih

theorem findAttribute_alike (alike : n.Alike m) (name : String) :
    Both (Option.Rel Node.Alike) (findAttribute n name) (findAttribute m name) :=
  (alike.field "attributes" rfl).items.bind fun _ _ => attributeAmong_alike name

theorem isBlankLiteral_alike (alike : n.Alike m) : isBlankLiteral n = isBlankLiteral m := by
  unfold isBlankLiteral
  rw [alike.type, (alike.field "value" rfl).string?]

theorem isMeaningful_alike (host : Host) (alike : n.Alike m) :
    isMeaningful host n = isMeaningful host m := by
  have text := alike.field "value" rfl
  unfold isMeaningful
  dsimp only
  rw [alike.type]
  split
  · rw [text.isTruthy, text.plain]
  · split
    · apply (alike.field "expression" rfl).at_eq rfl
      intro n m inside
      simp only [inside.type, isBlankLiteral_alike inside]
    · rfl

theorem meaningful_alike (host : Host) (alike : List.Forall₂ Tree.Alike items others) :
    Both (List.Forall₂ Node.Alike) (meaningful host items) (meaningful host others) := by
  induction alike with
  | nil => exact .ok .nil
  | cons here _ ih =>
    apply here.asNode.bind
    intro n m child
    rw [isMeaningful_alike host child]
    apply Both.after
    intro rendered
    split
    · exact ih.bind fun _ _ more => .ok (.cons child more)
    · exact ih

theorem isFragmentElement_alike (alike : n.Alike m) :
    isFragmentElement n = isFragmentElement m := by
  apply (alike.field "openingElement" rfl).at_eq rfl
  intro n m opening
  apply (opening.field "name" rfl).at_eq rfl
  intro n m name
  simp only [name.type, name.nameText, identifierName_alike (name.field "object" rfl),
    identifierName_alike (name.field "property" rfl)]

theorem wrapsSingleChild_alike (host : Host) (alike : n.Alike m) :
    wrapsSingleChild host n = wrapsSingleChild host m := by
  apply ((alike.field "children" rfl).items.bind fun _ _ => meaningful_alike host).bind_eq
  intro children others related
  cases related with
  | nil => rfl
  | cons child more =>
    cases more with
    | nil => simp only [child.type]
    | cons => rfl

theorem isFunctionValue_alike (alike : t.Alike u) : isFunctionValue t = isFunctionValue u := by
  apply alike.at_eq rfl
  intro n m node
  simp only [node.type]

theorem returnsElement_alike (alike : n.Alike m) : returnsElement n = returnsElement m := by
  unfold returnsElement
  rw [alike.type]
  split
  · rfl
  · apply (alike.field "argument" rfl).at_eq rfl
    intro n m argument
    simp only [argument.type]

theorem someReturnsElement_alike (alike : List.Forall₂ Tree.Alike items others) :
    someReturnsElement items = someReturnsElement others := by
  induction alike with
  | nil => rfl
  | cons here _ ih =>
    apply here.asNode.bind_eq
    intro n m statement
    rw [returnsElement_alike statement, ih]

theorem returnsJsx_alike (alike : n.Alike m) : returnsJsx n = returnsJsx m := by
  apply (alike.field "body" rfl).at_eq rfl
  intro n m body
  simp only [body.type]
  split
  · rfl
  · exact (body.field "body" rfl).items.bind_eq fun _ _ => someReturnsElement_alike

theorem hasComponentName_alike (alike : n.Alike m) : hasComponentName n = hasComponentName m := by
  unfold hasComponentName
  rw [identifierName_alike (alike.field "id" rfl)]

theorem declaresComponentName_alike (alike : n.Alike m) :
    declaresComponentName n = declaresComponentName m := by
  unfold declaresComponentName
  rw [alike.type, hasComponentName_alike alike]

theorem isComponent_alike (alike : c.Alike d) : isComponent c = isComponent d := by
  have above := alike.parent?
  unfold isComponent
  dsimp only
  rw [alike.node.type, hasComponentName_alike alike.node, returnsJsx_alike alike.node]
  generalize c.parent? = one at above
  generalize d.parent? = two at above
  cases above with
  | none => rfl
  | some parent => simp only [declaresComponentName_alike parent.node]

theorem isComponentDeclarator_alike (alike : n.Alike m) :
    isComponentDeclarator n = isComponentDeclarator m := by
  unfold isComponentDeclarator
  rw [isFunctionValue_alike (alike.field "init" rfl), hasComponentName_alike alike]

theorem isRootLevel_alike (alike : c.Alike d) : isRootLevel c = isRootLevel d := by
  have above := alike.parent?
  unfold isRootLevel
  generalize c.parent? = one at above
  generalize d.parent? = two at above
  cases above with
  | none => rfl
  | @some parent other parents =>
    have above := parents.parent?
    dsimp only
    rw [parents.node.type, parents.node.isExport]
    generalize parent.parent? = one at above
    generalize other.parent? = two at above
    cases above with
    | none => rfl
    | some outer => simp only [outer.node.type]

theorem documentedStatement_alike (alike : c.Alike d) :
    (documentedStatement c).Alike (documentedStatement d) := by
  have above := alike.parent?
  unfold documentedStatement
  generalize c.parent? = one at above
  generalize d.parent? = two at above
  cases above with
  | none => exact alike
  | some parent =>
    dsimp only
    rw [parent.node.isExport]
    split
    · exact parent
    · exact alike

end Shape

variable {n m : Node}

theorem SourceCode.nodeLocation_alike (source : SourceCode) (alike : n.Alike m) :
    source.nodeLocation n = source.nodeLocation m := by
  unfold nodeLocation Node.line Node.column
  rw [alike.coordinate, alike.coordinate, alike.start]

theorem SourceCode.commentsBefore_alike (source : SourceCode) (alike : n.Alike m) :
    source.commentsBefore n = source.commentsBefore m := by
  unfold commentsBefore
  rw [alike.start]

theorem Shape.hasDoc_alike (source : SourceCode) {c d : Cursor} (alike : c.Alike d) :
    hasDoc source c = hasDoc source d := by
  unfold hasDoc
  rw [source.commentsBefore_alike (documentedStatement_alike alike).node]

theorem Fix.replacing_alike (alike : n.Alike m) (text : String) :
    replacing n text = replacing m text := by
  unfold replacing
  rw [alike.start, alike.stop]

end TreeLint
