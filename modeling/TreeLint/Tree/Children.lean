import TreeLint.Tree.Basic

/-! The children of a node. Node types of the ECMAScript, JSX and TypeScript grammars list the
fields that hold their children; a node of another type is searched field by field, in the order in
which it was serialized. -/

namespace TreeLint

/-- The fields with children, in the order of a visit, of each known type of node. -/
def childKeysOfType : List (String × List String) :=
  [("Program", ["body"]),
   ("ExpressionStatement", ["expression"]),
   ("BlockStatement", ["body"]),
   ("StaticBlock", ["body"]),
   ("EmptyStatement", []),
   ("DebuggerStatement", []),
   ("ReturnStatement", ["argument"]),
   ("ThrowStatement", ["argument"]),
   ("IfStatement", ["test", "consequent", "alternate"]),
   ("SwitchStatement", ["discriminant", "cases"]),
   ("SwitchCase", ["test", "consequent"]),
   ("WhileStatement", ["test", "body"]),
   ("DoWhileStatement", ["body", "test"]),
   ("ForStatement", ["init", "test", "update", "body"]),
   ("ForInStatement", ["left", "right", "body"]),
   ("ForOfStatement", ["left", "right", "body"]),
   ("TryStatement", ["block", "handler", "finalizer"]),
   ("CatchClause", ["param", "body"]),
   ("LabeledStatement", ["label", "body"]),
   ("BreakStatement", ["label"]),
   ("ContinueStatement", ["label"]),
   ("VariableDeclaration", ["declarations"]),
   ("VariableDeclarator", ["id", "init"]),
   ("FunctionDeclaration", ["id", "typeParameters", "params", "returnType", "body"]),
   ("FunctionExpression", ["id", "typeParameters", "params", "returnType", "body"]),
   ("ArrowFunctionExpression", ["typeParameters", "params", "returnType", "body"]),
   ("ClassDeclaration", ["decorators", "id", "typeParameters", "superClass", "implements", "body"]),
   ("ClassExpression", ["decorators", "id", "typeParameters", "superClass", "implements", "body"]),
   ("ClassBody", ["body"]),
   ("MethodDefinition", ["decorators", "key", "value"]),
   ("PropertyDefinition", ["decorators", "key", "typeAnnotation", "value"]),
   ("ImportDeclaration", ["specifiers", "source"]),
   ("ImportSpecifier", ["imported", "local"]),
   ("ImportDefaultSpecifier", ["local"]),
   ("ImportNamespaceSpecifier", ["local"]),
   ("ExportNamedDeclaration", ["declaration", "specifiers", "source"]),
   ("ExportDefaultDeclaration", ["declaration"]),
   ("ExportAllDeclaration", ["exported", "source"]),
   ("ExportSpecifier", ["local", "exported"]),
   ("Identifier", ["decorators", "typeAnnotation"]),
   ("Literal", []),
   ("TemplateLiteral", ["quasis", "expressions"]),
   ("TemplateElement", []),
   ("TaggedTemplateExpression", ["tag", "quasi"]),
   ("ObjectExpression", ["properties"]),
   ("ObjectPattern", ["properties", "typeAnnotation"]),
   ("ArrayExpression", ["elements"]),
   ("ArrayPattern", ["elements", "typeAnnotation"]),
   ("Property", ["key", "value"]),
   ("SpreadElement", ["argument"]),
   ("RestElement", ["argument", "typeAnnotation"]),
   ("AssignmentPattern", ["left", "right"]),
   ("CallExpression", ["callee", "typeArguments", "arguments"]),
   ("NewExpression", ["callee", "typeArguments", "arguments"]),
   ("MemberExpression", ["object", "property"]),
   ("ChainExpression", ["expression"]),
   ("ConditionalExpression", ["test", "consequent", "alternate"]),
   ("LogicalExpression", ["left", "right"]),
   ("BinaryExpression", ["left", "right"]),
   ("AssignmentExpression", ["left", "right"]),
   ("UnaryExpression", ["argument"]),
   ("UpdateExpression", ["argument"]),
   ("AwaitExpression", ["argument"]),
   ("YieldExpression", ["argument"]),
   ("SequenceExpression", ["expressions"]),
   ("ThisExpression", []),
   ("Super", []),
   ("JSXElement", ["openingElement", "children", "closingElement"]),
   ("JSXFragment", ["openingFragment", "children", "closingFragment"]),
   ("JSXOpeningElement", ["name", "typeArguments", "attributes"]),
   ("JSXClosingElement", ["name"]),
   ("JSXOpeningFragment", []),
   ("JSXClosingFragment", []),
   ("JSXAttribute", ["name", "value"]),
   ("JSXSpreadAttribute", ["argument"]),
   ("JSXExpressionContainer", ["expression"]),
   ("JSXEmptyExpression", []),
   ("JSXSpreadChild", ["expression"]),
   ("JSXText", []),
   ("JSXIdentifier", []),
   ("JSXMemberExpression", ["object", "property"]),
   ("JSXNamespacedName", ["namespace", "name"]),
   ("TSInterfaceDeclaration", ["id", "typeParameters", "extends", "body"]),
   ("TSInterfaceBody", ["body"]),
   ("TSTypeAliasDeclaration", ["id", "typeParameters", "typeAnnotation"]),
   ("TSTypeLiteral", ["members"]),
   ("TSPropertySignature", ["key", "typeAnnotation"]),
   ("TSMethodSignature", ["key", "typeParameters", "params", "returnType"]),
   ("TSTypeAnnotation", ["typeAnnotation"]),
   ("TSAsExpression", ["expression", "typeAnnotation"]),
   ("TSNonNullExpression", ["expression"]),
   ("TSEnumDeclaration", ["id", "members"]),
   ("TSEnumMember", ["id", "initializer"]),
   ("TSModuleDeclaration", ["id", "body"]),
   ("TSModuleBlock", ["body"])]

namespace Node

/-- Fields that never hold children. -/
def isPlainKey (key : String) : Bool :=
  ["type", "parent", "loc", "range", "start", "end", "comments", "tokens"].contains key

def childKeys (n : Node) : List String :=
  match childKeysOfType.lookup n.type with
  | some keys => keys
  | none => (n.fields.map (·.1)).filter (!isPlainKey ·)

/-- The place of a child below its node: a field, and the position in it when it is a list. -/
structure Place where
  key : String
  index : Option Nat
  deriving DecidableEq

def nodesAmong (key : String) : Nat → List Tree → List (Place × Node)
  | _, [] => []
  | i, .node type fields :: rest => (⟨key, some i⟩, ⟨type, fields⟩) :: nodesAmong key (i + 1) rest
  | i, _ :: rest => nodesAmong key (i + 1) rest

/-- The children in one field: its node, or the nodes in its list. -/
def childrenAt (n : Node) (key : String) : List (Place × Node) :=
  match n.get key with
  | .node type fields => [(⟨key, none⟩, ⟨type, fields⟩)]
  | .list items => nodesAmong key 0 items
  | .value _ => []

def placedChildren (n : Node) : List (Place × Node) := n.childKeys.flatMap n.childrenAt

def children (n : Node) : List Node := n.placedChildren.map (·.2)

end Node

end TreeLint
