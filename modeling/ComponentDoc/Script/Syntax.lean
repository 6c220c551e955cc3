import ComponentDoc.SyntaxTree

/-!
The kinds of nodes in the syntax tree of a script, and what a node is to its parent. Only the
parts that documentation looks at are told apart in full; other statements and the parts of types
share a kind.
-/

namespace ComponentDoc.Script

inductive Kind where
  | program
  | exportDefault
  | returnStatement
  | statement
  | statementBlock
  | object
  | pair
  | methodDefinition
  /-- An identifier that stands for an entry of the same name. -/
  | shorthand
  | spreadElement
  | punctuation
  | propertyName
  | computedName
  | array
  | identifier
  | string
  | templateString
  | templateSubstitution
  | stringFragment
  | escapeSequence
  | number
  | regex
  | trueLiteral
  | falseLiteral
  | null
  | undefined
  | this
  | super
  | importKeyword
  | metaProperty
  | functionExpression
  | functionDeclaration
  | generatorFunction
  | generatorFunctionDeclaration
  | arrowFunction
  | functionSignature
  | arguments
  | callExpression
  | newExpression
  | awaitExpression
  | yieldExpression
  | unaryExpression
  | binaryExpression
  | ternaryExpression
  | updateExpression
  | assignmentExpression
  | augmentedAssignment
  | sequenceExpression
  | memberExpression
  | subscriptExpression
  | parenthesized
  | asExpression
  | satisfiesExpression
  | nonNullExpression
  | instantiation
  | typeAssertion
  | markupElement
  | markupSelfClosing
  | class_
  | classDeclaration
  | abstractClassDeclaration
  | lexicalDeclaration
  | variableDeclaration
  | interfaceDeclaration
  | enumDeclaration
  | typeAliasDeclaration
  | internalModule
  | module_
  | ambientDeclaration
  | importAlias
  | comment
  /-- A comment that starts with `<!--` or `-->` and ends with its line. -/
  | markupComment
  | part
deriving Repr, DecidableEq, Inhabited

def Kind.name : Kind → String
  | .program => "program"
  | .exportDefault => "export_statement"
  | .returnStatement => "return_statement"
  | .statement => "statement"
  | .statementBlock => "statement_block"
  | .object => "object"
  | .pair => "pair"
  | .methodDefinition => "method_definition"
  | .shorthand => "shorthand_property_identifier"
  | .spreadElement => "spread_element"
  | .punctuation => ","
  | .propertyName => "property_identifier"
  | .computedName => "computed_property_name"
  | .array => "array"
  | .identifier => "identifier"
  | .string => "string"
  | .templateString => "template_string"
  | .templateSubstitution => "template_substitution"
  | .stringFragment => "string_fragment"
  | .escapeSequence => "escape_sequence"
  | .number => "number"
  | .regex => "regex"
  | .trueLiteral => "true"
  | .falseLiteral => "false"
  | .null => "null"
  | .undefined => "undefined"
  | .this => "this"
  | .super => "super"
  | .importKeyword => "import"
  | .metaProperty => "meta_property"
  | .functionExpression => "function_expression"
  | .functionDeclaration => "function_declaration"
  | .generatorFunction => "generator_function"
  | .generatorFunctionDeclaration => "generator_function_declaration"
  | .arrowFunction => "arrow_function"
  | .functionSignature => "function_signature"
  | .arguments => "arguments"
  | .callExpression => "call_expression"
  | .newExpression => "new_expression"
  | .awaitExpression => "await_expression"
  | .yieldExpression => "yield_expression"
  | .unaryExpression => "unary_expression"
  | .binaryExpression => "binary_expression"
  | .ternaryExpression => "ternary_expression"
  | .updateExpression => "update_expression"
  | .assignmentExpression => "assignment_expression"
  | .augmentedAssignment => "augmented_assignment_expression"
  | .sequenceExpression => "sequence_expression"
  | .memberExpression => "member_expression"
  | .subscriptExpression => "subscript_expression"
  | .parenthesized => "parenthesized_expression"
  | .asExpression => "as_expression"
  | .satisfiesExpression => "satisfies_expression"
  | .nonNullExpression => "non_null_expression"
  | .instantiation => "instantiation_expression"
  | .typeAssertion => "type_assertion"
  | .markupElement => "jsx_element"
  | .markupSelfClosing => "jsx_self_closing_element"
  | .class_ => "class"
  | .classDeclaration => "class_declaration"
  | .abstractClassDeclaration => "abstract_class_declaration"
  | .lexicalDeclaration => "lexical_declaration"
  | .variableDeclaration => "variable_declaration"
  | .interfaceDeclaration => "interface_declaration"
  | .enumDeclaration => "enum_declaration"
  | .typeAliasDeclaration => "type_alias_declaration"
  | .internalModule => "internal_module"
  | .module_ => "module"
  | .ambientDeclaration => "ambient_declaration"
  | .importAlias => "import_alias"
  | .comment => "comment"
  | .markupComment => "html_comment"
  | .part => "part"

/--
What a node is to its parent.
-/
inductive Role where
  | key
  | value
  | callee
  | arguments
  | body
  | plain
deriving Repr, DecidableEq, Inhabited

structure Label where
  kind : Kind
  role : Role := .plain
deriving Repr, DecidableEq, Inhabited

abbrev Tree := SyntaxTree Label

namespace Tree

/--
The kind of a tree, unless it is a stretch that fits nowhere.
-/
def kind? (t : Tree) : Option Kind :=
  t.label?.map Label.kind

def hasRole (t : Tree) (role : Role) : Bool :=
  t.label?.map Label.role = some role

def withRole (role : Role) : Tree → Tree
  | .node label span children => .node { label with role } span children
  | .error span children => .error span children
  | .missing label position => .missing { label with role } position

def isTrivial (t : Tree) : Bool :=
  t.kind? = some .comment || t.kind? = some .punctuation

end Tree

end ComponentDoc.Script
