import ComponentDoc.Problem
import ComponentDoc.Script.Expr
import ComponentDoc.Script.Repair

/-!
From the syntax tree of a script to its default export. Parentheses and type marks around an
expression do not show. The comments in front of an entry of an object belong to it, unless an
entry without a name or a spread stands in between.
-/

namespace ComponentDoc.Script

def unquote (cs : List Char) : List Char :=
  match cs with
  | q :: rest =>
    if (q = '"' || q = '\'' || q = '`') && rest.getLast? = some q then rest.dropLast else cs
  | [] => []

def Comment.ofSource (raw : List Char) : Comment :=
  match raw with
  | '/' :: '*' :: body =>
    let inner := if ['*', '/'].isSuffixOf body then body.take (body.length - 2) else body
    ⟨String.ofList inner, true⟩
  | '/' :: '/' :: body => ⟨String.ofList body, false⟩
  | _ => ⟨String.ofList raw, false⟩

def keyText (source : List Char) (t : Tree) : String :=
  if t.kind? = some .string then String.ofList (unquote (t.span.slice source)) else t.text source

def keyOf? (source : List Char) (parts : List Tree) : Option String :=
  (parts.find? fun t => t.hasRole .key).map (keyText source)

def valueTextOf? (source : List Char) (parts : List Tree) : Option String :=
  (parts.find? fun t => t.hasRole .value).map (SyntaxTree.text source)

/--
An expression that keeps only its kind and its source text.
-/
def otherExpr (source : List Char) (kind : Kind) (span : Span) : Expr :=
  .other kind.name (span.text source)

def isPlainTemplate (parts : List Tree) : Bool :=
  !parts.any fun t => t.kind? = some .templateSubstitution

mutual

def lowerExpr (source : List Char) : Tree → Expr
  | .node label span parts =>
    match label.kind with
    | .object => .object (lowerEntries source [] parts)
    | .array => .array (lowerValues source parts)
    | .identifier => .identifier (span.text source)
    | .string => .string (String.ofList (unquote (span.slice source)))
    | .templateString =>
      if isPlainTemplate parts then .string (String.ofList (unquote (span.slice source)))
      else otherExpr source .templateString span
    | .trueLiteral => .boolean true
    | .falseLiteral => .boolean false
    | .functionExpression => .function (lowerFunction source parts)
    | .functionDeclaration => .function (lowerFunction source parts)
    | .generatorFunction => .function (lowerFunction source parts)
    | .generatorFunctionDeclaration => .function (lowerFunction source parts)
    | .arrowFunction => .function (lowerFunction source parts)
    | .callExpression =>
      .call ((lowerRole source .callee parts).getD (otherExpr source .callExpression span))
        (lowerArguments source parts)
    | .parenthesized => (lowerFirst source parts).getD (otherExpr source .parenthesized span)
    | .asExpression => (lowerFirst source parts).getD (otherExpr source .asExpression span)
    | .satisfiesExpression =>
      (lowerFirst source parts).getD (otherExpr source .satisfiesExpression span)
    | .nonNullExpression =>
      (lowerFirst source parts).getD (otherExpr source .nonNullExpression span)
    | kind => otherExpr source kind span
  | .error span _ => .other "ERROR" (span.text source)
  | .missing label _ => .other label.kind.name ""

def lowerValues (source : List Char) : List Tree → List Expr
  | [] => []
  | t :: ts =>
    if t.isTrivial then lowerValues source ts
    else lowerExpr source t :: lowerValues source ts

def lowerFirst (source : List Char) : List Tree → Option Expr
  | [] => none
  | t :: ts => if t.isTrivial then lowerFirst source ts else some (lowerExpr source t)

def lowerRole (source : List Char) (role : Role) : List Tree → Option Expr
  | [] => none
  | t :: ts => if t.hasRole role then some (lowerExpr source t) else lowerRole source role ts

def lowerArguments (source : List Char) : List Tree → List Expr
  | [] => []
  | .node label _ parts :: ts =>
    if label.role = .arguments then lowerValues source parts
    else lowerArguments source ts
  | _ :: ts => lowerArguments source ts

def lowerFunction (source : List Char) : List Tree → FunctionBody Expr
  | [] => .block []
  | .node label span parts :: ts =>
    if label.role = .body then
      if label.kind = .statementBlock then .block (lowerStatements source parts)
      else .expression (lowerExpr source (.node label span parts))
    else lowerFunction source ts
  | _ :: ts => lowerFunction source ts

def lowerStatements (source : List Char) : List Tree → List (Statement Expr)
  | [] => []
  | .node label _ parts :: ts =>
    if label.kind = .comment || label.kind = .punctuation then lowerStatements source ts
    else if label.kind = .returnStatement then
      .return (lowerFirst source parts) :: lowerStatements source ts
    else .other :: lowerStatements source ts
  | _ :: ts => .other :: lowerStatements source ts

/--
The entries of an object; `pending` holds the comments since the last entry, in reverse.
-/
def lowerEntries (source : List Char) (pending : List Comment) :
    List Tree → List (Entry Expr)
  | [] => []
  | .node label span parts :: ts =>
    match label.kind with
    | .comment => lowerEntries source (Comment.ofSource (span.slice source) :: pending) ts
    | .pair =>
      match keyOf? source parts, lowerRole source .value parts with
      | some key, some value =>
        ⟨key, value, (valueTextOf? source parts).getD "", pending.reverse⟩
          :: lowerEntries source [] ts
      | _, _ => lowerEntries source [] ts
    | .methodDefinition =>
      match keyOf? source parts with
      | some key =>
        ⟨key, .function (lowerFunction source parts), span.text source, pending.reverse⟩
          :: lowerEntries source [] ts
      | none => lowerEntries source [] ts
    | .shorthand =>
      let name := span.text source
      ⟨name, .identifier name, name, pending.reverse⟩ :: lowerEntries source [] ts
    -- A spread is no entry, but the comments in front of it are its own.
    | .spreadElement => lowerEntries source [] ts
    | _ => lowerEntries source pending ts
  | _ :: ts => lowerEntries source pending ts

end

def defaultExportOf (source : List Char) : List Tree → Option Expr
  | [] => none
  | t :: ts =>
    if t.kind? = some .exportDefault then lowerRole source .value t.children
    else defaultExportOf source ts

/--
The default export of a script, absent if there is none. A script outside its grammar is refused.
-/
def parseModule (dialect : Dialect) (text : String) : Except Problem (Option Expr) :=
  let source := text.toList
  let tree := parseProgram dialect source
  match tree.firstFault with
  | some offset =>
    let position := Position.of source offset
    .error (.parse .script position.line position.column)
  | none => .ok (defaultExportOf source tree.children)

end ComponentDoc.Script
