import ComponentDoc.Script.Element

/-!
Expressions: operands with accesses and calls behind them, operators before and between them,
conditions, assignments and arrow functions.
-/

namespace ComponentDoc.Script

open ComponentDoc.Script.Parser

namespace Rules

variable (r : Rules)

def arrowBody (start : Nat) (context : Context) : Parser Tree := do
  if ← atPunctuator "\x7b" then
    let body ← r.functionBody
    node .arrowFunction start [body]
  else
    let body ← r.expression context
    node .arrowFunction start [body.withRole .body]

def arrowHead (context : Context) : Parser Unit := do
  if r.dialect.hasTypes then
    r.typeParameters
    r.parameters
    if context.returnType then
      r.returnType
  else
    r.parameters
  expect "=>"

def parenthesized : Parser Tree := do
  let c ← atOperand
  expect "("
  let front ← comments
  let value ← r.expressions {}
  if r.dialect.hasTypes then
    r.typeMark
  expect ")"
  node .parenthesized c.offset (front ++ [value])

def parenthesizedOrArrow (context : Context) : Parser Tree := do
  let c ← atOperand
  match ← optional (r.arrowHead context) with
  | some _ => r.arrowBody c.offset context
  | none => r.parenthesized

def patternAssignment (start : Nat) (context : Context) : Parser Tree := do
  r.pattern
  expect "="
  let value ← r.expression context
  node .assignmentExpression start [value]

/--
An object or array literal, or an assignment to a pattern of that form.
-/
def bracketed (literal : Parser Tree) (context : Context) : Parser Tree := do
  let c ← atOperand
  let plain : Parser Tree := do
    let t ← literal
    -- In front of an equals sign this was no literal but a pattern.
    if ← atPunctuator "=" then
      unexpected
    return t
  orRetry plain (r.patternAssignment c.offset context)

def leafWord (kind : Kind) : Parser Tree := do
  let c ← atOperand
  leafAt kind c (wordLength c.rest)

def nameOrArrow (context : Context) : Parser Tree := do
  let c ← atOperand
  let name ← leafWord .identifier
  if ← eat "=>" then
    r.arrowBody c.offset context
  else
    return name

def asyncExpression (context : Context) : Parser Tree := do
  let c ← atOperand
  let (p, w) ← afterWord
  if w == "function" then
    let _ ← anyWord
    let _ ← anyWord
    r.functionTail c.offset false
  else if w != "" then
    let head : Parser Unit := do
      let _ ← anyWord
      let _ ← anyWord
      expect "=>"
    arrowOrName c.offset head
  else if p == "(" || (r.dialect.hasTypes && p == "<") then
    arrowOrName c.offset do
      let _ ← anyWord
      r.arrowHead context
  else
    r.nameOrArrow context
where
  arrowOrName (start : Nat) (head : Parser Unit) : Parser Tree := do
    match ← optional head with
    | some _ => r.arrowBody start context
    | none => r.nameOrArrow context

def newExpression : Parser Tree := do
  let c ← atOperand
  expectWord "new"
  if ← eat "." then
    expectWord "target"
    node .metaProperty c.offset []
  else
    let callee ← r.constructed
    if r.dialect.hasTypes && (← atChar '<') then
      let _ ← optional r.typeArguments
    if ← atPunctuator "(" then
      let arguments ← r.callArguments
      node .newExpression c.offset [callee, arguments]
    else
      node .newExpression c.offset [callee]

def importExpression : Parser Tree := do
  let c ← atOperand
  let keyword ← leafWord .importKeyword
  if (← eat ".") then
    expectWord "meta"
    node .metaProperty c.offset []
  else if ← atPunctuator "(" then
    return keyword
  else
    unexpected

def wordOperand (w : String) (context : Context) : Parser Tree := do
  let c ← atOperand
  match w with
  | "function" =>
    let _ ← anyWord
    r.functionTail c.offset false
  | "class" =>
    let _ ← anyWord
    r.classTail c.offset false .class_
  | "async" => r.asyncExpression context
  | "new" =>
    if r.dialect.hasTypes then orElse r.newExpression (r.nameOrArrow context)
    else r.newExpression
  | "import" => importExpression
  | "this" => leafWord .this
  | "super" => leafWord .super
  | "true" => leafWord .trueLiteral
  | "false" => leafWord .falseLiteral
  | "null" => leafWord .null
  | "undefined" => leafWord .undefined
  | _ => r.nameOrArrow context

def primary (context : Context) : Parser Tree := do
  let c ← atOperand
  set c
  match c.rest with
  | '(' :: _ => r.parenthesizedOrArrow context
  | '[' :: _ => r.bracketed r.arrayLiteral context
  | '{' :: _ => r.bracketed r.objectLiteral context
  | '"' :: _ => stringLiteral
  | '\'' :: _ => stringLiteral
  | '`' :: _ => r.templateString
  | '/' :: _ =>
    match regexLength? c.rest with
    | some n => leafAt .regex c n
    | none => unexpected
  | '<' :: _ =>
    if r.dialect.hasTypes then
      match ← optional (r.arrowHead context) with
      | some _ => r.arrowBody c.offset context
      | none => r.element
    else
      r.element
  | '@' :: _ =>
    r.decorators
    expectWord "class"
    r.classTail c.offset false .class_
  | '#' :: _ =>
    -- A private name can only be looked for in an object.
    let name ← r.propertyName
    if ← atWord "in" then return name else unexpected
  | cs =>
    let n := numberLength cs
    if n > 0 then
      leafAt .number c n
    else
      let w ← peekWordAt c
      if w == "" then unexpected else r.wordOperand w context
where
  peekWordAt (c : Cursor) : Parser String :=
    return ((word? c).map Prod.fst).getD ""

def call (start : Nat) (callee : Tree) : Parser Tree := do
  let arguments ← r.callArguments
  node .callExpression start [callee.withRole .callee, arguments.withRole .arguments]

def taggedTemplate (start : Nat) (callee : Tree) : Parser Tree := do
  let template ← r.templateString
  node .callExpression start [callee.withRole .callee, template.withRole .arguments]

def member (start : Nat) (object : Tree) : Parser Tree := do
  let c ← atLexeme
  match c.rest with
  | '#' :: _ =>
    let _ ← r.propertyName
  | _ =>
    let _ ← anyWord
  node .memberExpression start [object]

def subscript (start : Nat) (object : Tree) : Parser Tree := do
  expect "["
  let index ← r.expressions {}
  expect "]"
  node .subscriptExpression start [object, index]

/--
Type arguments behind an operand. What follows them must not be an operand, since then the angle
brackets are operators.
-/
def trailingTypeArguments : Parser Unit := do
  r.typeArguments
  let p ← peekPunctuator
  let w ← peekWord
  if w != "" then
    if !(["as", "satisfies", "instanceof", "in", "of", "extends", "implements"].contains w
        || (← afterLineBreak)) then
      unexpected
  else if ["\x7b", "[", "<", "+", "-", "!", "~", "/", "@"].contains p then
    unexpected
  else
    let c ← atLexeme
    if (c.peek?.map (fun x => x = '"' || x = '\'' || x.isDigit)).getD false then
      unexpected

def instantiated (start : Nat) (callee : Tree) : Parser Tree := do
  match ← peekPunctuator with
  | "(" => r.call start callee
  | "`" => r.taggedTemplate start callee
  | _ => node .instantiation start [callee]

/--
What can stand behind an operand: accesses, calls and marks. `calls` says whether calls are
among them.
-/
def trailers (calls : Bool) (context : Context) (start : Nat) (first : Tree) : Parser Tree :=
  repeated
    (fun (t : Tree) => do
      if context.semicolon && (← semicolonOmitted r.dialect {}) then
        return .inr t
      match ← peekPunctuator with
      | "." =>
        expect "."
        return .inl (← r.member start t)
      | "?." =>
        if !calls then
          return .inr t
        expect "?."
        if ← atPunctuator "(" then
          return .inl (← r.call start t)
        else if ← atPunctuator "[" then
          return .inl (← r.subscript start t)
        else if r.dialect.hasTypes && (← atChar '<') then
          r.typeArguments
          return .inl (← r.call start t)
        else
          return .inl (← r.member start t)
      | "[" => return .inl (← r.subscript start t)
      | "(" => if calls then return .inl (← r.call start t) else return .inr t
      | "`" => if calls then return .inl (← r.taggedTemplate start t) else return .inr t
      | "!" =>
        if r.dialect.hasTypes then
          expect "!"
          return .inl (← node .nonNullExpression start [t])
        else
          return .inr t
      | "<" | "<<" =>
        if r.dialect.hasTypes && calls then
          match ← optional r.trailingTypeArguments with
          | some _ => return .inl (← r.instantiated start t)
          | none => return .inr t
        else
          return .inr t
      | _ => return .inr t)
    first

def constructedRule : Parser Tree := do
  let c ← atOperand
  let t ← r.primary {}
  r.trailers false {} c.offset t

def isAssignable (t : Tree) : Bool :=
  match t.kind? with
  | some .identifier => true
  | some .memberExpression => true
  | some .subscriptExpression => true
  | some .parenthesized => true
  | some .nonNullExpression => true
  | some .undefined => true
  | _ => false

def assignmentOperators : List String :=
  ["+=", "-=", "*=", "/=", "%=", "^=", "&=", "|=", ">>=", ">>>=", "<<=", "**=", "&&=", "||=",
    "??="]

def suffixed (context : Context) : Parser Tree := do
  let c ← atOperand
  let first ← r.primary context
  -- An arrow function whose body is an expression has already taken in what follows it.
  let bare := first.kind? = some .arrowFunction && (first.children.map Tree.kind?) !=
    [some .statementBlock]
  if bare || first.kind? = some .assignmentExpression then
    return first
  let t ← r.trailers true context c.offset first
  if context.semicolon && (← semicolonOmitted r.dialect {}) then
    return t
  let p ← peekPunctuator
  if p == "++" || p == "--" then
    expect p
    node .updateExpression c.offset [t]
  else if p == "=" && isAssignable t then
    expect p
    let value ← r.expression context
    node .assignmentExpression c.offset [t, value]
  else if assignmentOperators.contains p && isAssignable t then
    expect p
    let value ← r.expression context
    node .augmentedAssignment c.offset [t, value]
  else
    return t

def startsOperand : Parser Bool := do
  let c ← atLexeme
  let p := punctuator c.rest
  return !c.atEnd && !([")", "]", "\x7d", ",", ";", ":", "=", "=>", "?", ".", "*"].contains p)

def yieldTail (start : Nat) (context : Context) : Parser Tree := do
  if ← eat "*" then
    let value ← r.expression context
    node .yieldExpression start [value]
  else
    let ended ← if context.semicolon then semicolonOmitted r.dialect { operator := false }
      else pure false
    let w ← peekWord
    if !ended && (← startsOperand) && w != "in" && w != "of" then
      let value ← r.expression context
      node .yieldExpression start [value]
    else
      node .yieldExpression start []

def frontOperator : Parser (Option (Kind × Cursor)) := do
  let c ← atOperand
  match punctuator c.rest with
  | "!" | "~" | "-" | "+" => return some (.unaryExpression, c.advance 1)
  | "!=" | "-=" | "+=" | "!==" => return none
  | "++" | "--" => return some (.updateExpression, c.advance 2)
  | _ =>
    match word? c with
    | some ("typeof", d) | some ("void", d) | some ("delete", d) =>
      return some (.unaryExpression, d)
    | some ("await", d) => return some (.awaitExpression, d)
    | _ => return none

def assertedType (context : Context) : Parser Bool := do
  let c ← atOperand
  if r.dialect = .typeScript && c.peek? = some '<' then
    set c
    if ← succeeds (r.arrowHead context) then
      return false
    r.typeArguments
    return true
  else
    return false

/--
Wrap an operand into the operators in front of it, the innermost first.
-/
def wrapOperators (t : Tree) : List (Kind × Nat) → Parser Tree
  | [] => return t
  | (kind, start) :: rest => do
    wrapOperators (← node kind start [t]) rest

def operand (context : Context) : Parser Tree :=
  repeated
    (fun (operators : List (Kind × Nat)) => do
      let c ← atOperand
      match ← frontOperator with
      | some (kind, d) =>
        set d
        return .inl ((kind, c.offset) :: operators)
      | none =>
        if ← r.assertedType context then
          return .inl ((.typeAssertion, c.offset) :: operators)
        match word? c with
        | some ("yield", d) =>
          set d
          return .inr (← wrapOperators (← r.yieldTail c.offset context) operators)
        | _ => return .inr (← wrapOperators (← r.suffixed context) operators))
    []

def precedence : String → Nat
  | "**" => 12
  | "*" => 11
  | "/" => 11
  | "%" => 11
  | "+" => 10
  | "-" => 10
  | "<<" => 9
  | ">>" => 9
  | ">>>" => 9
  | "<" => 8
  | "<=" => 8
  | ">" => 8
  | ">=" => 8
  | "==" => 7
  | "!=" => 7
  | "===" => 7
  | "!==" => 7
  | "&" => 6
  | "^" => 5
  | "|" => 4
  | "&&" => 3
  | "||" => 2
  | "??" => 1
  | _ => 0

def wordPrecedence : Nat :=
  8

/--
Operands that wait for the operator behind them to be read, the innermost first, with the
precedence of the operator between each and the next.
-/
abbrev Pending := List (Tree × Nat)

/--
Join the pending operands whose operator binds at least as strongly as `level`.
-/
def joinPending (level : Nat) : Pending → Tree → Pending × Tree
  | [], t => ([], t)
  | (left, p) :: rest, t =>
    if p ≥ level then
      joinPending level rest
        (.node ⟨.binaryExpression, .plain⟩ ⟨left.span.start, t.span.stop⟩ [left, t])
    else ((left, p) :: rest, t)

/--
Operands with operators between them. A type can follow an operand behind `as` or `satisfies`.
-/
def binary (context : Context) : Parser Tree := do
  let first ← r.operand context
  repeated
    (fun (state : Pending × Tree) => do
      let (pending, t) := state
      let done := (joinPending 0 pending t).2
      if context.semicolon && (← semicolonOmitted r.dialect {}) then
        return .inr done
      let p ← peekPunctuator
      let level := precedence p
      if level > 0 then
        expect p
        -- The power operator groups to the right.
        let (pending, left) := joinPending (if p == "**" then level + 1 else level) pending t
        let right ← r.operand context
        return .inl ((left, level) :: pending, right)
      else
        match ← peekWord with
        | "in" | "instanceof" =>
          let _ ← anyWord
          let (pending, left) := joinPending wordPrecedence pending t
          let right ← r.operand context
          return .inl ((left, wordPrecedence) :: pending, right)
        | "as" =>
          if r.dialect.hasTypes then
            let _ ← anyWord
            let (pending, left) := joinPending wordPrecedence pending t
            if ← atWord "const" then
              expectWord "const"
            else
              r.type
            return .inl (pending, ← node .asExpression left.span.start [left])
          else
            return .inr done
        | "satisfies" =>
          if r.dialect.hasTypes then
            let _ ← anyWord
            let (pending, left) := joinPending wordPrecedence pending t
            r.type
            return .inl (pending, ← node .satisfiesExpression left.span.start [left])
          else
            return .inr done
        | _ => return .inr done)
    ([], first)

def branches (inner context : Context) : Parser (Tree × Tree) := do
  let yes ← r.expression inner
  expect ":"
  let no ← r.expression context
  return (yes, no)

/--
The two branches of a condition where a colon may also start the return type of a function: it
does if the branches cannot be told apart otherwise, or if a colon is left over behind them.
-/
def typedBranches (context : Context) : Parser (Tree × Tree) := do
  let c ← get
  let plain ← orElse (r.branches { returnType := false } context) (r.branches {} context)
  if ← atPunctuator ":" then
    let d ← get
    set c
    match ← optional (r.branches {} context) with
    | some typed => return typed
    | none =>
      set d
      return plain
  else
    return plain

def expressionRule (context : Context) : Parser Tree := do
  let c ← atOperand
  let t ← r.binary context
  if t.kind? = some .arrowFunction || t.kind? = some .assignmentExpression then
    return t
  if ← atPunctuator "?" then
    expect "?"
    let (yes, no) ← if r.dialect.hasTypes then r.typedBranches context else r.branches {} context
    node .ternaryExpression c.offset [t, yes, no]
  else
    return t

end Rules

end ComponentDoc.Script
