import ComponentDoc.Script.Declaration

/-!
Statements.
-/

namespace ComponentDoc.Script

open ComponentDoc.Script.Parser

namespace Rules

variable (r : Rules)

def plainStatement (start : Nat) : Parser Tree :=
  node .statement start []

def head : Parser Unit := do
  let _ ← r.parenthesized

def fromClause : Parser Unit := do
  expectWord "from"
  let _ ← stringLiteral

def moduleName : Parser Unit := do
  let c ← atLexeme
  match c.rest with
  | '"' :: _ =>
    let _ ← stringLiteral
  | '\'' :: _ =>
    let _ ← stringLiteral
  | _ =>
    let _ ← anyWord

def specifier : Parser Unit := do
  if r.dialect.hasTypes then
    let w ← peekWord
    if w == "type" || w == "typeof" then
      let (_, v) ← afterWord
      if v != "" && v != "as" then
        let _ ← anyWord
  moduleName
  if ← eatWord "as" then
    moduleName

def specifiers : Parser Unit := do
  expect "\x7b"
  let _ ← commaList r.specifier "\x7d"

def importClause : Parser Unit := do
  let named : Parser Unit := do
    if ← eat "*" then
      expectWord "as"
      let _ ← anyWord
    else
      r.specifiers
  if (← atPunctuator "*") || (← atPunctuator "\x7b") then
    named
  else
    let _ ← anyWord
    if ← eat "," then
      named

def importStatement : Parser Tree := do
  let c ← atOperand
  expectWord "import"
  let d ← atLexeme
  let isString := (d.peek?.map (fun x => x = '"' || x = '\'')).getD false
  if isString then
    let _ ← stringLiteral
  else
    if r.dialect.hasTypes then
      let w ← peekWord
      if w == "type" || w == "typeof" then
        let (p, v) ← afterWord
        if p == "\x7b" || p == "*" || (v != "" && v != "from") then
          let _ ← anyWord
    let required : Parser Unit := do
      let _ ← anyWord
      expect "="
      expectWord "require"
      expect "("
      let _ ← stringLiteral
      expect ")"
    let ordinary : Parser Unit := do
      r.importClause
      fromClause
    if r.dialect.hasTypes then
      orElse ordinary required
    else
      ordinary
  if ← eatWord "with" then
    let _ ← r.objectLiteral
  semicolon r.dialect { operator := false }
  plainStatement c.offset

def exportDefault (start : Nat) : Parser Tree := do
  let value : Parser Tree := do
    let v ← r.expression { semicolon := true }
    semicolon r.dialect {}
    return v
  let v ← orElse r.declaration value
  node .exportDefault start [v.withRole .value]

def exportTail (start : Nat) : Parser Tree := do
  let p ← peekPunctuator
  if p == "*" then
    expect "*"
    if ← eatWord "as" then
      moduleName
    fromClause
    semicolon r.dialect { operator := false }
    plainStatement start
  else if p == "\x7b" then
    r.specifiers
    if ← atWord "from" then
      fromClause
    semicolon r.dialect { operator := false }
    plainStatement start
  else if r.dialect.hasTypes && p == "=" then
    expect "="
    let _ ← r.expression { semicolon := true }
    semicolon r.dialect {}
    plainStatement start
  else
    let w ← peekWord
    let (q, v) ← afterWord
    if r.dialect.hasTypes && w == "type" && q == "\x7b" then
      let _ ← anyWord
      r.specifiers
      if ← atWord "from" then
        fromClause
      semicolon r.dialect { operator := false }
      plainStatement start
    else if r.dialect.hasTypes && w == "as" && v == "namespace" then
      let _ ← anyWord
      let _ ← anyWord
      let _ ← anyWord
      semicolon r.dialect { operator := false }
      plainStatement start
    else
      let _ ← r.declaration
      plainStatement start

def exportStatement (start : Nat) : Parser Tree := do
  expectWord "export"
  if ← eatWord "default" then
    r.exportDefault start
  else
    r.exportTail start

def iterationHead : Parser Unit := do
  expect "("
  let w ← peekWord
  if w == "var" || w == "let" || w == "const" then
    let (p, v) ← afterWord
    if p == "[" || p == "\x7b" || (v != "" && v != "in" && v != "of") then
      let _ ← anyWord
  r.pattern
  if w == "var" then
    r.defaultValue
  if !(← eatWord "in") then
    expectWord "of"
  let _ ← r.expressions {}
  expect ")"

def counterHead : Parser Unit := do
  expect "("
  let w ← peekWord
  if w == "var" || w == "let" || w == "const" then
    let _ ← anyWord
    let _ ← commaSeparated r.declarator
    expect ";"
  else if !(← eat ";") then
    let _ ← r.expressions {}
    expect ";"
  if !(← eat ";") then
    let _ ← r.expressions {}
    expect ";"
  if !(← eat ")") then
    let _ ← r.expressions {}
    expect ")"

def forStatement : Parser Unit := do
  expectWord "for"
  let _ ← eatWord "await"
  orElse r.iterationHead r.counterHead
  let _ ← r.statement

def switchStatement : Parser Unit := do
  expectWord "switch"
  r.head
  expect "\x7b"
  repeated
    (fun (inCase : Bool) => do
      if ← eat "\x7d" then
        return .inr ()
      else if (← atWord "default") && (← afterWord).1 == ":" then
        expectWord "default"
        expect ":"
        return .inl true
      else if ← atWord "case" then
        expectWord "case"
        let _ ← r.expressions {}
        expect ":"
        return .inl true
      else if inCase then
        let _ ← r.statement
        return .inl true
      else
        unexpected)
    false

def tryStatement : Parser Unit := do
  expectWord "try"
  let _ ← r.statementBlock
  if ← eatWord "catch" then
    if ← eat "(" then
      r.pattern
      if r.dialect.hasTypes then
        r.typeMark
      expect ")"
    let _ ← r.statementBlock
  if ← eatWord "finally" then
    let _ ← r.statementBlock

/--
A return statement. What follows a line break is not returned.
-/
def returnStatement : Parser Tree := do
  let c ← atOperand
  expectWord "return"
  if (← atPunctuator ";") || (← semicolonOmitted r.dialect { operator := false }) then
    semicolon r.dialect { operator := false }
    node .returnStatement c.offset []
  else
    let value ← r.expressions { semicolon := true }
    semicolon r.dialect {}
    node .returnStatement c.offset [value]

def jump : Parser Unit := do
  let _ ← anyWord
  if !((← atPunctuator ";") || (← semicolonOmitted r.dialect { operator := false })) then
    let _ ← anyWord
  semicolon r.dialect { operator := false }

def expressionStatement : Parser Unit := do
  let _ ← r.expressions { semicolon := true }
  semicolon r.dialect {}

/--
The words that start an expression of their own, and so are no labels.
-/
def operandWords : List String :=
  ["this", "super", "true", "false", "null", "undefined", "typeof", "void", "delete", "await",
    "yield", "import"]

def labelled : Parser Unit := do
  if operandWords.contains (← anyWord) then
    unexpected
  expect ":"
  let _ ← r.statement

def declarationWords : List String :=
  ["var", "const"] ++ (if r.dialect.hasTypes then ["interface", "enum", "abstract"] else [])

/--
The words that start a declaration, and can also be names.
-/
def sharedWords : List String :=
  "let" :: (if r.dialect.hasTypes then ["type", "namespace", "module", "declare"] else [])

def atNamed : Parser Bool :=
  succeeds do
    let _ ← eatWord "async"
    if !(← eatWord "class") then
      expectWord "function"
      let _ ← eat "*"
    let w ← anyWord
    if w == "extends" || (w == "implements" && r.dialect.hasTypes) then
      unexpected

def wordStatement (w : String) : Parser Tree := do
  let c ← atOperand
  let plain (p : Parser Unit) : Parser Tree := do
    p
    plainStatement c.offset
  let (next, _) ← afterWord
  match w with
  | "export" => r.exportStatement c.offset
  | "import" =>
    if next == "(" || next == "." then
      plain r.expressionStatement
    else if r.dialect.hasTypes then
      orElse r.importStatement (plain (do let _ ← r.typedDeclaration "import"))
    else
      r.importStatement
  | "if" => plain do
    expectWord "if"
    r.head
    let _ ← r.statement
    if ← eatWord "else" then
      let _ ← r.statement
  | "switch" => plain r.switchStatement
  | "for" => plain r.forStatement
  | "while" => plain do
    expectWord "while"
    r.head
    let _ ← r.statement
  | "do" => plain do
    expectWord "do"
    let _ ← r.statement
    expectWord "while"
    r.head
    let _ ← eat ";"
  | "with" => plain do
    expectWord "with"
    r.head
    let _ ← r.statement
  | "try" => plain r.tryStatement
  | "break" => plain r.jump
  | "continue" => plain r.jump
  | "debugger" => plain do
    expectWord "debugger"
    semicolon r.dialect { operator := false }
  | "return" => r.returnStatement
  | "throw" => plain do
    expectWord "throw"
    let _ ← r.expressions { semicolon := true }
    semicolon r.dialect {}
  | _ =>
    if r.declarationWords.contains w || (← r.atNamed) then
      plain (do let _ ← r.declaration)
    else if next == ":" && w != "function" && w != "class" then
      plain r.labelled
    else if r.sharedWords.contains w then
      orElse (plain (do let _ ← r.declaration)) (plain r.expressionStatement)
    else
      plain r.expressionStatement

def statementRule : Parser Tree := do
  let c ← atOperand
  set c
  match punctuator c.rest with
  | "\x7b" =>
    let _ ← r.statementBlock
    plainStatement c.offset
  | ";" =>
    expect ";"
    plainStatement c.offset
  | "@" =>
    r.decorators
    if ← atWord "export" then
      r.exportStatement c.offset
    else
      let _ ← r.classDeclaration c.offset
      plainStatement c.offset
  | _ =>
    match word? c with
    | some (w, _) => r.wordStatement w
    | none =>
      r.expressionStatement
      plainStatement c.offset

end Rules

end ComponentDoc.Script
