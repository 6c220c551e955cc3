import ComponentDoc.Script.Expression

/-!
Declarations: variables, functions, classes, and those of the typed dialects.
-/

namespace ComponentDoc.Script

open ComponentDoc.Script.Parser

namespace Rules

variable (r : Rules)

def declarator : Parser Bool := do
  r.pattern
  if r.dialect.hasTypes then
    let _ ← eat "!"
    r.typeMark
  if ← eat "=" then
    let _ ← r.expression { semicolon := true }
    return true
  else
    return false

def declarators : Parser Unit := do
  let valued ← commaSeparated r.declarator
  semicolon r.dialect { operator := valued.getLast?.getD false }

def variableDeclaration (kind : Kind) : Parser Tree := do
  let c ← atOperand
  let _ ← anyWord
  r.declarators
  node kind c.offset []

def functionSignature (start : Nat) : Parser Tree := do
  let _ ← anyWord
  r.callSignature
  if ← atPunctuator "\x7b" then
    unexpected
  semicolon r.dialect { operator := false, functionBody := true }
  node .functionSignature start []

def functionDeclaration : Parser Tree := do
  let c ← atOperand
  let _ ← eatWord "async"
  expectWord "function"
  if r.dialect.hasTypes then
    orElse (r.functionTail c.offset true) (r.functionSignature c.offset)
  else
    r.functionTail c.offset true

def dottedName : Parser Unit := do
  let _ ← anyWord
  repeated
    (fun (_ : Unit) => do
      if ← eat "." then
        let _ ← anyWord
        return .inl ()
      else
        return .inr ())
    ()

def interfaceDeclaration : Parser Tree := do
  let c ← atOperand
  expectWord "interface"
  let _ ← anyWord
  r.typeParameters
  if ← eatWord "extends" then
    let _ ← commaSeparated (r.typeName)
  r.objectType
  node .interfaceDeclaration c.offset []

def enumDeclaration : Parser Tree := do
  let c ← atOperand
  let _ ← eatWord "const"
  expectWord "enum"
  let _ ← anyWord
  expect "\x7b"
  let _ ← commaList (do
    let _ ← r.propertyName
    r.defaultValue) "\x7d"
  node .enumDeclaration c.offset []

def typeAlias : Parser Tree := do
  let c ← atOperand
  expectWord "type"
  let _ ← anyWord
  r.typeParameters
  expect "="
  r.type
  semicolon r.dialect { operator := false }
  node .typeAliasDeclaration c.offset []

def moduleDeclaration (kind : Kind) : Parser Tree := do
  let c ← atOperand
  let _ ← anyWord
  let d ← atLexeme
  match d.rest with
  | '"' :: _ =>
    let _ ← stringLiteral
  | '\'' :: _ =>
    let _ ← stringLiteral
  | _ => dottedName
  if ← atPunctuator "\x7b" then
    let _ ← r.statementBlock
  node kind c.offset []

def classDeclaration (start : Nat) : Parser Tree := do
  if r.dialect.hasTypes && (← eatWord "abstract") then
    expectWord "class"
    r.classTail start true .abstractClassDeclaration
  else
    expectWord "class"
    r.classTail start true .classDeclaration

def typedDeclaration (w : String) : Parser Tree := do
  let c ← atOperand
  match w with
  | "interface" => r.interfaceDeclaration
  | "enum" => r.enumDeclaration
  | "type" => r.typeAlias
  | "namespace" => r.moduleDeclaration .internalModule
  | "module" => r.moduleDeclaration .module_
  | "abstract" => r.classDeclaration c.offset
  | "declare" =>
    let _ ← anyWord
    if (← atWord "global") && (← afterWord).1 == "\x7b" then
      let _ ← anyWord
      let _ ← r.statementBlock
    else
      let _ ← r.statement
    node .ambientDeclaration c.offset []
  | "import" =>
    let _ ← anyWord
    let _ ← anyWord
    expect "="
    dottedName
    semicolon r.dialect { operator := false }
    node .importAlias c.offset []
  | _ => unexpected

def declaration : Parser Tree := do
  let c ← atOperand
  if punctuator c.rest == "@" then
    r.decorators
    r.classDeclaration c.offset
  else
    let w := ((word? c).map Prod.fst).getD ""
    let next := (← afterWord).2
    match w with
    | "var" => r.variableDeclaration .variableDeclaration
    | "let" => r.variableDeclaration .lexicalDeclaration
    | "const" =>
      if r.dialect.hasTypes && next == "enum" then
        r.enumDeclaration
      else
        r.variableDeclaration .lexicalDeclaration
    | "function" => r.functionDeclaration
    | "async" => if next == "function" then r.functionDeclaration else unexpected
    | "class" => r.classDeclaration c.offset
    | _ => if r.dialect.hasTypes then r.typedDeclaration w else unexpected

end Rules

end ComponentDoc.Script
