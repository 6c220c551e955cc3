import ComponentDoc.Script.Binding

/-!
Literals: template strings, arrays, objects with their entries and comments, and the functions
and classes that can stand in them.
-/

namespace ComponentDoc.Script

open ComponentDoc.Script.Parser

namespace Rules

variable (r : Rules)

def expressions (context : Context) : Parser Tree := do
  let c ← atOperand
  let first ← r.expression context
  if ← atPunctuator "," then
    let rest ← repeated
      (fun (items : List Tree) => do
        if ← eat "," then
          return .inl ((← r.expression context) :: items)
        else
          return .inr items.reverse)
      [first]
    node .sequenceExpression c.offset rest
  else
    return first

def templateParts : Parser (List Tree) :=
  repeated
    (fun (parts : List Tree) => do
      let c ← get
      match c.rest with
      | [] => unexpected
      | '`' :: _ =>
        set (c.advance 1)
        return .inr parts.reverse
      | '$' :: '{' :: _ =>
        set (c.advance 2)
        let value ← r.expressions {}
        expect "\x7d"
        return .inl ((← node .templateSubstitution c.offset [value]) :: parts)
      | '\\' :: _ =>
        match escapeLength? c.rest with
        | some n => return .inl ((← leafAt .escapeSequence c n) :: parts)
        | none => unexpected
      | cs =>
        let n := templateRun cs
        if n = 0 then unexpected else return .inl ((← leafAt .stringFragment c n) :: parts))
    []

def templateString : Parser Tree := do
  let c ← atOperand
  match c.rest with
  | '`' :: _ =>
    set (c.advance 1)
    node .templateString c.offset (← r.templateParts)
  | _ => unexpected

def spreadable : Parser Tree := do
  let c ← atOperand
  if punctuator c.rest == "..." then
    set (c.advance 3)
    let value ← r.expression {}
    node .spreadElement c.offset [value]
  else
    r.expression {}

/--
The items of an array or of a call and the comments between them, up to the closing punctuator,
which is read too. Items may be left out.
-/
def items (close : String) : Parser (List Tree) :=
  repeated
    (fun (items : List Tree) => do
      let items := (← comments).reverse ++ items
      if ← eat close then
        return .inr items.reverse
      else if ← eat "," then
        return .inl items
      else
        let item ← r.spreadable
        if (← atPunctuator ",") || (← atPunctuator close) then
          return .inl (item :: items)
        else
          unexpected)
    []

def arrayLiteral : Parser Tree := do
  let c ← atOperand
  expect "["
  node .array c.offset (← r.items "]")

def callArguments : Parser Tree := do
  let c ← atLexeme
  expect "("
  node .arguments c.offset (← r.items ")")

/--
A block of statements in braces, with the comments between them.
-/
def statementBlock : Parser Tree := do
  let c ← atLexeme
  expect "\x7b"
  let children ← repeated
    (fun (items : List Tree) => do
      let items := (← comments).reverse ++ items
      if ← eat "\x7d" then
        return .inr items.reverse
      else
        return .inl ((← r.statement) :: items))
    []
  node .statementBlock c.offset children

def functionBody : Parser Tree := do
  return (← r.statementBlock).withRole .body

def methodTail (start : Nat) : Parser Tree := do
  let name ← r.propertyName
  if r.dialect.hasTypes then
    let _ ← eat "?"
  r.callSignature
  let body ← r.functionBody
  node .methodDefinition start [name.withRole .key, body]

/--
The value of an entry behind its colon. Where none stands it is missing right there.
-/
def entryValue : Parser Tree := do
  let c ← get
  let p ← peekPunctuator
  if p == "," || p == "\x7d" then
    throw (.missing .identifier c.offset)
  else
    return (← r.expression {}).withRole .value

def objectEntry : Parser Tree := do
  let c ← atOperand
  let p := punctuator c.rest
  if p == "..." then
    r.spreadable
  else
    if p == "@" then
      r.decorators
    let marked ← atModifier r.methodModifiers
    let starred ← atPunctuator "*"
    if marked || starred || p == "@" then
      skipModifiers r.methodModifiers
      r.methodTail c.offset
    else
      let name ← r.propertyName
      let q ← peekPunctuator
      if q == ":" then
        expect ":"
        let value ← r.entryValue
        node .pair c.offset [name.withRole .key, value]
      else if q == "(" || (r.dialect.hasTypes && (q == "<" || q == "?")) then
        set c
        r.methodTail c.offset
      else if name.kind? = some .propertyName && !(c.peek? = some '#') then
        return .node ⟨.shorthand, .plain⟩ name.span []
      else
        unexpected

/--
An object literal. Comments and commas between the entries are children of their own.
-/
def objectLiteral : Parser Tree := do
  let c ← atOperand
  expect "\x7b"
  let children ← repeated
    (fun (items : List Tree) => do
      let items := (← comments).reverse ++ items
      let d ← get
      match punctuator d.rest with
      | "\x7d" =>
        set (d.advance 1)
        return .inr items.reverse
      | "," => return .inl ((← leafAt .punctuation d 1) :: items)
      | _ =>
        let entry ← r.objectEntry
        let q ← peekPunctuator
        if q == "," || q == "\x7d" then
          return .inl (entry :: items)
        else
          unexpected)
    []
  node .object c.offset children

/--
A function behind the word `function`: an optional star and name, then parameters and body. A
declaration has a name.
-/
def functionTail (start : Nat) (declaration : Bool) : Parser Tree := do
  let generator ← eat "*"
  if declaration then
    let _ ← anyWord
  else if (← peekWord) != "" then
    let _ ← anyWord
  r.callSignature
  let body ← r.functionBody
  let kind : Kind :=
    match generator, declaration with
    | true, true => .generatorFunctionDeclaration
    | true, false => .generatorFunction
    | false, true => .functionDeclaration
    | false, false => .functionExpression
  node kind start [body]

def classModifiers : List String :=
  r.methodModifiers ++ (if r.dialect.hasTypes then ["declare", "abstract", "accessor"] else [])

def classMemberTail : Parser Unit := do
  let index : Parser Unit := do
    expect "["
    r.bracketedKey
    let _ ← eat "?"
    r.typeMark
    semicolon r.dialect { operator := false }
  let method : Parser Unit := do
    let _ ← r.propertyName
    if r.dialect.hasTypes then
      if !(← eat "?") then
        let _ ← eat "!"
    if !((← atPunctuator "(") || (← atPunctuator "<")) then
      unexpected
    r.callSignature
    if ← atPunctuator "\x7b" then
      let _ ← r.statementBlock
    else if r.dialect.hasTypes then
      if !(← eat ",") then
        semicolon r.dialect { operator := false, functionBody := true }
    else
      unexpected
  let field : Parser Unit := do
    let _ ← r.propertyName
    if r.dialect.hasTypes then
      if !(← eat "?") then
        let _ ← eat "!"
      r.typeMark
    if ← eat "=" then
      let _ ← r.expression { semicolon := true }
      if !(r.dialect.hasTypes && (← eat ",")) then
        semicolon r.dialect {}
    else if !(r.dialect.hasTypes && (← eat ",")) then
      semicolon r.dialect { operator := false }
  if r.dialect.hasTypes && (← atPunctuator "[") then
    orElse index (orElse method field)
  else
    orElse method field

def classBody : Parser Unit := do
  expect "\x7b"
  repeated
    (fun (_ : Unit) => do
      if ← eat "\x7d" then
        return .inr ()
      else if ← eat ";" then
        return .inl ()
      else
        r.decorators
        if (← atWord "static") && (← afterWord).1 == "\x7b" then
          expectWord "static"
          let _ ← r.statementBlock
          return .inl ()
        skipModifiers r.classModifiers
        r.classMemberTail
        return .inl ())
    ()

def classHeritage : Parser Unit := do
  if ← eatWord "extends" then
    if r.dialect.hasTypes then
      let _ ← commaSeparated (do
        let _ ← r.expression {}
        if ← atChar '<' then
          r.typeArguments)
    else
      let _ ← r.expression {}
  if r.dialect.hasTypes && (← eatWord "implements") then
    let _ ← commaSeparated r.type

def classTail (start : Nat) (declaration : Bool) (kind : Kind) : Parser Tree := do
  let w ← peekWord
  if declaration then
    let _ ← anyWord
  else if w != "" && w != "extends" && !(w == "implements" && r.dialect.hasTypes) then
    let _ ← anyWord
  if r.dialect.hasTypes then
    r.typeParameters
  r.classHeritage
  r.classBody
  node kind start []

end Rules

end ComponentDoc.Script
