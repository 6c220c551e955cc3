import ComponentDoc.Script.Literal

/-!
Markup inside scripts: elements with attributes and children. An expression in braces may stand
for an attribute, a value or a child.
-/

namespace ComponentDoc.Script

open ComponentDoc.Script.Parser

namespace Rules

variable (r : Rules)

def markupNameLength (cs : List Char) : Nat :=
  match cs with
  | c :: _ =>
    if c.isDigit || c = '-' then 0
    else
      let n := wordRun 0 cs
      if n = 0 then 0
      else n + ((cs.drop n).takeWhile (fun x => x = '-' || isWordChar x)).length
  | [] => 0

def markupName : Parser Unit := do
  let part : Parser Unit := do
    let c ← atLexeme
    let n := markupNameLength c.rest
    if n = 0 then unexpected else set (c.advance n)
  part
  repeated
    (fun (_ : Unit) => do
      if (← eat ".") || (← eat ":") then
        part
        return .inl ()
      else
        return .inr ())
    ()

def markupExpression : Parser Unit := do
  expect "\x7b"
  if !(← eat "\x7d") then
    if ← atPunctuator "..." then
      let _ ← r.spreadable
    else
      let _ ← r.expressions {}
    expect "\x7d"

/--
A string in markup, which may run over several lines and has no escapes.
-/
def markupString : Parser Unit := do
  let c ← atLexeme
  match c.rest with
  | q :: _ =>
    if q = '"' || q = '\'' then
      let d := (c.advance 1).skipWhile (fun x => x != q && !isNull x)
      if d.peek? = some q then set (d.advance 1) else unexpected
    else unexpected
  | [] => unexpected

def markupAttributes : Parser Unit :=
  repeated
    (fun (_ : Unit) => do
      let c ← atLexeme
      match c.rest with
      | '{' :: _ =>
        r.markupExpression
        return .inl ()
      | cs =>
        if markupNameLength cs > 0 then
          markupName
          if ← eat "=" then
            let d ← atLexeme
            match d.rest with
            | '{' :: _ => r.markupExpression
            | '<' :: _ =>
              let _ ← r.element
            | _ => markupString
          return .inl ()
        else
          return .inr ())
    ()

def characterReferenceLength? : List Char → Option Nat
  | '&' :: '#' :: x :: rest =>
    let digits := if x = 'x' || x = 'X' then rest else x :: rest
    let n := (digits.takeWhile isHexDigit).length
    let skipped := if x = 'x' || x = 'X' then 3 else 2
    if n > 0 && (digits.drop n).head? = some ';' then some (n + skipped + 1) else none
  | '&' :: rest =>
    let n := (rest.takeWhile Char.isAlpha).length
    if n > 0 && (rest.drop n).head? = some ';' then some (n + 2) else none
  | _ => none

def markupChildren : Parser Unit :=
  repeated
    (fun (_ : Unit) => do
      let c ← get
      match c.rest with
      | [] => unexpected
      | '{' :: _ =>
        r.markupExpression
        return .inl ()
      | '}' :: _ => unexpected
      | '>' :: _ => unexpected
      | '&' :: _ =>
        match characterReferenceLength? c.rest with
        | some n =>
          set (c.advance n)
          return .inl ()
        | none => unexpected
      | '<' :: rest =>
        match (skipTrivia false ⟨rest, c.offset + 1⟩).rest with
        | '/' :: _ =>
          set (c.advance 1)
          expectChar '/'
          if !(← atChar '>') then
            markupName
          expectChar '>'
          return .inr ()
        | _ =>
          let _ ← r.element
          return .inl ()
      | cs =>
        let n := (cs.takeWhile
          (fun x => !(x = '<' || x = '>' || x = '{' || x = '}' || x = '&' || isNull x))).length
        if n = 0 then unexpected
        set (c.advance n)
        return .inl ())
    ()

def elementRule : Parser Tree := do
  let c ← atOperand
  expectChar '<'
  if ← atChar '>' then
    expectChar '>'
    r.markupChildren
    node .markupElement c.offset []
  else
    markupName
    if r.dialect.hasTypes && (← atChar '<') then
      r.typeArguments
    r.markupAttributes
    if ← atChar '/' then
      expectChar '/'
      let d ← get
      if d.peek? = some '>' then
        set (d.advance 1)
        node .markupSelfClosing c.offset []
      else unexpected
    else
      expectChar '>'
      r.markupChildren
      node .markupElement c.offset []

end Rules

end ComponentDoc.Script
