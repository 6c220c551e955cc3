import ComponentDoc.Script.Parser

/-!
Names of properties, and the words that stand in front of them.
-/

namespace ComponentDoc.Script

open ComponentDoc.Script.Parser

namespace Rules

variable (r : Rules)

def propertyName : Parser Tree := do
  let c ← atOperand
  match c.rest with
  | '[' :: _ =>
    set (c.advance 1)
    let value ← r.expression {}
    expect "]"
    node .computedName c.offset [value]
  | '"' :: _ => stringLiteral
  | '\'' :: _ => stringLiteral
  | '#' :: rest =>
    let n := wordLength rest
    if n = 0 then unexpected else leafAt .propertyName c (n + 1)
  | cs =>
    let n := wordLength cs
    if n > 0 then
      leafAt .propertyName c n
    else
      let m := numberLength cs
      if m > 0 then leafAt .number c m else unexpected

def methodModifiers : List String :=
  let common := ["static", "async", "get", "set"]
  if r.dialect.hasTypes then
    common ++ ["public", "private", "protected", "override", "readonly"]
  else common

def startsName (cs : List Char) : Bool :=
  match cs with
  | c :: _ =>
    c = '[' || c = '*' || c = '"' || c = '\'' || c = '#' || c.isDigit || wordLength cs > 0
  | [] => false

/--
Whether the next word is a modifier of the name behind it, and not a name itself.
-/
def atModifier (modifiers : List String) : Parser Bool := do
  match word? (← atOperand) with
  | some (w, d) => return modifiers.contains w && startsName (skipTrivia false d).rest
  | none => return false

def skipModifiers (modifiers : List String) : Parser Unit :=
  repeated
    (fun (_ : Unit) => do
      if ← atModifier modifiers then
        let _ ← anyWord
        return .inl ()
      else
        let _ ← eat "*"
        return .inr ())
    ()

end Rules

end ComponentDoc.Script
