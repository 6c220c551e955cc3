import ComponentDoc.Script.Name

/-!
Types. Nothing of a type is documented, so these rules only say where a type ends.
-/

namespace ComponentDoc.Script

open ComponentDoc.Script.Parser

namespace Rules

variable (r : Rules)

def typeMark : Parser Unit := do
  if ← eat ":" then
    r.type

def typeParameters : Parser Unit := do
  if ← atPunctuator "<" then
    expect "<"
    repeated
      (fun (_ : Unit) => do
        if ← atChar '>' then
          expectChar '>'
          return .inr ()
        else
          if (← atModifier ["const", "in", "out"]) then
            let _ ← anyWord
          let _ ← anyWord
          if ← eatWord "extends" then
            r.type
          if ← eat "=" then
            r.type
          if ← eat "," then
            return .inl ()
          else
            expectChar '>'
            return .inr ())
      ()

def typeArguments : Parser Unit := do
  expectChar '<'
  repeated
    (fun (_ : Unit) => do
      if ← atChar '>' then
        expectChar '>'
        return .inr ()
      else
        r.type
        if ← eat "," then
          return .inl ()
        else
          expectChar '>'
          return .inr ())
    ()

def parameterModifiers : List String :=
  ["public", "private", "protected", "override", "readonly"]

def decorators : Parser Unit :=
  repeated
    (fun (_ : Unit) => do
      if ← eat "@" then
        if ← eat "(" then
          let _ ← r.expression {}
          expect ")"
          return .inl ()
        let _ ← anyWord
        repeated
          (fun (_ : Unit) => do
            if ← eat "." then
              let _ ← anyWord
              return .inl ()
            else if r.dialect.hasTypes && (← atChar '<') then
              typeArguments r
              return .inl ()
            else if ← eat "(" then
              let _ ← sparseList (do
                let _ ← eat "..."
                r.expression {}) ")"
              return .inl ()
            else
              return .inr ())
          ()
        return .inl ()
      else
        return .inr ())
    ()

/--
A parameter of a function. Outside the plain dialect it may have modifiers, a question mark and a
type.
-/
def parameter : Parser Unit := do
  if r.dialect.hasTypes then
    decorators r
    repeated
      (fun (_ : Unit) => do
        let w ← peekWord
        if parameterModifiers.contains w then
          let (p, v) ← afterWord
          if v != "" || p == "\x7b" || p == "[" then
            let _ ← anyWord
            return .inl ()
        return .inr ())
      ()
    let _ ← eat "..."
    r.pattern
    let _ ← eat "?"
    typeMark r
  else
    let _ ← eat "..."
    r.pattern
  if ← eat "=" then
    let _ ← r.expression {}

def parameters : Parser Unit := do
  expect "("
  let _ ← commaList (parameter r) ")"

/--
The return type of a function, if there is one: a type, or what the function asserts.
-/
def returnType : Parser Unit := do
  if ← eat ":" then
    r.type

def callSignature : Parser Unit := do
  if r.dialect.hasTypes then
    typeParameters r
    parameters r
    returnType r
  else
    parameters r

def functionType : Parser Unit := do
  let _ ← eatWord "abstract"
  let _ ← eatWord "new"
  typeParameters r
  parameters r
  expect "=>"
  r.type

def bracketedKey : Parser Unit := do
  let mapped : Parser Unit := do
    let _ ← anyWord
    expectWord "in"
    r.type
    if ← eatWord "as" then
      r.type
    expect "]"
  let index : Parser Unit := do
    let _ ← anyWord
    expect ":"
    r.type
    expect "]"
  orElse mapped index

def mappedSign : Parser Unit := do
  if !(← eat "+") then
    let _ ← eat "-"

def typeMember : Parser Unit := do
  let call : Parser Unit := callSignature r
  let construct : Parser Unit := do
    expectWord "new"
    callSignature r
  let index : Parser Unit := do
    mappedSign
    if (← atWord "readonly") then
      let _ ← eatWord "readonly"
    expect "["
    bracketedKey r
    mappedSign
    let _ ← eat "?"
    typeMark r
  let named : Parser Unit := do
    skipModifiers (r.methodModifiers ++ ["readonly"])
    let _ ← r.propertyName
    let _ ← eat "?"
    if (← atPunctuator "(") || (← atPunctuator "<") then
      callSignature r
    else
      typeMark r
  if (← atPunctuator "(") || (← atPunctuator "<") then
    call
  else if (← atPunctuator "[") || (← atPunctuator "+") || (← atPunctuator "-") then
    orElse index named
  else if ← atWord "new" then
    orElse construct named
  else if ← atWord "readonly" then
    orElse index named
  else
    named

/--
The members of an object type, in braces. A member ends at a semicolon, a comma or a line break.
-/
def objectType : Parser Unit := do
  expect "\x7b"
  let _ ← eat "|"
  repeated
    (fun (_ : Unit) => do
      if ← eat "\x7d" then
        return .inr ()
      else if (← eat ";") || (← eat ",") then
        return .inl ()
      else if ← eat "|" then
        expect "\x7d"
        return .inr ()
      else
        typeMember r
        if (← eat ";") || (← eat ",") then
          return .inl ()
        else if (← semicolonOmitted r.dialect { operator := false, functionBody := false })
            || (← atPunctuator "\x7d") then
          return .inl ()
        else
          unexpected)
    ()

def tupleMember : Parser Unit := do
  let _ ← eat "..."
  let named : Parser Unit := do
    let _ ← anyWord
    let _ ← eat "?"
    expect ":"
    r.type
  let plain : Parser Unit := do
    r.type
    let _ ← eat "?"
  orElse named plain

def templateType : Parser Unit :=
  repeated
    (fun (_ : Unit) => do
      let c ← get
      match c.rest with
      | [] => unexpected
      | '`' :: _ =>
        set (c.advance 1)
        return .inr ()
      | '$' :: '{' :: _ =>
        set (c.advance 2)
        r.type
        expect "\x7d"
        return .inl ()
      | cs =>
        match escapeLength? cs with
        | some n => set (c.advance n)
        | none => set (c.advance (max 1 (templateRun cs)))
        return .inl ())
    ()

def typeName : Parser Unit := do
  let _ ← anyWord
  repeated
    (fun (_ : Unit) => do
      if (← eat ".") || (← eat "?.") then
        let c ← atLexeme
        match c.rest with
        | '#' :: _ =>
          let _ ← r.propertyName
        | _ =>
          let _ ← anyWord
        return .inl ()
      else
        return .inr ())
    ()
  if (← atChar '<') && !(← afterLineBreak) then
    typeArguments r

def wordType (w : String) : Parser Unit := do
  if w == "typeof" then
    expectWord "typeof"
    if ← atWord "import" then
      r.type
    else
      typeName r
  else if w == "import" then
    expectWord "import"
    expect "("
    let _ ← commaList (do let _ ← r.expression {}) ")"
    repeated
      (fun (_ : Unit) => do
        if ← eat "." then
          let _ ← anyWord
          return .inl ()
        else
          return .inr ())
      ()
    if ← atChar '<' then
      typeArguments r
  else if ["keyof", "readonly", "infer", "unique"].contains w then
    let (p, v) ← afterWord
    if v != "" || ["\x7b", "[", "(", "`", "<"].contains p then
      let _ ← anyWord
      if w == "infer" then
        let _ ← anyWord
        -- The constraint of an inferred type belongs to it unless a condition follows.
        let c ← get
        if ← eatWord "extends" then
          let constrained ← optional (do
            r.type
            if ← atPunctuator "?" then
              unexpected)
          if constrained.isNone then
            set c
      else
        r.type
    else
      typeName r
  else if w == "asserts" then
    let (_, v) ← afterWord
    if v != "" && v != "is" then
      expectWord "asserts"
      let _ ← anyWord
      if ← eatWord "is" then
        r.type
    else
      typeName r
  else if w == "new" || w == "abstract" then
    orElse (functionType r) (typeName r)
  else if w == "void" || w == "null" || w == "undefined" || w == "this" || w == "true"
      || w == "false" then
    let _ ← anyWord
  else
    typeName r

def primaryType : Parser Unit := do
  let c ← atLexeme
  match c.rest with
  | '(' :: _ =>
    orElse (functionType r) do
      expect "("
      r.type
      expect ")"
  | '<' :: _ => functionType r
  | '{' :: _ => objectType r
  | '[' :: _ =>
    expect "["
    let _ ← commaList (tupleMember r) "]"
  | '`' :: _ =>
    set (c.advance 1)
    templateType r
  | '"' :: _ =>
    let _ ← stringLiteral
  | '\'' :: _ =>
    let _ ← stringLiteral
  | '-' :: _ =>
    set (c.advance 1)
    let d ← atLexeme
    let n := numberLength d.rest
    if n = 0 then unexpected else set (d.advance n)
  | '?' :: _ =>
    set (c.advance 1)
    r.type
  | '*' :: _ => set (c.advance 1)
  | cs =>
    let n := numberLength cs
    if n > 0 then
      set (c.advance n)
    else
      let w ← peekWord
      if w == "" then unexpected else wordType r w

def suffixedType : Parser Unit := do
  primaryType r
  repeated
    (fun (_ : Unit) => do
      if (← atPunctuator "[") && !(← afterLineBreak) then
        expect "["
        if ← eat "]" then
          return .inl ()
        r.type
        expect "]"
        return .inl ()
      else
        return .inr ())
    ()

def typeRule : Parser Unit := do
  if !(← eat "|") then
    let _ ← eat "&"
  suffixedType r
  repeated
    (fun (_ : Unit) => do
      if (← eat "|") || (← eat "&") then
        suffixedType r
        return .inl ()
      else if (← atWord "is") && !(← afterLineBreak) then
        expectWord "is"
        suffixedType r
        return .inl ()
      else
        return .inr ())
    ()
  if ← atWord "extends" then
    let _ ← optional do
      expectWord "extends"
      r.type
      expect "?"
      r.type
      expect ":"
      r.type

end Rules

end ComponentDoc.Script
