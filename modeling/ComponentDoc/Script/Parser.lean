import ComponentDoc.Script.Semicolon

/-!
Parsers over the text of a script. A parser moves a cursor or stops with a fault. The rules of the
grammar depend on each other; `Rules` holds those that a rule may use for its parts, so that each
rule is an ordinary definition and the knot is tied once, in `ComponentDoc.Script.Program`, by the
depth of nesting.
-/

namespace ComponentDoc.Script

inductive Fault where
  | unexpected (offset : Nat)
  | missing (kind : Kind) (offset : Nat)
deriving Repr, DecidableEq, Inhabited

def Fault.offset : Fault → Nat
  | .unexpected offset => offset
  | .missing _ offset => offset

abbrev Parser := StateT Cursor (Except Fault)

structure Context where
  /-- A semicolon may follow the expression, and may be left out. -/
  semicolon : Bool := false
  /-- A colon behind the parameters of an arrow function starts its return type. -/
  returnType : Bool := true
deriving Repr, DecidableEq, Inhabited

/--
The rules that other rules may use for their parts.
-/
structure Rules where
  dialect : Dialect
  expression : Context → Parser Tree
  statement : Parser Tree
  type : Parser Unit
  pattern : Parser Unit
  element : Parser Tree
  constructed : Parser Tree

namespace Parser

def unexpected {α : Type} : Parser α := do
  let c ← get
  throw (.unexpected (skipTrivia false c).offset)

/--
Run `p`, and if it fails run `q` from the same place. If both fail, the fault that lies further on
counts.
-/
def orElse {α : Type} (p q : Parser α) : Parser α := fun c =>
  match p c with
  | .ok r => .ok r
  | .error f =>
    match q c with
    | .ok r => .ok r
    | .error g => .error (if f.offset > g.offset then f else g)

/--
Run `p`, and if it fails run `q` from the same place. If both fail, the fault of `p` counts.
-/
def orRetry {α : Type} (p q : Parser α) : Parser α := fun c =>
  match p c with
  | .ok r => .ok r
  | .error f =>
    match q c with
    | .ok r => .ok r
    | .error _ => .error f

def optional {α : Type} (p : Parser α) : Parser (Option α) := fun c =>
  match p c with
  | .ok (a, d) => .ok (some a, d)
  | .error _ => .ok (none, c)

def succeeds {α : Type} (p : Parser α) : Parser Bool := fun c =>
  match p c with
  | .ok _ => .ok (true, c)
  | .error _ => .ok (false, c)

/--
Repeat `step` until it gives a result; there are as many rounds as `fuel` has characters.
-/
def loop {β γ : Type} (step : β → Parser (β ⊕ γ)) : List Char → β → Parser γ
  | [], _ => unexpected
  | _ :: fuel, b => do
    match ← step b with
    | .inl b => loop step fuel b
    | .inr c => return c

/--
Repeat `step` until it gives a result. Each round reads a character, so the text bounds the
number of rounds.
-/
def repeated {β γ : Type} (step : β → Parser (β ⊕ γ)) (b : β) : Parser γ := do
  let c ← get
  loop step (' ' :: ' ' :: c.rest) b

def atLexeme : Parser Cursor := do
  let c ← get
  return skipTrivia false c

/--
Move over blanks and comments, also those in the style of markup, to the next lexeme.
-/
def atOperand : Parser Cursor := do
  let c ← get
  return skipTrivia true c

/--
Move over the blanks and comments at hand to the next lexeme, and give a tree for each comment.
-/
def comments : Parser (List Tree) := do
  let (trees, c) := trivia true (← get)
  set c
  return trees

def peekPunctuator : Parser String := do
  return punctuator (← atLexeme).rest

def peekWord : Parser String := do
  match word? (← atLexeme) with
  | some (w, _) => return w
  | none => return ""

def atPunctuator (p : String) : Parser Bool := do
  return (← peekPunctuator) == p

def atWord (w : String) : Parser Bool := do
  return (← peekWord) == w

def eat (p : String) : Parser Bool := do
  let c ← atLexeme
  if punctuator c.rest == p then
    set (c.advance p.length)
    return true
  else
    return false

def expect (p : String) : Parser Unit := do
  if !(← eat p) then
    unexpected

/--
Read one character, even where it starts a longer punctuator.
-/
def expectChar (x : Char) : Parser Unit := do
  let c ← atLexeme
  if c.peek? = some x then
    set (c.advance 1)
  else
    unexpected

def atChar (x : Char) : Parser Bool := do
  let c ← atLexeme
  return c.peek? = some x

def eatWord (w : String) : Parser Bool := do
  match word? (← atLexeme) with
  | some (v, d) =>
    if v == w then
      set d
      return true
    else
      return false
  | none => return false

def expectWord (w : String) : Parser Unit := do
  if !(← eatWord w) then
    unexpected

def anyWord : Parser String := do
  match word? (← atOperand) with
  | some (w, d) =>
    set d
    return w
  | none => unexpected

def afterWord : Parser (String × String) := do
  match word? (← atLexeme) with
  | some (_, d) =>
    let e := skipTrivia false d
    return (punctuator e.rest, ((word? e).map Prod.fst).getD "")
  | none => return ("", "")

def afterLineBreak : Parser Bool := do
  let c ← get
  let d ← atLexeme
  return (c.rest.take (d.offset - c.offset)).contains '\n'

def node (kind : Kind) (start : Nat) (children : List Tree) : Parser Tree := do
  let c ← get
  return .node ⟨kind, .plain⟩ ⟨start, c.offset⟩ children

def leafAt (kind : Kind) (c : Cursor) (length : Nat) : Parser Tree := do
  let d := c.advance length
  set d
  return .node ⟨kind, .plain⟩ ⟨c.offset, d.offset⟩ []

/--
Read the string that comes next. One that runs to the end of the text lacks its end there.
-/
def stringLiteral : Parser Tree := do
  let c ← atOperand
  match stringLength? c.rest with
  | some n => leafAt .string c n
  | none =>
    if c.rest.contains '\n' then unexpected
    else throw (.unexpected (c.offset + c.rest.length))

/--
Read a semicolon, or pass over a place where it may be left out.
-/
def semicolon (dialect : Dialect) (context : SemicolonContext) : Parser Unit := do
  if ← eat ";" then
    return
  let c ← get
  if !omitsSemicolon dialect.hasTypes context c then
    unexpected

def semicolonOmitted (dialect : Dialect) (context : SemicolonContext) : Parser Bool := do
  let c ← get
  return omitsSemicolon dialect.hasTypes context c

/--
Read items between which commas stand, until a closing punctuator, which is read too. Items may
be left out.
-/
def sparseList {α : Type} (item : Parser α) (close : String) : Parser (List α) :=
  repeated
    (fun items => do
      if ← eat close then
        return .inr items.reverse
      else if ← eat "," then
        return .inl items
      else
        let i ← item
        if (← atPunctuator ",") || (← atPunctuator close) then
          return .inl (i :: items)
        else
          unexpected)
    []

/--
Read items between which commas stand, until a closing punctuator, which is read too. A comma may
follow the last item.
-/
def commaList {α : Type} (item : Parser α) (close : String) : Parser (List α) :=
  repeated
    (fun items => do
      if ← eat close then
        return .inr items.reverse
      else
        let i ← item
        if ← eat "," then
          return .inl (i :: items)
        else
          expect close
          return .inr (i :: items).reverse)
    []

def commaSeparated {α : Type} (item : Parser α) : Parser (List α) :=
  repeated
    (fun items => do
      let i ← item
      if ← eat "," then
        return .inl (i :: items)
      else
        return .inr (i :: items).reverse)
    []

end Parser

end ComponentDoc.Script
