import ComponentDoc.Json.Decimal

/-!
Reading JSON text. A reader moves over the text, keeps the line and the number of bytes read in
that line, and stops at the first fault. `Reader.skipValue` reads any value and forgets it,
`Reader.string` reads a string, `Reader.wrongType` reads the start of a value that cannot be
used and says what it is.
-/

namespace ComponentDoc.Json

/--
A fault of a JSON text. Line and column say how far the text was read.
-/
structure Fault where
  reason : String
  line : Nat
  column : Nat
deriving Repr, DecidableEq, Inhabited

def Fault.message (f : Fault) : String :=
  s!"{f.reason} at line {f.line} column {f.column}"

/--
How far a text was read: what is left, the line, and the bytes read in it.
-/
structure Place where
  rest : List Char
  line : Nat := 1
  column : Nat := 0
deriving Repr, DecidableEq, Inhabited

def Place.step (p : Place) : Place :=
  match p.rest with
  | [] => p
  | '\n' :: rest => ⟨rest, p.line + 1, 0⟩
  | c :: rest => ⟨rest, p.line, p.column + c.utf8Size⟩

abbrev Reader := StateT Place (Except Fault)

namespace Reader

def fail {α : Type} (reason : String) : Reader α := do
  let p ← get
  throw ⟨reason, p.line, p.column⟩

/--
Stop with a fault at the next byte.
-/
def failNext {α : Type} (reason : String) : Reader α := do
  let p ← get
  match p.rest with
  | [] => throw ⟨reason, p.line, p.column⟩
  | '\n' :: _ => throw ⟨reason, p.line + 1, 0⟩
  | _ :: _ => throw ⟨reason, p.line, p.column + 1⟩

def peek : Reader (Option Char) := do
  return (← get).rest.head?

def advance : Reader Unit :=
  modify Place.step

def next : Reader (Option Char) := do
  let c ← peek
  advance
  return c

def isSpace (c : Char) : Bool :=
  c = ' ' || c = '\n' || c = '\t' || c = '\r'

def dropWhile (p : Char → Bool) : List Char → Nat → Nat → Place
  | [], line, column => ⟨[], line, column⟩
  | c :: rest, line, column =>
    if p c then
      if c = '\n' then dropWhile p rest (line + 1) 0
      else dropWhile p rest line (column + c.utf8Size)
    else ⟨c :: rest, line, column⟩

def skipWhile (p : Char → Bool) : Reader Unit :=
  modify fun place => dropWhile p place.rest place.line place.column

def peekToken : Reader (Option Char) := do
  skipWhile isSpace
  peek

def word : List Char → Reader Unit
  | [] => pure ()
  | expected :: more => do
    match ← next with
    | none => fail "EOF while parsing a value"
    | some c => if c = expected then word more else fail "expected ident"

def hexValue? (c : Char) : Option Nat :=
  let n := c.toNat
  if 48 ≤ n && n ≤ 57 then some (n - 48)
  else if 97 ≤ n && n ≤ 102 then some (n - 87)
  else if 65 ≤ n && n ≤ 70 then some (n - 55)
  else none

def hexEscape : Reader Nat := do
  let p ← get
  -- Four bytes are taken together: fewer than that end the text.
  let bytes := (p.rest.take 4).foldl (fun n c => n + c.utf8Size) 0
  if bytes < 4 then
    skipWhile (fun _ => true)
    fail "EOF while parsing a string"
  else
    let digits := p.rest.take 4
    match digits.mapM hexValue? with
    | some values =>
      if values.length = 4 then
        advance; advance; advance; advance
        return values.foldl (fun n d => 16 * n + d) 0
      else fail "invalid escape"
    | none =>
      let q ← get
      throw ⟨"invalid escape", q.line, q.column + 4⟩

def nextOrEnd : Reader Char := do
  match ← next with
  | some c => return c
  | none => fail "EOF while parsing a string"

def surrogateMark (expected : Char) : Reader Unit := do
  match ← peek with
  | none => fail "EOF while parsing a string"
  | some c =>
    if c = expected then
      advance
    else
      failNext "unexpected end of hex escape"

def unicodeEscape : Reader Char := do
  let high ← hexEscape
  if 0xDC00 ≤ high && high ≤ 0xDFFF then
    fail "lone leading surrogate in hex escape"
  else if high < 0xD800 || 0xDBFF < high then
    return Char.ofNat high
  else
    surrogateMark '\\'
    surrogateMark 'u'
    let low ← hexEscape
    if low < 0xDC00 || 0xDFFF < low then
      fail "lone leading surrogate in hex escape"
    else
      return Char.ofNat (0x10000 + (high - 0xD800) * 0x400 + (low - 0xDC00))

def escape : Reader Char := do
  match ← nextOrEnd with
  | '"' => return '"'
  | '\\' => return '\\'
  | '/' => return '/'
  | 'b' => return '\x08'
  | 'f' => return '\x0c'
  | 'n' => return '\n'
  | 'r' => return '\r'
  | 't' => return '\t'
  | 'u' => unicodeEscape
  | _ => fail "invalid escape"

/--
Read a string behind its opening quote; `chars` holds what was read, in reverse. Each round
reads a character, so the length of the text bounds the number of rounds.
-/
def stringBody : Nat → List Char → Reader String
  | 0, _ => fail "EOF while parsing a string"
  | fuel + 1, chars => do
    match ← next with
    | none => fail "EOF while parsing a string"
    | some '"' => return String.ofList chars.reverse
    | some '\\' => stringBody fuel ((← escape) :: chars)
    | some c =>
      if c.toNat < 0x20 then
        fail "control character (\\u0000-\\u001F) found while parsing a string"
      else
        stringBody fuel (c :: chars)

def string : Reader String := do
  stringBody ((← get).rest.length + 1) []

/--
Read over what follows a backslash in a string. Surrogates need no partner here.
-/
def skipEscape : Reader Unit := do
  match ← nextOrEnd with
  | '"' | '\\' | '/' | 'b' | 'f' | 'n' | 'r' | 't' => pure ()
  | 'u' => do
    let _ ← hexEscape
  | _ => fail "invalid escape"

def skipStringBody : Nat → Reader Unit
  | 0 => fail "EOF while parsing a string"
  | fuel + 1 => do
    match ← peek with
    | none => fail "EOF while parsing a string"
    | some '"' => advance
    | some '\\' => do
      advance
      skipEscape
      skipStringBody fuel
    | some c =>
      if c.toNat < 0x20 then
        fail "control character (\\u0000-\\u001F) found while parsing a string"
      else do
        advance
        skipStringBody fuel

def skipString : Reader Unit := do
  skipStringBody ((← get).rest.length + 1)

def skipDigits : Reader Unit :=
  skipWhile Char.isDigit

def skipExponent : Reader Unit := do
  advance
  match ← peek with
  | some '+' | some '-' => advance
  | _ => pure ()
  match ← next with
  | some c => if c.isDigit then skipDigits else fail "invalid number"
  | none => fail "invalid number"

def skipFraction : Reader Unit := do
  advance
  match ← peek with
  | some c => if c.isDigit then skipDigits else failNext "invalid number"
  | none => failNext "invalid number"
  match ← peek with
  | some 'e' | some 'E' => skipExponent
  | _ => pure ()

def skipNumber : Reader Unit := do
  match ← next with
  | some '0' =>
    match ← peek with
    | some c => if c.isDigit then failNext "invalid number" else pure ()
    | none => pure ()
  | some c => if c.isDigit then skipDigits else fail "invalid number"
  | none => fail "invalid number"
  match ← peek with
  | some '.' => skipFraction
  | some 'e' | some 'E' => skipExponent
  | _ => pure ()

def skipKey : Reader Unit := do
  match ← peekToken with
  | some '"' => advance
  | some _ => failNext "key must be a string"
  | none => failNext "EOF while parsing an object"
  skipString
  match ← peekToken with
  | some ':' => advance
  | some _ => failNext "expected `:`"
  | none => failNext "EOF while parsing an object"

mutual

/--
Read any value and forget it, however deep it is nested; `fuel` bounds the number of steps.
-/
def skipValueWith : Nat → Reader Unit
  | 0 => failNext "EOF while parsing a value"
  | fuel + 1 => do
    match ← peekToken with
    | none => failNext "EOF while parsing a value"
    | some 'n' => do advance; word ['u', 'l', 'l']
    | some 't' => do advance; word ['r', 'u', 'e']
    | some 'f' => do advance; word ['a', 'l', 's', 'e']
    | some '-' => do advance; skipNumber
    | some '"' => do advance; skipString
    | some '[' => do
      advance
      match ← peekToken with
      | some ']' => advance
      | none => failNext "EOF while parsing a list"
      | some _ => skipItems fuel
    | some '{' => do
      advance
      match ← peekToken with
      | some '}' => advance
      | none => failNext "EOF while parsing an object"
      | some _ => skipMembers fuel
    | some c => if c.isDigit then skipNumber else failNext "expected value"

def skipItems : Nat → Reader Unit
  | 0 => failNext "EOF while parsing a list"
  | fuel + 1 => do
    skipValueWith fuel
    match ← peekToken with
    | some ',' => do
      advance
      skipItems fuel
    | some ']' => advance
    | some _ => failNext "expected `,` or `]`"
    | none => failNext "EOF while parsing a list"

def skipMembers : Nat → Reader Unit
  | 0 => failNext "EOF while parsing an object"
  | fuel + 1 => do
    skipKey
    skipValueWith fuel
    match ← peekToken with
    | some ',' => do
      advance
      skipMembers fuel
    | some '}' => advance
    | some _ => failNext "expected `,` or `\x7d`"
    | none => failNext "EOF while parsing an object"

end

def skipValue : Reader Unit := do
  skipValueWith (2 * (← get).rest.length + 2)

end Reader

end ComponentDoc.Json
