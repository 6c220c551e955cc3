import ComponentDoc.Json.Reader

/-!
What a value is called in a message that refuses it: `null`, a boolean, a number or a string with
its text, a list or an object by its kind.
-/

namespace ComponentDoc.Json

namespace Reader

def showChar (c : Char) : String :=
  if c = '\t' then "\\t"
  else if c = '\r' then "\\r"
  else if c = '\n' then "\\n"
  else if c = '"' then "\\\""
  else if c = '\\' then "\\\\"
  else if c.toNat = 0 then "\\0"
  else if c.toNat < 0x20 || (0x7f ≤ c.toNat && c.toNat < 0xa0) || c.toNat = 0xad
      || (0x200b ≤ c.toNat && c.toNat ≤ 0x200f) || (0x2028 ≤ c.toNat && c.toNat ≤ 0x202e)
      || (0x2060 ≤ c.toNat && c.toNat ≤ 0x206f) || c.toNat = 0xfeff
      || (0x300 ≤ c.toNat && c.toNat ≤ 0x36f) then
    "\\u\x7b" ++ String.ofList (Nat.toDigits 16 c.toNat) ++ "\x7d"
  else c.toString

def showText (s : String) : String :=
  "\"" ++ String.join (s.toList.map showChar) ++ "\""

def powerOfTen (n : Nat) : Float :=
  Float.ofScientific 1 false n

/--
A floating point number scaled by a power of ten; absent when it grows out of range.
-/
def scaled : Nat → Float → Int → Option Float
  | 0, f, _ => some f
  | fuel + 1, f, exponent =>
    if exponent.natAbs ≤ 308 then
      if 0 ≤ exponent then
        let g := f * powerOfTen exponent.toNat
        if g.isInf then none else some g
      else some (f / powerOfTen exponent.natAbs)
    else if f == 0 then some f
    else if 0 ≤ exponent then none
    else scaled fuel (f / powerOfTen 308) (exponent + 308)

def floatName (negative : Bool) (significand : Nat) (exponent : Int) : Reader String := do
  match scaled 8 significand.toUInt64.toFloat exponent with
  | some f =>
    let text := floatText (if negative then -f else f)
    return s!"floating point `{text}`"
  | none => fail "number out of range"

/--
Read digits into a significand of at most 64 bits: the significand and the number of digits that
did not fit.
-/
def digitsInto : Nat → Nat → Nat → Reader (Nat × Nat)
  | 0, significand, dropped => return (significand, dropped)
  | fuel + 1, significand, dropped => do
    match ← peek with
    | some c =>
      if c.isDigit then
        advance
        let more := significand * 10 + (c.toNat - 48)
        if dropped = 0 && more < Nat.pow 2 64 then
          digitsInto fuel more 0
        else
          digitsInto fuel significand (dropped + 1)
      else return (significand, dropped)
    | none => return (significand, dropped)

def exponentPart (negative : Bool) (significand : Nat) (scale : Int) : Reader String := do
  advance
  let downward ← do
    match ← peek with
    | some '+' => do advance; pure false
    | some '-' => do advance; pure true
    | _ => pure false
  match ← next with
  | none => fail "EOF while parsing a value"
  | some c =>
    if c.isDigit then
      let p ← get
      let digits := c :: p.rest.takeWhile Char.isDigit
      skipDigits
      -- Powers beyond this bound are out of range whatever the significand is.
      let power : Int := digits.foldl (fun n d => min (n * 10 + (d.toNat - 48)) 100000) 0
      floatName negative significand (scale + if downward then -power else power)
    else fail "invalid number"

def numberTail (negative : Bool) (significand dropped : Nat) : Reader String := do
  match ← peek with
  | some '.' => do
    advance
    match ← peek with
    | some c => if c.isDigit then pure () else failNext "invalid number"
    | none => failNext "EOF while parsing a value"
    let p ← get
    let count := (p.rest.takeWhile Char.isDigit).length
    let (significand, lost) ←
      if dropped = 0 then digitsInto (count + 1) significand 0
      else do skipDigits; pure (significand, count)
    let scale : Int := (dropped : Int) - ((count : Int) - lost)
    match ← peek with
    | some 'e' | some 'E' => exponentPart negative significand scale
    | _ => floatName negative significand scale
  | some 'e' | some 'E' => exponentPart negative significand dropped
  | _ =>
    if dropped > 0 then floatName negative significand dropped
    else if !negative then return s!"integer `{significand}`"
    -- Minus zero, and what a signed number of 64 bits cannot hold, is a floating point number.
    else if significand = 0 || significand > Nat.pow 2 63 then floatName negative significand 0
    else return s!"integer `-{significand}`"

def number (negative : Bool) : Reader String := do
  match ← next with
  | none => fail "EOF while parsing a value"
  | some '0' => do
    match ← peek with
    | some c => if c.isDigit then failNext "invalid number" else numberTail negative 0 0
    | none => numberTail negative 0 0
  | some c =>
    if c.isDigit then
      let p ← get
      let (significand, dropped) ← digitsInto (p.rest.length + 1) (c.toNat - 48) 0
      numberTail negative significand dropped
    else fail "invalid number"

def valueName : Reader String := do
  match ← peekToken with
  | some 'n' => do advance; word ['u', 'l', 'l']; return "null"
  | some 't' => do advance; word ['r', 'u', 'e']; return "boolean `true`"
  | some 'f' => do advance; word ['a', 'l', 's', 'e']; return "boolean `false`"
  | some '-' => do advance; number true
  | some '"' => do
    advance
    let text ← string
    return s!"string {showText text}"
  | some '[' => return "sequence"
  | some '{' => return "map"
  | some c => if c.isDigit then number false else failNext "expected value"
  | none => failNext "EOF while parsing a value"

def wrongType {α : Type} (expected : String) : Reader α := do
  let name ← valueName
  fail s!"invalid type: {name}, expected {expected}"

end Reader

end ComponentDoc.Json
