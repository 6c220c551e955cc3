/-!
Patterns for names. A star stands for any characters, a question mark for one, and brackets for
one of a set or, behind an exclamation mark, for one outside it. Two stars stand for directories
at any depth and are a part of a path of their own.
-/

namespace ComponentDoc

structure CharRange where
  low : Char
  high : Char
deriving Repr, DecidableEq, Inhabited

def CharRange.anyHolds (ranges : List CharRange) (c : Char) : Bool :=
  ranges.any fun range => range.low ≤ c && c ≤ range.high

inductive PatternItem where
  | char (c : Char)
  | anyChar
  | anyOf (ranges : List CharRange)
  | noneOf (ranges : List CharRange)
  | anySequence
  | anyDirectories
deriving Repr, DecidableEq, Inhabited

inductive PatternFault where
  | tooManyStars
  | starsInName
  | openBracket
deriving Repr, DecidableEq, Inhabited

/--
A fault of a pattern and the number of characters in front of it.
-/
structure PatternError where
  position : Nat
  fault : PatternFault
deriving Repr, DecidableEq, Inhabited

def PatternFault.message : PatternFault → String
  | .tooManyStars => "wildcards are either regular `*` or recursive `**`"
  | .starsInName => "recursive wildcards must form a single path component"
  | .openBracket => "invalid range pattern"

def PatternError.message (e : PatternError) : String :=
  "Pattern syntax error near position " ++ toString e.position ++ ": " ++ e.fault.message

abbrev Pattern := List PatternItem

namespace Pattern

def ranges : List Char → List CharRange
  | low :: '-' :: high :: rest => ⟨low, high⟩ :: ranges rest
  | c :: rest => ⟨c, c⟩ :: ranges rest
  | [] => []

/--
The set at hand, behind its opening bracket, and how many characters it takes up with its closing
bracket. A closing bracket that comes first is a member of the set.
-/
def bracketed? (cs : List Char) : Option (PatternItem × Nat) :=
  match cs with
  | '!' :: first :: rest =>
    let members := rest.takeWhile (· != ']')
    if members.length < rest.length then
      some (.noneOf (ranges (first :: members)), members.length + 3)
    else none
  | '!' :: [] => none
  | first :: rest =>
    let members := rest.takeWhile (· != ']')
    if members.length < rest.length then
      some (.anyOf (ranges (first :: members)), members.length + 2)
    else none
  | [] => none

/--
The item that a run of stars stands for, and how many characters it takes up. `position` is the
number of characters in front of it and `before` the last of them.
-/
def stars (position : Nat) (before : Option Char) (cs : List Char) :
    Except PatternError (PatternItem × Nat) :=
  let count := (cs.takeWhile (· = '*')).length
  if count > 2 then .error ⟨position + 2, .tooManyStars⟩
  else if count = 2 then
    if before.isNone || before = some '/' then
      match cs.drop 2 with
      | [] => .ok (.anyDirectories, 2)
      | '/' :: _ => .ok (.anyDirectories, 3)
      | _ => .error ⟨position + 2, .starsInName⟩
    -- Here the fault is the character in front of the stars, not the one behind them.
    else .error ⟨position - 1, .starsInName⟩
  else .ok (.anySequence, 1)

/--
The items of a pattern; `skip` characters at hand belong to the item before.
-/
def items (skip position : Nat) (before : Option Char) : List Char → Except PatternError Pattern
  | [] => .ok []
  | c :: rest =>
    match skip with
    | skip + 1 => items skip (position + 1) (some c) rest
    | 0 => do
      let (item, length) ←
        if c = '?' then .ok (.anyChar, 1)
        else if c = '*' then stars position before (c :: rest)
        else if c = '[' then
          match bracketed? rest with
          | some (item, length) => .ok (item, length + 1)
          | none => .error ⟨position, .openBracket⟩
        else .ok (.char c, 1)
      return item :: (← items (length - 1) (position + 1) (some c) rest)

def parse (text : String) : Except PatternError Pattern :=
  items 0 0 none text.toList

def anyTail (p : List Char → Bool) : List Char → Bool
  | [] => p []
  | c :: rest => p (c :: rest) || anyTail p rest

/--
Whether a pattern describes a name. Directories at any depth are none in a name.
-/
def describes : Pattern → List Char → Bool
  | [], cs => cs.isEmpty
  | .anySequence :: items, cs => anyTail (describes items) cs
  | .anyDirectories :: items, cs => describes items cs
  | _ :: _, [] => false
  | .char x :: items, c :: cs => x = c && describes items cs
  | .anyChar :: items, _ :: cs => describes items cs
  | .anyOf ranges :: items, c :: cs => CharRange.anyHolds ranges c && describes items cs
  | .noneOf ranges :: items, c :: cs => !CharRange.anyHolds ranges c && describes items cs

def chars? : Pattern → Option (List Char)
  | [] => some []
  | .char c :: items => (chars? items).map (c :: ·)
  | _ :: _ => none

def literal? (pattern : Pattern) : Option String :=
  (chars? pattern).map String.ofList

def isDeep (pattern : Pattern) : Bool :=
  pattern.contains .anyDirectories

end Pattern

end ComponentDoc
