/-!
JSON values as far as documents hold them, and how they are written: members on lines of their
own, indented by two spaces per level, an object without members as `{}`. Of the characters of a
string only quotes, backslashes and control characters are escaped.
-/

namespace ComponentDoc.Json

/--
A JSON value without numbers and lists.
-/
inductive Value where
  | null
  | bool (value : Bool)
  | string (value : String)
  | object (members : List (String × Value))
deriving Repr, Inhabited

def Value.ofOption : Option String → Value
  | none => .null
  | some s => .string s

def hexDigit (n : Nat) : Char :=
  if n < 10 then Char.ofNat (n + 48) else Char.ofNat (n + 87)

def escapeChar (c : Char) : List Char :=
  if c = '"' then ['\\', '"']
  else if c = '\\' then ['\\', '\\']
  else if c = '\x08' then ['\\', 'b']
  else if c = '\t' then ['\\', 't']
  else if c = '\n' then ['\\', 'n']
  else if c = '\x0c' then ['\\', 'f']
  else if c = '\r' then ['\\', 'r']
  else if c.toNat < 0x20 then
    ['\\', 'u', '0', '0', hexDigit (c.toNat / 16), hexDigit (c.toNat % 16)]
  else [c]

def quote (s : String) : List Char :=
  '"' :: s.toList.flatMap escapeChar ++ ['"']

def indentation (level : Nat) : List Char :=
  '\n' :: List.replicate (2 * level) ' '

mutual

/--
The text of a value whose first line stands at a given level.
-/
def writeChars (level : Nat) : Value → List Char
  | .null => ['n', 'u', 'l', 'l']
  | .bool true => ['t', 'r', 'u', 'e']
  | .bool false => ['f', 'a', 'l', 's', 'e']
  | .string s => quote s
  | .object [] => ['{', '}']
  | .object (m :: ms) =>
    '{' :: writeMember (level + 1) m ++ writeMembers (level + 1) ms ++ indentation level ++ ['}']

def writeMember (level : Nat) : String × Value → List Char
  | (key, value) => indentation level ++ quote key ++ [':', ' '] ++ writeChars level value

def writeMembers (level : Nat) : List (String × Value) → List Char
  | [] => []
  | m :: ms => ',' :: writeMember level m ++ writeMembers level ms

end

def Value.pretty (v : Value) : String :=
  String.ofList (writeChars 0 v)

end ComponentDoc.Json
