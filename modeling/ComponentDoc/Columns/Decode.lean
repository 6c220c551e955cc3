import ComponentDoc.Columns
import ComponentDoc.Problem
import ComponentDoc.Json.Unexpected

/-!
Reading a column configuration from JSON text. It is an object with up to four members, one per
category, or a list of the four maps in order. Members that are not a category are skipped, and
what is not given keeps its default. A category may be given once; a column key given twice keeps
its first place and takes the last label.
-/

namespace ComponentDoc.ColumnConfig

open Json Json.Reader

/--
Whether an object has another member. It is moved to the quote of its key.
-/
def hasMember (first : Bool) : Reader Bool := do
  match ← peekToken with
  | some '}' => return false
  | none => failNext "EOF while parsing an object"
  | some c =>
    if first then
      if c = '"' then return true else failNext "key must be a string"
    else if c = ',' then
      advance
      match ← peekToken with
      | some '"' => return true
      | some '}' => failNext "trailing comma"
      | some _ => failNext "key must be a string"
      | none => failNext "EOF while parsing a value"
    else
      failNext "expected `,` or `\x7d`"

def colon : Reader Unit := do
  match ← peekToken with
  | some ':' => advance
  | some _ => failNext "expected `:`"
  | none => failNext "EOF while parsing an object"

def readLabel : Reader String := do
  match ← peekToken with
  | some '"' => do
    advance
    string
  | none => failNext "EOF while parsing a value"
  | some _ => wrongType "a string"

def columnMembers : Nat → Bool → Columns → Reader Columns
  | 0, _, columns => return columns
  | fuel + 1, first, columns => do
    if ← hasMember first then
      advance
      let key ← string
      colon
      columnMembers fuel false (columns.insert key (← readLabel))
    else
      advance
      return columns

def readColumns : Reader Columns := do
  match ← peekToken with
  | some '{' => do
    advance
    columnMembers ((← get).rest.length + 1) true ∅
  | none => failNext "EOF while parsing a value"
  | some _ => wrongType "a map"

/--
Refuse a category that is given twice. The fault lies behind the closing brace if that follows.
-/
def duplicate {α : Type} (category : Category) : Reader α := do
  if (← peekToken) = some '}' then
    advance
  fail s!"duplicate field `{category.key}`"

/--
Read the members of a configuration and its end; `seen` holds the categories read so far.
-/
def configMembers : Nat → Bool → List Category → ColumnConfig → Reader ColumnConfig
  | 0, _, _, config => return config
  | fuel + 1, first, seen, config => do
    if ← hasMember first then
      advance
      match Category.ofKey? (← string) with
      | some category =>
        if seen.contains category then
          duplicate category
        else
          colon
          configMembers fuel false (category :: seen) (config.setColumns category (← readColumns))
      | none =>
        colon
        skipValue
        configMembers fuel false seen config
    else
      advance
      return config

def hasItem (first : Bool) : Reader Bool := do
  match ← peekToken with
  | none => failNext "EOF while parsing a list"
  | some ']' => return false
  | some c =>
    if first then
      return true
    else if c = ',' then
      advance
      match ← peekToken with
      | some ']' => failNext "trailing comma"
      | some _ => return true
      | none => failNext "EOF while parsing a value"
    else
      failNext "expected `,` or `]`"

def configItems (first : Bool) (config : ColumnConfig) : List Category → Reader ColumnConfig
  | [] => return config
  | category :: more => do
    if ← hasItem first then
      configItems false (config.setColumns category (← readColumns)) more
    else
      return config

def listEnd : Reader Unit := do
  match ← peekToken with
  | some ']' => advance
  | some ',' => do
    advance
    match ← peekToken with
    | some ']' => failNext "trailing comma"
    | _ => failNext "trailing characters"
  | some _ => failNext "trailing characters"
  | none => failNext "EOF while parsing a list"

def readConfig : Reader ColumnConfig := do
  match ← peekToken with
  | some '[' => do
    advance
    let config ← configItems true {} [.props, .slots, .data, .methods]
    listEnd
    return config
  | some '{' => do
    advance
    configMembers ((← get).rest.length + 1) true [] {}
  | none => failNext "EOF while parsing a value"
  | some _ => wrongType "struct ColumnConfig"

def readAll : Reader ColumnConfig := do
  let config ← readConfig
  match ← peekToken with
  | some _ => failNext "trailing characters"
  | none => return config

def ofJson (text : String) : Except Problem ColumnConfig :=
  match readAll.run { rest := text.toList } with
  | .ok (config, _) => .ok config
  | .error fault => .error (.config fault.message)

end ComponentDoc.ColumnConfig
