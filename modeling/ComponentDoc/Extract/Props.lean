import ComponentDoc.Pass
import ComponentDoc.Record
import ComponentDoc.Extract.Description

/-!
Props. Each entry of the `props` object is a prop, declared by options (`type`, `required`,
`default`) or by its type alone.
-/

namespace ComponentDoc

open Script

def anyType : String :=
  "Any"

def identifierNames (items : List Expr) : List String :=
  items.filterMap fun
    | .identifier name => some name
    | _ => none

/--
The label of a type: the name of an identifier, the names of an array's identifiers with
`delimiter` between them, and `Any` for everything else.
-/
def typeLabel (delimiter : String) : Expr → String
  | .identifier name => name
  | .array items =>
    match identifierNames items with
    | [] => anyType
    | names => delimiter.intercalate names
  | _ => anyType

structure PropOptions where
  type : Option String := none
  required : Option Bool := none
  default : Option String := none
deriving Repr, DecidableEq, Inhabited

/--
Take one option into account. Later options win, and `required` counts only as a literal.
-/
def PropOptions.add (delimiter : String) (o : PropOptions) (option : Entry Expr) : PropOptions :=
  if option.key = "type" then
    { o with type := some (typeLabel delimiter option.value) }
  else if option.key = "required" then
    match option.value with
    | .boolean required => { o with required := some required }
    | _ => o
  else if option.key = "default" then
    { o with default := some option.text }
  else
    o

def PropOptions.ofEntries (delimiter : String) (options : List (Entry Expr)) : PropOptions :=
  options.foldl (PropOptions.add delimiter) {}

/--
The record of one prop. A missing description is reported before a missing type.
-/
def propRecord (entry : Entry Expr) : Pass PropRecord := do
  let desc ← Pass.describe "prop" entry.key (resolveComments entry.comments)
  let delimiter := (← read).typeDelimiter
  match entry.value with
  | .object options =>
    let o := PropOptions.ofEntries delimiter options
    if o.type.isNone then
      Pass.report (.missingType entry.key)
    return ⟨entry.key, o.type, desc, o.required, o.default⟩
  | value =>
    return ⟨entry.key, some (typeLabel delimiter value), desc, none, none⟩

def extractProps (value : Expr) : Pass (OrderedMap String PropRecord) :=
  match value with
  | .object entries =>
    entries.foldlM (fun props entry => do return props.insert entry.key (← propRecord entry)) ∅
  | other => throw (.malformed "props" s!"expected an object literal, found {other.kind}")

end ComponentDoc
