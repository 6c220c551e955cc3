import ComponentDoc.Pass
import ComponentDoc.Record
import ComponentDoc.Extract.Description

/-!
The name, the methods and the data fields of a component. Methods are the entries of an object;
data fields are the entries of the object that a function returns.
-/

namespace ComponentDoc

open Script

/--
The component name. The empty string counts as no name.
-/
def extractName (value : Expr) : Except Problem (Option String) :=
  match value with
  | .string name => .ok (if name.isEmpty then none else some name)
  | other => .error (.malformed "name" s!"expected a string literal, found {other.kind}")

def extractRecords (category : String) (entries : List (Entry Expr)) :
    Pass (OrderedMap String Record) :=
  entries.foldlM
    (fun records entry => do
      let desc ← Pass.describe category entry.key (resolveComments entry.comments)
      return records.insert entry.key ⟨entry.key, desc⟩)
    ∅

def extractMethods (value : Expr) : Pass (OrderedMap String Record) :=
  match value with
  | .object entries => extractRecords "method" entries
  | other => throw (.malformed "methods" s!"expected an object literal, found {other.kind}")

def extractData (value : Expr) : Pass (OrderedMap String Record) :=
  match value with
  | .function body =>
    match body.returned with
    | none => throw (.malformed "data" "function returns no value")
    | some (.object entries) => extractRecords "data" entries
    | some other =>
      throw (.malformed "data"
        s!"expected the function to return an object literal, found {other.kind}")
  | other => throw (.malformed "data" s!"expected a function, found {other.kind}")

end ComponentDoc
