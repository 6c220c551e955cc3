import ComponentDoc.Record
import ComponentDoc.Json.Value

/-!
Documents in JSON: the records themselves, an absent category as `null`.
-/

namespace ComponentDoc

open Json

def Record.toJson (r : Record) : Value :=
  .object [("name", .string r.name), ("desc", .string r.desc)]

/--
The JSON value of a prop. What the source does not say about `required` and `default` is left
out.
-/
def PropRecord.toJson (r : PropRecord) : Value :=
  .object <|
    [("name", .string r.name), ("type", .ofOption r.type), ("desc", .string r.desc)]
      ++ (r.required.map fun required => ("required", Value.bool required)).toList
      ++ (r.default.map fun text => ("default", Value.string text)).toList

def categoryJson {ρ : Type} (toJson : ρ → Value) : Option (OrderedMap String ρ) → Value
  | none => .null
  | some records => .object (records.entries.map fun e => (e.1, toJson e.2))

def ComponentInfo.toJson (info : ComponentInfo) : Value :=
  .object [
    ("name", .ofOption info.name),
    ("props", categoryJson PropRecord.toJson info.props),
    ("data", categoryJson Record.toJson info.data),
    ("slots", categoryJson Record.toJson info.slots),
    ("methods", categoryJson Record.toJson info.methods)]

def ComponentInfo.jsonText (info : ComponentInfo) : String :=
  info.toJson.pretty ++ "\n"

end ComponentDoc
