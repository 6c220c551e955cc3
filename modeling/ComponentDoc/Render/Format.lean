import ComponentDoc.Render.Markdown
import ComponentDoc.Render.Json
import ComponentDoc.Problem

/-!
The formats in which a component can be documented.
-/

namespace ComponentDoc

inductive Format where
  | markdown
  | json
deriving Repr, DecidableEq, Inhabited

namespace Format

def ofName (name : String) : Except Problem Format :=
  if name = "markdown" || name = "md" then .ok .markdown
  else if name = "json" then .ok .json
  else .error (.config s!"unknown format: {name}. Use markdown or json")

def fileExtension : Format → String
  | .markdown => "md"
  | .json => "json"

def render (format : Format) (info : ComponentInfo) (config : ColumnConfig) : String :=
  match format with
  | .markdown => Markdown.render info config
  | .json => info.jsonText

end Format

end ComponentDoc
