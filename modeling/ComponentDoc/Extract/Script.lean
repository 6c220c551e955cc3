import ComponentDoc.Extract.Props
import ComponentDoc.Extract.Fields

/-!
The script of a component. Its default export is an options object, or a call whose first
argument is one; four fields of that object carry documentation. A field of the wrong shape is
reported and leaves the others alone.
-/

namespace ComponentDoc

open Script

inductive FieldKind where
  | name
  | props
  | methods
  | data
deriving Repr, DecidableEq, Inhabited

def FieldKind.ofKey? (key : String) : Option FieldKind :=
  if key = "name" then some .name
  else if key = "props" then some .props
  else if key = "methods" then some .methods
  else if key = "data" then some .data
  else none

def calleeName : Expr → String
  | .identifier name => name
  | .other _ text => text
  | callee => callee.kind

def optionsObject (defaultExport : Option Expr) : Except Problem (List (Entry Expr)) :=
  match defaultExport with
  | none => .error (.malformed "export default" "no default export found")
  | some (.object entries) => .ok entries
  | some (.call _ (.object entries :: _)) => .ok entries
  | some (.call callee _) =>
    .error (.malformed "export default"
      s!"expected the first argument of `{calleeName callee}` to be an options object")
  | some other =>
    .error (.malformed "export default"
      s!"expected a component options object, found {other.kind}")

def extractField (kind : FieldKind) (value : Expr) (info : ScriptInfo) : Pass ScriptInfo :=
  match kind with
  | .name =>
    match extractName value with
    | .ok name => return { info with name }
    | .error problem => throw problem
  | .props => return { info with props := (← extractProps value).nonEmpty? }
  | .methods => return { info with methods := (← extractMethods value).nonEmpty? }
  | .data => return { info with data := (← extractData value).nonEmpty? }

/--
Take one entry of the options object into account. Entries that are not documented change
nothing; a problem that stops an extractor is reported.
-/
def extractEntry (info : ScriptInfo) (entry : Entry Expr) : Pass ScriptInfo :=
  match FieldKind.ofKey? entry.key with
  | none => pure info
  | some kind => do
    match ← (extractField kind entry.value info).attempt with
    | .ok info => return info
    | .error problem =>
      Pass.report problem
      return info

def extractScript (defaultExport : Option Expr) : Pass ScriptInfo :=
  match optionsObject defaultExport with
  | .ok entries => entries.foldlM extractEntry {}
  | .error problem => throw problem

end ComponentDoc
