import ComponentDoc.OrderedMap

/-!
Which columns the tables of a document have. Each category has an ordered map from column keys to
labels. A key that is not a part of a record gives a column of empty cells.
-/

namespace ComponentDoc

abbrev Columns := OrderedMap String String

namespace Columns

def basic : Columns :=
  .ofList [("name", "Name"), ("desc", "Description")]

def typed : Columns :=
  .ofList [("name", "Name"), ("desc", "Description"), ("type", "Type")]

end Columns

inductive Category where
  | props
  | slots
  | data
  | methods
deriving Repr, DecidableEq, Inhabited

namespace Category

def key : Category → String
  | .props => "props"
  | .slots => "slots"
  | .data => "data"
  | .methods => "methods"

def ofKey? (key : String) : Option Category :=
  if key = "props" then some .props
  else if key = "slots" then some .slots
  else if key = "data" then some .data
  else if key = "methods" then some .methods
  else none

end Category

structure ColumnConfig where
  props : Columns := .typed
  slots : Columns := .basic
  data : Columns := .basic
  methods : Columns := .basic
deriving DecidableEq, Inhabited

namespace ColumnConfig

def columnsOf (config : ColumnConfig) : Category → Columns
  | .props => config.props
  | .slots => config.slots
  | .data => config.data
  | .methods => config.methods

def setColumns (config : ColumnConfig) (category : Category) (columns : Columns) : ColumnConfig :=
  match category with
  | .props => { config with props := columns }
  | .slots => { config with slots := columns }
  | .data => { config with data := columns }
  | .methods => { config with methods := columns }

end ColumnConfig

end ComponentDoc
