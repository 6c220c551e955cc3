import ComponentDoc.OrderedMap

/-!
What is documented about a component: one record per prop, data field, slot and method, keyed by
name. A category without declarations is absent.
-/

namespace ComponentDoc

structure Record where
  name : String
  desc : String
deriving Repr, DecidableEq, Inhabited

structure PropRecord where
  name : String
  type : Option String
  desc : String
  /-- Whether the prop is required, if the source says so by a literal. -/
  required : Option Bool
  /-- The source text of the default value. -/
  default : Option String
deriving Repr, DecidableEq, Inhabited

class Columnar (ρ : Type) where
  column : ρ → String → Option String

def defaultSlot : String :=
  "-"

namespace Record

def column (r : Record) (key : String) : Option String :=
  if key = "name" then some r.name
  else if key = "desc" then some r.desc
  else none

instance : Columnar Record := ⟨column⟩

end Record

namespace PropRecord

def column (r : PropRecord) (key : String) : Option String :=
  if key = "name" then some r.name
  else if key = "type" then r.type
  else if key = "desc" then some r.desc
  else if key = "required" then r.required.map (fun b => if b then "true" else "false")
  else if key = "default" then r.default
  else none

instance : Columnar PropRecord := ⟨column⟩

end PropRecord

structure ScriptInfo where
  name : Option String := none
  props : Option (OrderedMap String PropRecord) := none
  data : Option (OrderedMap String Record) := none
  methods : Option (OrderedMap String Record) := none
deriving Repr, DecidableEq, Inhabited

structure ComponentInfo where
  name : Option String := none
  props : Option (OrderedMap String PropRecord) := none
  data : Option (OrderedMap String Record) := none
  slots : Option (OrderedMap String Record) := none
  methods : Option (OrderedMap String Record) := none
deriving Repr, DecidableEq, Inhabited

def ScriptInfo.withSlots (info : ScriptInfo) (slots : Option (OrderedMap String Record)) :
    ComponentInfo where
  name := info.name
  props := info.props
  data := info.data
  slots := slots
  methods := info.methods

end ComponentDoc
