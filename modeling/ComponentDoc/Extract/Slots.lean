import ComponentDoc.Pass
import ComponentDoc.Record
import ComponentDoc.Markup.Node
import ComponentDoc.Extract.Description

/-!
Slots. Every `slot` element of a template is a slot, wherever it is nested. It is described by
the comment directly before it among its siblings.
-/

namespace ComponentDoc

open Markup

/--
The attributes that can name a slot, in order of precedence.
-/
def slotNameAttributes : List String :=
  ["name", ":name", "v-bind:name"]

/--
The name of a slot: the first value of a naming attribute that is not blank.
-/
def slotName (attributes : List Attribute) : String :=
  let values := slotNameAttributes.filterMap (attributeValue attributes)
  (values.find? (fun value => !Text.allBlank value)).getD defaultSlot

def slotDescription (before : Option Node) : Option String :=
  match before with
  | some (.comment text) =>
    let text := cleanComment text false
    if text.isEmpty then none else some text
  | _ => none

abbrev Slots := Option (OrderedMap String Record)

def addSlot (before : Option Node) (attributes : List Attribute) (slots : Slots) : Pass Slots := do
  let name := slotName attributes
  let desc ← Pass.describe "slot" name (slotDescription before)
  return some ((slots.getD ∅).insert name ⟨name, desc⟩)

mutual

/--
Collect the slots of siblings in document order; `before` is the node in front of them.
-/
def collectSlots (before : Option Node) (slots : Slots) : List Node → Pass Slots
  | [] => pure slots
  | node :: rest => do
    let slots ← collectNodeSlots before slots node
    collectSlots (some node) slots rest

def collectNodeSlots (before : Option Node) (slots : Slots) : Node → Pass Slots
  | .element tag attributes children => do
    let slots ← if tag = "slot" then addSlot before attributes slots else pure slots
    collectSlots none slots children
  | .comment _ => pure slots
  | .text _ => pure slots

end

def extractSlots (nodes : List Node) : Pass Slots :=
  collectSlots none none nodes

end ComponentDoc
