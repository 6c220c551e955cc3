import ComponentDoc.Extract.Slots

/-!
The slots of a template as a list. Each `slot` element occurs once, in document order, with the
node directly before it among its siblings; collecting slots is a loop over these occurrences.
-/

namespace ComponentDoc

open Markup

/--
A `slot` element of a template: the node before it and its attributes.
-/
structure SlotOccurrence where
  before : Option Node
  attributes : List Attribute

namespace SlotOccurrence

mutual

/--
The slots among siblings and inside them; `before` is the node in front of the siblings.
-/
def among (before : Option Node) : List Node → List SlotOccurrence
  | [] => []
  | node :: rest => inside before node ++ among (some node) rest

/--
The node itself if it is a slot, then the slots inside it.
-/
def inside (before : Option Node) : Node → List SlotOccurrence
  | .element tag attributes children =>
    if tag = "slot" then ⟨before, attributes⟩ :: among none children else among none children
  | .comment _ => []
  | .text _ => []

end

/--
Add an occurrence to the slots found so far.
-/
def add (slots : Slots) (occurrence : SlotOccurrence) : Pass Slots :=
  addSlot occurrence.before occurrence.attributes slots

end SlotOccurrence

open SlotOccurrence

theorem collectNodeSlots_element (before : Option Node) (slots : Slots) (tag : String)
    (attributes : List Attribute) (children : List Node) :
    collectNodeSlots before slots (.element tag attributes children) =
      if tag = "slot" then
        addSlot before attributes slots >>= fun slots => collectSlots none slots children
      else
        collectSlots none slots children := by
  rw [collectNodeSlots]
  split
  . rfl
  . rw [pure_bind]

mutual

theorem collectSlots_eq_foldlM (before : Option Node) (slots : Slots) (nodes : List Node) :
    collectSlots before slots nodes = (among before nodes).foldlM add slots := by
  cases nodes with
  | nil => rw [collectSlots, among, List.foldlM_nil]
  | cons node rest =>
    rw [collectSlots, among, List.foldlM_append, collectNodeSlots_eq_foldlM before slots node]
    congr 1
    funext slots
    exact collectSlots_eq_foldlM (some node) slots rest

theorem collectNodeSlots_eq_foldlM (before : Option Node) (slots : Slots) (node : Node) :
    collectNodeSlots before slots node = (inside before node).foldlM add slots := by
  cases node with
  | element tag attributes children =>
    rw [collectNodeSlots_element, inside]
    split
    . rw [List.foldlM_cons]
      congr 1
      funext slots
      exact collectSlots_eq_foldlM none slots children
    . exact collectSlots_eq_foldlM none slots children
  | comment => rw [collectNodeSlots, inside, List.foldlM_nil]
  | text => rw [collectNodeSlots, inside, List.foldlM_nil]

end

theorem extractSlots_eq_foldlM (nodes : List Node) :
    extractSlots nodes = (among none nodes).foldlM add none :=
  collectSlots_eq_foldlM none none nodes

end ComponentDoc
