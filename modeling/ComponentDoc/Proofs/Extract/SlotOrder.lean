import ComponentDoc.Proofs.Extract.Description
import ComponentDoc.Proofs.Extract.SlotOccurrence
import ComponentDoc.Proofs.Markup.DocumentOrder
import ComponentDoc.Proofs.OrderedMap

/-!
What a tolerant pass makes of the slots of a template. The slot elements come in document order,
however deep they are nested. Each name has one record, at the place of the first slot with the
name and described by the comment before the last one. Every slot without such a comment is
reported, not only those whose record stays.
-/

namespace ComponentDoc

open Pass Markup Text

theorem isEmpty_trim (text : String) : (trim text).isEmpty = allBlank text := by
  have hnil : trimChars text.toList = [] ↔ ∀ c ∈ text.toList, isBlank c = true := by
    constructor
    . intro h
      obtain ⟨before, after, hbefore, hafter, hsplit⟩ := exists_blank_split text.toList
      rw [h, List.append_nil] at hsplit
      rw [hsplit]
      intro c hc
      exact (List.mem_append.1 hc).elim (hbefore c) (hafter c)
    . intro h
      have hdrop := trimChars_of_blank_split h trimmed_nil (fun c hc => absurd hc List.not_mem_nil)
      rw [List.append_nil, List.append_nil] at hdrop
      exact hdrop
  rw [Bool.eq_iff_iff, allBlank, List.all_eq_true, ← hnil, trim, String.isEmpty_iff]
  simp

theorem find?_filterMap_cons {α β : Type} (f : α → Option β) (p : β → Bool) (a : α) (as : List α) :
    ((a :: as).filterMap f).find? p = ((f a).filter p).or ((as.filterMap f).find? p) := by
  cases h : f a with
  | none =>
    rw [List.filterMap_cons_none h]
    rfl
  | some b =>
    rw [List.filterMap_cons_some h, List.find?_cons, Option.filter_some]
    cases p b with
    | true => rfl
    | false => rfl

namespace SlotOccurrence

/--
The attributes of a node that is a slot.
-/
def attributes? : Node → Option (List Attribute)
  | .element tag attributes _ => if tag = "slot" then some attributes else none
  | .comment _ => none
  | .text _ => none

mutual

theorem map_attributes_among (before : Option Node) (nodes : List Node) :
    (among before nodes).map attributes = (Node.preorderForest nodes).filterMap attributes? := by
  cases nodes with
  | nil => rw [among, Node.preorderForest, List.map_nil, List.filterMap_nil]
  | cons node nodes =>
    rw [among, Node.preorderForest, List.map_append, List.filterMap_append,
      map_attributes_inside before node, map_attributes_among (some node) nodes]

theorem map_attributes_inside (before : Option Node) (node : Node) :
    (inside before node).map attributes = node.preorder.filterMap attributes? := by
  cases node with
  | element tag attributes children =>
    rw [inside, Node.preorder]
    by_cases h : tag = "slot"
    . have hslot : attributes? (.element tag attributes children) = some attributes := if_pos h
      rw [if_pos h, List.map_cons, map_attributes_among none children,
        List.filterMap_cons_some hslot]
    . have hother : attributes? (.element tag attributes children) = none := if_neg h
      rw [if_neg h, map_attributes_among none children, List.filterMap_cons_none hother]
  | comment => rfl
  | text => rfl

end

/--
The value of the first attribute with a given name, unless that is blank.
-/
def value? (occurrence : SlotOccurrence) (attributeName : String) : Option String :=
  (attributeValue occurrence.attributes attributeName).filter fun value => !allBlank value

def name (occurrence : SlotOccurrence) : String :=
  ((occurrence.value? "name").or
    ((occurrence.value? ":name").or (occurrence.value? "v-bind:name"))).getD "-"

/--
The text of the comment directly before a slot, unless that is blank.
-/
def remark? (occurrence : SlotOccurrence) : Option String :=
  match occurrence.before with
  | some (.comment text) => if allBlank text then none else some (trim text)
  | _ => none

def record (options : Options) (occurrence : SlotOccurrence) : Record :=
  ⟨occurrence.name, occurrence.remark?.getD options.noDescription⟩

def gaps (occurrence : SlotOccurrence) : List Problem :=
  if occurrence.remark?.isNone then [.missingDescription "slot" occurrence.name] else []

theorem slotName_eq_name (occurrence : SlotOccurrence) :
    slotName occurrence.attributes = occurrence.name := by
  unfold slotName slotNameAttributes
  dsimp only
  rw [find?_filterMap_cons, find?_filterMap_cons, find?_filterMap_cons, List.filterMap_nil,
    List.find?_nil, Option.or_none]
  rfl

theorem slotDescription_eq_remark? (occurrence : SlotOccurrence) :
    slotDescription occurrence.before = occurrence.remark? := by
  unfold remark?
  cases occurrence.before with
  | none => rfl
  | some node =>
    cases node with
    | comment text =>
      have hclean : cleanComment text false = trim text := rfl
      simp only [slotDescription, hclean, isEmpty_trim]
    | _ => rfl

/--
The slots found so far and one more occurrence.
-/
def addTo (options : Options) (slots : Slots) (occurrence : SlotOccurrence) : Slots :=
  some ((slots.getD ∅).insert occurrence.name (occurrence.record options))

/--
The slots of a template, given their occurrences in document order.
-/
def collected (options : Options) (occurrences : List SlotOccurrence) : Slots :=
  match occurrences with
  | [] => none
  | _ :: _ => some (.collect name (record options) occurrences)

theorem collected_eq_none_iff (options : Options) (occurrences : List SlotOccurrence) :
    collected options occurrences = none ↔ occurrences = [] := by
  cases occurrences with
  | nil => simp [collected]
  | cons => simp [collected]

theorem eq_collect_of_collected {options : Options} {occurrences : List SlotOccurrence}
    {map : OrderedMap String Record} (h : collected options occurrences = some map) :
    map = .collect name (record options) occurrences := by
  cases occurrences with
  | nil => cases h
  | cons => exact (Option.some.inj h).symm

theorem foldl_addTo_some (options : Options) (occurrences : List SlotOccurrence)
    (map : OrderedMap String Record) :
    occurrences.foldl (addTo options) (some map) =
      some (occurrences.foldl (fun map occurrence =>
        map.insert occurrence.name (occurrence.record options)) map) := by
  induction occurrences generalizing map with
  | nil => rfl
  | cons occurrence occurrences ih => exact ih _

theorem foldl_addTo (options : Options) (occurrences : List SlotOccurrence) :
    occurrences.foldl (addTo options) none = collected options occurrences := by
  cases occurrences with
  | nil => rfl
  | cons occurrence occurrences => exact foldl_addTo_some options occurrences _

section Tolerant

variable {options : Options} (hmode : options.strict = false)
include hmode

theorem exec_add (slots : Slots) (occurrence : SlotOccurrence) (log : List Problem) :
    (occurrence.add slots).exec options log =
      (.ok (addTo options slots occurrence), log ++ occurrence.gaps) := by
  unfold SlotOccurrence.add addSlot
  rw [slotName_eq_name, slotDescription_eq_remark?, exec_bind_of_ok (exec_describe hmode _ _ _)]
  rfl

theorem exec_extractSlots (nodes : List Node) (log : List Problem) :
    (extractSlots nodes).exec options log =
      (.ok (collected options (among none nodes)), log ++ (among none nodes).flatMap gaps) := by
  rw [extractSlots_eq_foldlM, exec_foldlM_of_step (exec_add hmode), foldl_addTo]

end Tolerant

end SlotOccurrence

open SlotOccurrence

/--
A tolerant pass finds the slots of every template, which are all its slot elements in document
order, each with the node before it. The result is there exactly if a slot is. Its keys are the
names of the slots in the order in which they occur first, and the record of a name is that of the
last slot with the name. The log grows by one problem for each slot that no comment describes, in
document order.
-/
theorem extractSlots_inDocumentOrder {options : Options} (hmode : options.strict = false)
    (nodes : List Node) (log : List Problem) :
    ∃ slots,
      (extractSlots nodes).exec options log =
        (.ok slots, log ++ (among none nodes).flatMap gaps) ∧
      (among none nodes).map attributes = (Node.preorderForest nodes).filterMap attributes? ∧
      (slots = none ↔ among none nodes = []) ∧
      ∀ map, slots = some map →
        map.keys = ((among none nodes).map name).eraseDups ∧
        ∀ key, map.get? key =
          ((among none nodes).reverse.find? fun occurrence => occurrence.name = key).map
            fun occurrence => ⟨key, occurrence.remark?.getD options.noDescription⟩ := by
  refine ⟨_, exec_extractSlots hmode nodes log, map_attributes_among none nodes,
    collected_eq_none_iff options _, ?_⟩
  intro map hmap
  rw [eq_collect_of_collected hmap]
  refine ⟨OrderedMap.keys_collect _ _ _, ?_⟩
  intro key
  rw [OrderedMap.get?_collect]
  apply Option.map_congr
  intro last hlast
  have hname : last.name = key := by simpa using List.find?_some hlast
  rw [record, hname]

/--
A slot inside another one, and a second slot without a name, which takes the place of the first
although nothing describes it.
-/
theorem extractSlots_inDocumentOrder_repeated :
    ∃ (nodes : List Node) (slots : Slots),
      (extractSlots nodes).exec {} [] = (.ok slots, [.missingDescription "slot" "-"]) ∧
      ∃ map, slots = some map ∧ map.keys = ["-", "inner"] ∧
        map.get? "-" = some ⟨"-", "no description"⟩ ∧
        map.get? "inner" = some ⟨"inner", "within"⟩ := by
  let nodes : List Node :=
    [.comment " first ",
      .element "slot" [] [.comment " within ", .element "slot" [⟨":name", some "inner"⟩] []],
      .element "slot" [⟨"name", some " "⟩] []]
  obtain ⟨slots, hexec, _, hnone, hsome⟩ := @extractSlots_inDocumentOrder {} rfl nodes []
  refine ⟨nodes, slots, hexec, ?_⟩
  cases slots with
  | none => cases hnone.1 rfl
  | some map =>
    obtain ⟨hkeys, hget⟩ := hsome map rfl
    exact ⟨map, rfl, hkeys, hget "-", hget "inner"⟩

end ComponentDoc
