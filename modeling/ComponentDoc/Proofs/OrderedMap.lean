import Mathlib.Data.List.Induction
import ComponentDoc.OrderedMap

/-!
What is in an ordered map after an insertion, and after many: a key stands where it was inserted
first and has the value that was inserted last.
-/

namespace ComponentDoc.OrderedMap

variable {α β : Type}

theorem mem_insertEntry [DecidableEq α] {k : α} {v : β} {es : List (α × β)} {e : α × β}
    (h : e ∈ insertEntry k v es) : e = (k, v) ∨ e ∈ es := by
  induction es with
  | nil => exact .inl (List.mem_singleton.1 h)
  | cons e' es ih =>
    unfold insertEntry at h
    split at h
    . rw [List.mem_cons] at h
      cases h with
      | inl h => exact .inl h
      | inr h => exact .inr (List.mem_cons_of_mem _ h)
    . rw [List.mem_cons] at h
      cases h with
      | inl h =>
        rw [h]
        exact .inr List.mem_cons_self
      | inr h =>
        cases ih h with
        | inl h => exact .inl h
        | inr h => exact .inr (List.mem_cons_of_mem _ h)

theorem mem_entries_insert [DecidableEq α] {m : OrderedMap α β} {k : α} {v : β} {e : α × β}
    (h : e ∈ (m.insert k v).entries) : e = (k, v) ∨ e ∈ m.entries :=
  mem_insertEntry h

theorem insertEntry_ne_nil [DecidableEq α] (k : α) (v : β) (es : List (α × β)) :
    insertEntry k v es ≠ [] := by
  cases es with
  | nil => simp [insertEntry]
  | cons e es =>
    unfold insertEntry
    split
    . simp
    . simp

section Lookup

variable [DecidableEq α] {k x : α} {v : β} {es : List (α × β)}

theorem map_fst_insertEntry :
    (insertEntry k v es).map Prod.fst =
      if k ∈ es.map Prod.fst then es.map Prod.fst else es.map Prod.fst ++ [k] := by
  induction es with
  | nil => rfl
  | cons e es ih =>
    unfold insertEntry
    by_cases he : e.1 = k
    . simp [he]
    . have hk : ¬ k = e.1 := fun h => he h.symm
      simp only [he, if_false, List.map_cons, ih, List.mem_cons, hk, false_or]
      split
      . rfl
      . rfl

theorem find?_insertEntry :
    (insertEntry k v es).find? (fun e => e.1 = x) =
      if x = k then some (k, v) else es.find? (fun e => e.1 = x) := by
  induction es with
  | nil =>
    unfold insertEntry
    by_cases hx : x = k
    . simp [hx]
    . have hk : ¬ k = x := fun h => hx h.symm
      simp [hx, hk]
  | cons e es ih =>
    unfold insertEntry
    by_cases he : e.1 = k
    . rw [if_pos he, List.find?_cons, List.find?_cons, he]
      by_cases hx : x = k
      . simp [hx]
      . have hk : ¬ k = x := fun h => hx h.symm
        simp [hx, hk]
    . rw [if_neg he, List.find?_cons, List.find?_cons, ih]
      by_cases hx : x = k
      . simp [hx, he]
      . simp [hx]

theorem keys_insert (m : OrderedMap α β) (k : α) (v : β) :
    (m.insert k v).keys = if k ∈ m.keys then m.keys else m.keys ++ [k] :=
  map_fst_insertEntry

theorem get?_insert (m : OrderedMap α β) (k : α) (v : β) (x : α) :
    (m.insert k v).get? x = if x = k then some v else m.get? x := by
  unfold get?
  rw [entries_insert, find?_insertEntry]
  split
  . rfl
  . rfl

theorem ofList_append_singleton (es : List (α × β)) (e : α × β) :
    ofList (es ++ [e]) = (ofList es).insert e.1 e.2 := by
  unfold ofList
  rw [List.foldl_append]
  rfl

theorem keys_ofList (es : List (α × β)) : (ofList es).keys = (es.map Prod.fst).eraseDups := by
  induction es using List.reverseRecOn with
  | nil => rfl
  | append_singleton es e ih =>
    rw [ofList_append_singleton, keys_insert, ih, List.map_append, List.eraseDups_append]
    simp only [List.mem_eraseDups]
    by_cases he : e.1 ∈ es.map Prod.fst
    . rw [if_pos he]
      simp [List.removeAll, he]
    . rw [if_neg he]
      simp [List.removeAll, he, List.eraseDups_cons]

theorem get?_ofList (es : List (α × β)) (x : α) :
    (ofList es).get? x = (es.reverse.find? (fun e => e.1 = x)).map Prod.snd := by
  induction es using List.reverseRecOn with
  | nil => rfl
  | append_singleton es e ih =>
    rw [ofList_append_singleton, get?_insert, ih, List.reverse_append]
    by_cases hx : x = e.1
    . simp [hx]
    . have he : ¬ e.1 = x := fun h => hx h.symm
      simp [hx, he]

section Items

variable {ι : Type} (key : ι → α) (value : ι → β) (items : List ι)

/--
The map that a loop over items leaves when it stores the value of each item at its key.
-/
def collect : OrderedMap α β :=
  items.foldl (fun m item => m.insert (key item) (value item)) ∅

theorem collect_eq_ofList :
    collect key value items = ofList (items.map fun item => (key item, value item)) := by
  unfold collect ofList
  rw [List.foldl_map]
  rfl

theorem keys_collect : (collect key value items).keys = (items.map key).eraseDups := by
  rw [collect_eq_ofList, keys_ofList, List.map_map]
  rfl

theorem get?_collect (x : α) :
    (collect key value items).get? x =
      (items.reverse.find? fun item => key item = x).map value := by
  rw [collect_eq_ofList, get?_ofList, ← List.map_reverse, List.find?_map, Option.map_map]
  rfl

end Items

theorem isSome_get? (m : OrderedMap α β) (x : α) : (m.get? x).isSome ↔ x ∈ m.keys := by
  unfold get? keys
  rw [Option.isSome_map, List.find?_isSome]
  simp

end Lookup

theorem nonEmpty?_eq_some {m n : OrderedMap α β} (h : m.nonEmpty? = some n) :
    n = m ∧ m.entries ≠ [] := by
  unfold nonEmpty? isEmpty at h
  split at h
  . cases h
  . next hne =>
    cases h
    refine ⟨rfl, ?_⟩
    simpa using hne

section MapValues

variable {γ : Type} (f : β → γ)

def mapValues (m : OrderedMap α β) : OrderedMap α γ where
  entries := m.entries.map fun e => (e.1, f e.2)
  nodup := by
    rw [List.map_map]
    exact m.nodup

theorem insertEntry_map [DecidableEq α] (k : α) (v : β) (es : List (α × β)) :
    insertEntry k (f v) (es.map fun e => (e.1, f e.2)) =
      (insertEntry k v es).map fun e => (e.1, f e.2) := by
  induction es with
  | nil => rfl
  | cons e es ih =>
    rw [List.map_cons, insertEntry, insertEntry, ih]
    split
    . rfl
    . rfl

theorem insert_mapValues [DecidableEq α] (m : OrderedMap α β) (k : α) (v : β) :
    (m.mapValues f).insert k (f v) = (m.insert k v).mapValues f :=
  OrderedMap.ext (insertEntry_map f k v m.entries)

theorem nonEmpty?_mapValues (m : OrderedMap α β) :
    (m.mapValues f).nonEmpty? = m.nonEmpty?.map (mapValues f) := by
  unfold nonEmpty? isEmpty mapValues
  rw [List.isEmpty_map]
  split
  . rfl
  . rfl

end MapValues

end ComponentDoc.OrderedMap
