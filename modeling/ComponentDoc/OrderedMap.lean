/-!
Maps that remember the order in which their keys were first inserted. Inserting a key that is
already there replaces its value and leaves its place alone.
-/

namespace ComponentDoc

/--
A finite map with pairwise distinct keys, kept in the order of first insertion.
-/
structure OrderedMap (α β : Type) where
  entries : List (α × β)
  nodup : (entries.map Prod.fst).Nodup

namespace OrderedMap

variable {α β : Type}

instance [BEq α] [BEq β] : BEq (OrderedMap α β) where
  beq m n := m.entries == n.entries

instance [DecidableEq α] [DecidableEq β] : DecidableEq (OrderedMap α β) := fun m n =>
  if h : m.entries = n.entries then
    isTrue (by cases m; cases n; simp_all)
  else
    isFalse (fun e => h (congrArg entries e))

instance [Repr α] [Repr β] : Repr (OrderedMap α β) where
  reprPrec m n := reprPrec m.entries n

@[ext]
theorem ext {m n : OrderedMap α β} (h : m.entries = n.entries) : m = n := by
  cases m
  cases n
  simp_all

def empty : OrderedMap α β :=
  ⟨[], List.nodup_nil⟩

instance : Inhabited (OrderedMap α β) := ⟨empty⟩

instance : EmptyCollection (OrderedMap α β) := ⟨empty⟩

def keys (m : OrderedMap α β) : List α :=
  m.entries.map Prod.fst

def values (m : OrderedMap α β) : List β :=
  m.entries.map Prod.snd

def isEmpty (m : OrderedMap α β) : Bool :=
  m.entries.isEmpty

def get? [DecidableEq α] (m : OrderedMap α β) (k : α) : Option β :=
  (m.entries.find? (fun e => e.1 = k)).map Prod.snd

/--
Put a pair into a list of pairs: at the place of its key if that occurs, at the end otherwise.
-/
def insertEntry [DecidableEq α] (k : α) (v : β) : List (α × β) → List (α × β)
  | [] => [(k, v)]
  | e :: es => if e.1 = k then (k, v) :: es else e :: insertEntry k v es

theorem mem_keys_insertEntry [DecidableEq α] {k x : α} {v : β} {es : List (α × β)} :
    x ∈ (insertEntry k v es).map Prod.fst ↔ x = k ∨ x ∈ es.map Prod.fst := by
  induction es with
  | nil => simp [insertEntry]
  | cons e es ih =>
    by_cases h : e.1 = k
    · simp [insertEntry, h]
    · simp only [insertEntry, h, if_false, List.map_cons, List.mem_cons, ih]
      constructor
      · rintro (h | h | h) <;> simp [h]
      · rintro (h | h | h) <;> simp [h]

theorem nodup_insertEntry [DecidableEq α] {k : α} {v : β} {es : List (α × β)}
    (h : (es.map Prod.fst).Nodup) : ((insertEntry k v es).map Prod.fst).Nodup := by
  induction es with
  | nil => simp [insertEntry]
  | cons e es ih =>
    rw [List.map_cons, List.nodup_cons] at h
    by_cases he : e.1 = k
    · rw [insertEntry, if_pos he, List.map_cons, List.nodup_cons]
      exact ⟨he ▸ h.1, h.2⟩
    · rw [insertEntry, if_neg he, List.map_cons, List.nodup_cons]
      exact ⟨fun hm => (mem_keys_insertEntry.1 hm).elim he h.1, ih h.2⟩

/--
Store a value at a key. A key that is already there keeps its place.
-/
def insert [DecidableEq α] (m : OrderedMap α β) (k : α) (v : β) : OrderedMap α β :=
  ⟨insertEntry k v m.entries, nodup_insertEntry m.nodup⟩

def ofList [DecidableEq α] (es : List (α × β)) : OrderedMap α β :=
  es.foldl (fun m e => m.insert e.1 e.2) empty

def nonEmpty? (m : OrderedMap α β) : Option (OrderedMap α β) :=
  if m.isEmpty then none else some m

theorem entries_insert [DecidableEq α] (m : OrderedMap α β) (k : α) (v : β) :
    (m.insert k v).entries = insertEntry k v m.entries :=
  rfl

@[simp]
theorem entries_empty : (empty : OrderedMap α β).entries = [] :=
  rfl

end OrderedMap

end ComponentDoc
