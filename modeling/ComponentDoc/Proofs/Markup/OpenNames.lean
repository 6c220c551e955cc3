import Mathlib.Algebra.Ring.Nat
import ComponentDoc.Markup.TagName

/-!
The names that are kept of the open elements. While there is room for one more, a start tag puts
its own name in front of the others and changes none of them.
-/

namespace ComponentDoc.Markup.TagName

variable {t : TagName} {names openTags : List TagName} {room : Nat}

theorem cut_eq_self (h : t.name.length ≤ keptLength) : t.cut = t := by
  unfold cut
  split
  . rw [List.take_of_length_le, String.ofList_toList]
    rwa [String.length_toList]
  . rfl

theorem keepNames_eq_self (hcut : ∀ t ∈ names, t.cut = t)
    (hroom : (names.map weight).sum < room) : keepNames room names = names := by
  induction names generalizing room with
  | nil => rfl
  | cons t names ih =>
    rw [List.map_cons, List.sum_cons] at hroom
    rw [keepNames, hcut t List.mem_cons_self, if_pos (by omega), ih _ (by omega)]
    intro u hu
    exact hcut u (List.mem_cons_of_mem t hu)

/--
Whether the names of the open elements are kept as they are and leave `room` bytes.
-/
structure Leave (openTags : List TagName) (room : Nat) : Prop where
  cut_eq : ∀ t ∈ openTags, t.cut = t
  sum_le : (openTags.map weight).sum + room ≤ nameRoom

theorem leave_nil : Leave [] nameRoom where
  cut_eq _ ht := by cases ht
  sum_le := Nat.le_of_eq (Nat.zero_add nameRoom)

namespace Leave

theorem cons (h : Leave openTags room) (hlength : t.name.length ≤ keptLength)
    (hweight : t.weight < room) : Leave (t :: openTags) (room - t.weight) where
  cut_eq u hu := by
    cases hu with
    | head => exact cut_eq_self hlength
    | tail _ hu => exact h.cut_eq u hu
  sum_le := by
    have hsum := h.sum_le
    rw [List.map_cons, List.sum_cons]
    omega

theorem opened_eq (h : Leave openTags room) (hlength : t.name.length ≤ keptLength)
    (hweight : t.weight < room) : t.opened openTags = t :: openTags := by
  have hcons := h.cons hlength hweight
  have hsum := hcons.sum_le
  unfold opened
  rw [keepNames_eq_self, List.reverse_reverse]
  . intro u hu
    exact hcons.cut_eq u (List.mem_reverse.1 hu)
  . rw [List.map_reverse, List.sum_reverse]
    omega

end Leave

end ComponentDoc.Markup.TagName
