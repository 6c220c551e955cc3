import ComponentDoc.SyntaxTree

/-!
Stretches of a source at which a known text stands, and faults and nodes of syntax trees.
-/

namespace ComponentDoc

theorem drop_add_of_drop {source front rest : List Char} {o : Nat}
    (h : source.drop o = front ++ rest) : source.drop (o + front.length) = rest := by
  rw [← List.drop_drop, h, List.drop_left]

theorem Span.slice_of_drop {source front rest : List Char} {o : Nat}
    (h : source.drop o = front ++ rest) :
    Span.slice ⟨o, o + front.length⟩ source = front := by
  unfold Span.slice
  dsimp only
  rw [h, Nat.add_sub_cancel_left, List.take_left]

theorem Span.text_of_drop {source rest : List Char} {s : String} {o : Nat}
    (h : source.drop o = s.toList ++ rest) :
    Span.text ⟨o, o + s.toList.length⟩ source = s := by
  rw [Span.text, Span.slice_of_drop h, String.ofList_toList]

theorem Span.slice_append {source : List Char} {a b c : Nat} (hab : a ≤ b) (hbc : b ≤ c) :
    Span.slice ⟨a, b⟩ source ++ Span.slice ⟨b, c⟩ source = Span.slice ⟨a, c⟩ source := by
  have hlength : c - a = (b - a) + (c - b) := by omega
  unfold Span.slice
  dsimp only
  rw [hlength, List.take_add, List.drop_drop, Nat.add_sub_cancel' hab]

theorem Span.text_append {source : List Char} {a b c : Nat} (hab : a ≤ b) (hbc : b ≤ c) :
    Span.text ⟨a, b⟩ source ++ Span.text ⟨b, c⟩ source = Span.text ⟨a, c⟩ source := by
  unfold Span.text
  rw [← String.ofList_append, Span.slice_append hab hbc]

namespace SyntaxTree

variable {κ : Type}

theorem firstFaultForest_append (ts us : List (SyntaxTree κ)) :
    firstFaultForest (ts ++ us) = (firstFaultForest ts).or (firstFaultForest us) := by
  induction ts with
  | nil => rfl
  | cons t ts ih =>
    rw [List.cons_append, firstFaultForest, firstFaultForest, ih]
    cases t.firstFault with
    | none => rfl
    | some offset => rfl

theorem firstFaultForest_cons {t : SyntaxTree κ} {ts : List (SyntaxTree κ)}
    (ht : t.firstFault = none) (hts : firstFaultForest ts = none) :
    firstFaultForest (t :: ts) = none := by
  rw [firstFaultForest, ht, hts]

section Preorder

variable {t u : SyntaxTree κ} {ts parts : List (SyntaxTree κ)} {label : κ} {span : Span}

theorem mem_preorderForest : u ∈ preorderForest ts ↔ ∃ t ∈ ts, u ∈ t.preorder := by
  induction ts with
  | nil => simp [preorderForest]
  | cons t ts ih => simp [preorderForest, ih]

theorem mem_preorder_node : u ∈ (node label span parts).preorder ↔
    u = .node label span parts ∨ ∃ part ∈ parts, u ∈ part.preorder := by
  rw [preorder, List.mem_cons, mem_preorderForest]

theorem self_mem_preorder (t : SyntaxTree κ) : t ∈ t.preorder := by
  cases t with
  | node => exact List.mem_cons_self
  | error => exact List.mem_cons_self
  | missing => exact List.mem_cons_self

theorem mem_preorder_of_child {part : SyntaxTree κ} (hpart : part ∈ t.children)
    (hu : u ∈ part.preorder) : u ∈ t.preorder := by
  cases t with
  | node label span parts => exact mem_preorder_node.2 (.inr ⟨part, hpart, hu⟩)
  | error span parts =>
    rw [preorder]
    exact List.mem_cons_of_mem _ (mem_preorderForest.2 ⟨part, hpart, hu⟩)
  | missing label position => cases hpart

end Preorder

end SyntaxTree

end ComponentDoc
