import ComponentDoc.Markup.Node

/-!
The nodes of a template in document order: every node before the nodes inside it, and these from
left to right. What is inside a node follows it directly, so that positions in this order tell
which node is inside which.
-/

namespace ComponentDoc.Markup

section Order

variable {ν : Type} {preorder : ν → List ν}

/--
Whether the `i`-th of some nodes in document order is inside the `j`-th: the nodes from the `j`-th
on start with all of that node, which are itself and what is inside it, and the `i`-th is among
these.
-/
def Inside (preorder : ν → List ν) (order : List ν) (i j : Nat) : Prop :=
  ∃ node, order[j]? = some node ∧ preorder node <+: order.drop j ∧
    j < i ∧ i < j + (preorder node).length

/--
Whether every node is followed by what is inside it.
-/
def Blocks (preorder : ν → List ν) (order : List ν) : Prop :=
  ∀ (j : Nat) (node : ν), order[j]? = some node → preorder node <+: order.drop j

theorem blocks_nil : Blocks preorder [] := by
  intro j node h
  cases h

theorem Blocks.cons {node : ν} {inside : List ν} (hnode : preorder node = node :: inside)
    (h : Blocks preorder inside) : Blocks preorder (node :: inside) := by
  intro j other hother
  cases j with
  | zero =>
    cases hother
    rw [hnode]
    exact List.prefix_refl _
  | succ j => exact h j other hother

theorem Blocks.append {left right : List ν} (hleft : Blocks preorder left)
    (hright : Blocks preorder right) : Blocks preorder (left ++ right) := by
  intro j node h
  rw [List.drop_append]
  by_cases hj : j < left.length
  . rw [List.getElem?_append_left hj] at h
    exact (hleft j node h).trans (List.prefix_append _ _)
  . rw [Nat.not_lt] at hj
    rw [List.getElem?_append_right hj] at h
    rw [List.drop_eq_nil_of_le hj, List.nil_append]
    exact hright _ node h

end Order

/--
What a node of a template says, apart from the nodes inside it.
-/
inductive Item where
  | element (tag : String) (attributes : List Attribute)
  | comment (text : String)
  | text (text : String)
deriving Repr, DecidableEq, Inhabited

namespace Node

def item : Node → Item
  | .element tag attributes _ => .element tag attributes
  | .comment body => .comment body
  | .text body => .text body

def children : Node → List Node
  | .element _ _ children => children
  | .comment _ => []
  | .text _ => []

mutual

/--
A node and the nodes inside it, in document order.
-/
def preorder : Node → List Node
  | .element tag attributes children =>
    .element tag attributes children :: preorderForest children
  | .comment body => [.comment body]
  | .text body => [.text body]

def preorderForest : List Node → List Node
  | [] => []
  | node :: nodes => preorder node ++ preorderForest nodes

end

mutual

theorem blocks_preorder (node : Node) : Blocks preorder node.preorder := by
  cases node with
  | element tag attributes children =>
    rw [preorder]
    exact Blocks.cons (by rw [preorder]) (blocks_preorderForest children)
  | comment =>
    rw [preorder]
    exact Blocks.cons (by rw [preorder]) blocks_nil
  | text =>
    rw [preorder]
    exact Blocks.cons (by rw [preorder]) blocks_nil

theorem blocks_preorderForest (nodes : List Node) : Blocks preorder (preorderForest nodes) := by
  cases nodes with
  | nil =>
    rw [preorderForest]
    exact blocks_nil
  | cons node nodes =>
    rw [preorderForest]
    exact (blocks_preorder node).append (blocks_preorderForest nodes)

end

theorem preorder_of_childless {node : Node} (h : node.children = []) : node.preorder = [node] := by
  cases node with
  | element tag attributes children =>
    change children = [] at h
    rw [h, preorder, preorderForest]
  | comment => rw [preorder]
  | text => rw [preorder]

theorem preorderForest_append (left right : List Node) :
    preorderForest (left ++ right) = preorderForest left ++ preorderForest right := by
  induction left with
  | nil => rw [preorderForest, List.nil_append, List.nil_append]
  | cons node left ih =>
    rw [List.cons_append, preorderForest, preorderForest, ih, List.append_assoc]

end Node

end ComponentDoc.Markup
