import ComponentDoc.Proofs.Markup.TagParts

/-!
What becomes of the nodes of a syntax tree in the template. Elements, comments and texts come over
one by one, in document order; nothing is lost, doubled or moved in front of something else. Only
the nesting changes: a node is inside an element exactly if it is inside it in the syntax tree and
the element has an end of its own.
-/

namespace ComponentDoc.Markup

namespace Kind

def isElement : Kind → Bool
  | .element | .scriptElement | .styleElement => true
  | _ => false

def isLeaf : Kind → Bool
  | .comment | .text | .rawText | .entity => true
  | _ => false

end Kind

namespace Tree

/--
What a node of the syntax tree says in a template, if it is an element, a comment or a text.
-/
def item? (source : List Char) (t : Tree) : Option Item :=
  match t.label? with
  | some .element | some .scriptElement | some .styleElement => some (elementItem source t)
  | some .comment => some (.comment (String.ofList (commentText source t)))
  | some .text | some .rawText | some .entity => some (.text (t.text source))
  | _ => none

/--
Whether an element has an end of its own.
-/
def isClosed (t : Tree) : Bool :=
  t.children.any fun part => is part .endTag || is part .selfClosingTag

mutual

/--
The elements, comments and texts of a syntax tree in document order, as far as they are reached
through elements and errors.
-/
def shown : Tree → List Tree
  | .node kind span parts =>
    if kind.isElement then .node kind span parts :: shownForest parts
    else if kind.isLeaf then [.node kind span parts]
    else []
  | .error _ children => shownForest children
  | .missing kind position =>
    if kind.isElement || kind.isLeaf then [.missing kind position] else []

def shownForest : List Tree → List Tree
  | [] => []
  | t :: ts => shown t ++ shownForest ts

end

mutual

theorem blocks_shown (t : Tree) : Blocks shown (shown t) := by
  cases t with
  | node kind span parts =>
    rw [shown]
    split
    . next h => exact Blocks.cons (by rw [shown, if_pos h]) (blocks_shownForest parts)
    . next helement =>
      split
      . next h => exact Blocks.cons (by rw [shown, if_neg helement, if_pos h]) blocks_nil
      . exact blocks_nil
  | error span children =>
    rw [shown]
    exact blocks_shownForest children
  | missing kind position =>
    rw [shown]
    split
    . next h => exact Blocks.cons (by rw [shown, if_pos h]) blocks_nil
    . exact blocks_nil

theorem blocks_shownForest (ts : List Tree) : Blocks shown (shownForest ts) := by
  cases ts with
  | nil =>
    rw [shownForest]
    exact blocks_nil
  | cons t ts =>
    rw [shownForest]
    exact (blocks_shown t).append (blocks_shownForest ts)

end

end Tree

open Node Markup.Tree

/--
How a node of the template matches the node of the syntax tree that it comes from.
-/
structure Matches (source : List Char) (t : Tree) (node : Node) : Prop where
  item_eq : t.item? source = some node.item
  length_eq : t.isClosed = true → node.preorder.length = (shown t).length
  childless : t.isClosed = false → node.children = []

theorem lowerNode_of_isElement {source : List Char} {kind : Kind} (h : kind.isElement = true)
    (span : Span) (parts : List Tree) (inside : List Node) :
    lowerNode source kind span parts inside = placeElement source parts inside := by
  cases kind with
  | element => rfl
  | scriptElement => rfl
  | styleElement => rfl
  | _ => cases h

theorem item?_of_isElement (source : List Char) {t : Tree} {kind : Kind}
    (hlabel : t.label? = some kind) (h : kind.isElement = true) :
    t.item? source = some (.element (openingOf source t.children).1
      (openingOf source t.children).2) := by
  unfold item?
  rw [hlabel, elementItem_eq]
  cases kind with
  | element => rfl
  | scriptElement => rfl
  | styleElement => rfl
  | _ => cases h

theorem lowerNode_of_isLeaf (source : List Char) {t : Tree} {kind : Kind}
    (hlabel : t.label? = some kind) (h : kind.isLeaf = true) (inside : List Node) :
    ∃ node : Node, lowerNode source kind t.span t.children inside = [node] ∧
      t.item? source = some node.item ∧ node.children = [] := by
  unfold item?
  rw [hlabel]
  cases kind with
  | comment =>
    refine ⟨_, rfl, ?_, rfl⟩
    rw [← commentBody_slice]
    rfl
  | text => exact ⟨_, rfl, rfl, rfl⟩
  | rawText => exact ⟨_, rfl, rfl, rfl⟩
  | entity => exact ⟨_, rfl, rfl, rfl⟩
  | _ => cases h

theorem lowerNode_of_neither {source : List Char} {kind : Kind} (helement : ¬ kind.isElement = true)
    (hleaf : ¬ kind.isLeaf = true) (span : Span) (parts : List Tree) (inside : List Node) :
    lowerNode source kind span parts inside = [] := by
  cases kind with
  | element => cases helement rfl
  | scriptElement => cases helement rfl
  | styleElement => cases helement rfl
  | comment => cases hleaf rfl
  | text => cases hleaf rfl
  | rawText => cases hleaf rfl
  | entity => cases hleaf rfl
  | _ => rfl

theorem placeElement_eq (source : List Char) (t : Tree) (inside : List Node) :
    placeElement source t.children inside =
      if t.isClosed then
        [.element (openingOf source t.children).1 (openingOf source t.children).2 inside]
      else
        .element (openingOf source t.children).1 (openingOf source t.children).2 [] :: inside :=
  rfl

section Lowering

variable {source : List Char} {t : Tree} {kind : Kind} {inside : List Node}

theorem matches_placeElement (hlabel : t.label? = some kind) (hkind : kind.isElement = true)
    (hshown : shown t = t :: shownForest t.children)
    (h : List.Forall₂ (Matches source) (shownForest t.children) (preorderForest inside)) :
    List.Forall₂ (Matches source) (t :: shownForest t.children)
      (preorderForest (placeElement source t.children inside)) := by
  have hitem := item?_of_isElement source hlabel hkind
  rw [placeElement_eq]
  by_cases hclosed : t.isClosed = true
  . rw [if_pos hclosed, preorderForest, preorderForest, List.append_nil, preorder]
    refine .cons ⟨hitem, ?_, ?_⟩ h
    . intro _
      rw [hshown, preorder, List.length_cons, List.length_cons, h.length_eq]
    . intro hopen
      rw [hopen] at hclosed
      cases hclosed
  . rw [if_neg hclosed, preorderForest, preorder, preorderForest, List.singleton_append]
    refine .cons ⟨hitem, ?_, fun _ => rfl⟩ h
    intro h
    cases hclosed h

theorem matches_lowerNode (hlabel : t.label? = some kind)
    (hshown : shown t =
      if kind.isElement then t :: shownForest t.children else if kind.isLeaf then [t] else [])
    (h : List.Forall₂ (Matches source) (shownForest t.children) (preorderForest inside)) :
    List.Forall₂ (Matches source) (shown t)
      (preorderForest (lowerNode source kind t.span t.children inside)) := by
  by_cases helement : kind.isElement = true
  . rw [if_pos helement] at hshown
    rw [lowerNode_of_isElement helement, hshown]
    exact matches_placeElement hlabel helement hshown h
  . rw [if_neg helement] at hshown
    by_cases hleaf : kind.isLeaf = true
    . obtain ⟨node, hnode, hitem, hchildless⟩ := lowerNode_of_isLeaf source hlabel hleaf inside
      have hpreorder := preorder_of_childless hchildless
      rw [if_pos hleaf] at hshown
      rw [hshown, hnode, preorderForest, preorderForest, List.append_nil, hpreorder]
      refine .cons ⟨hitem, ?_, fun _ => hchildless⟩ .nil
      intro _
      rw [hpreorder, hshown]
      rfl
    . rw [if_neg hleaf] at hshown
      rw [lowerNode_of_neither helement hleaf, hshown, preorderForest]
      exact .nil

end Lowering

mutual

theorem matches_lowerTree (source : List Char) (t : Tree) :
    List.Forall₂ (Matches source) (shown t) (preorderForest (lowerTree source t)) := by
  cases t with
  | node kind span parts =>
    rw [lowerTree]
    apply @matches_lowerNode source (.node kind span parts) kind _ rfl
    . rw [shown]
      rfl
    . exact matches_lowerForest source parts
  | error span children =>
    rw [shown, lowerTree]
    exact matches_lowerForest source children
  | missing kind position =>
    rw [lowerTree]
    apply @matches_lowerNode source (.missing kind position) kind _ rfl
    . rw [shown]
      cases kind.isElement with
      | true => rfl
      | false => rfl
    . exact .nil

theorem matches_lowerForest (source : List Char) (ts : List Tree) :
    List.Forall₂ (Matches source) (shownForest ts) (preorderForest (lowerForest source ts)) := by
  cases ts with
  | nil => exact .nil
  | cons t ts =>
    rw [shownForest, lowerForest, preorderForest_append]
    exact List.rel_append (matches_lowerTree source t) (matches_lowerForest source ts)

end

theorem rel_getElem? {α β : Type} {R : α → β → Prop} {as : List α} {bs : List β}
    (h : List.Forall₂ R as bs) (i : Nat) : Option.Rel R as[i]? bs[i]? := by
  induction h generalizing i with
  | nil => exact .none
  | cons hab _ ih =>
    cases i with
    | zero => exact .some hab
    | succ i => exact ih i

theorem inside_lowerForest_iff (source : List Char) (trees : List Tree) (i j : Nat) :
    Inside preorder (preorderForest (lowerForest source trees)) i j ↔
      Inside shown (shownForest trees) i j ∧
        ∃ t : Tree, (shownForest trees)[j]? = some t ∧ t.isClosed = true := by
  have hrel := rel_getElem? (matches_lowerForest source trees) j
  constructor
  . rintro ⟨node, hnode, _, hlt, hend⟩
    rw [hnode] at hrel
    generalize hreached : (shownForest trees)[j]? = reached at hrel
    cases hrel with
    | @some t _ h =>
      have hclosed : t.isClosed = true := by
        -- A node without children has no room for another one.
        by_contra hopen
        rw [Bool.not_eq_true] at hopen
        rw [preorder_of_childless (h.childless hopen), List.length_singleton] at hend
        omega
      rw [h.length_eq hclosed] at hend
      exact ⟨⟨t, hreached, blocks_shownForest trees j t hreached, hlt, hend⟩, t, rfl, hclosed⟩
  . rintro ⟨⟨t, ht, _, hlt, hend⟩, other, hother, hclosed⟩
    rw [ht] at hother hrel
    cases hother
    generalize hlowered : (preorderForest (lowerForest source trees))[j]? = lowered at hrel
    cases hrel with
    | @some _ node h =>
      rw [← h.length_eq hclosed] at hend
      exact ⟨node, hlowered, blocks_preorderForest _ j node hlowered, hlt, hend⟩

/--
The nodes of a lowered forest are the elements, comments and texts of the syntax trees, one for
one and in document order. An element without an end of its own has no children, and one node is
inside another exactly if it is in the syntax tree and the other one has an end of its own.
-/
theorem lowerForest_keeps_order (source : List Char) (trees : List Tree) :
    (preorderForest (lowerForest source trees)).map (fun node => some node.item) =
      (shownForest trees).map (item? source) ∧
    (∀ (i : Nat) (t : Tree) (node : Node), (shownForest trees)[i]? = some t →
      (preorderForest (lowerForest source trees))[i]? = some node →
        t.isClosed = false → node.children = []) ∧
    ∀ i j, Inside preorder (preorderForest (lowerForest source trees)) i j ↔
      Inside shown (shownForest trees) i j ∧
        ∃ t : Tree, (shownForest trees)[j]? = some t ∧ t.isClosed = true := by
  have hmatches := matches_lowerForest source trees
  refine ⟨?_, ?_, inside_lowerForest_iff source trees⟩
  . rw [← List.forall₂_eq_eq_eq, List.forall₂_map_left_iff, List.forall₂_map_right_iff]
    exact (hmatches.imp fun _ _ h => h.item_eq.symm).flip
  . intro i t node ht hnode hopen
    have hrel := rel_getElem? hmatches i
    rw [ht, hnode] at hrel
    cases hrel with
    | some h => exact h.childless hopen

/--
A void element in a paragraph with an attribute: in the syntax tree the comment and the text behind
it are inside it, in the template they are not, but all of them are inside the paragraph.
-/
theorem lowerForest_keeps_order_void :
    ∃ (source : List Char) (trees : List Tree),
      lowerForest source trees =
        [.element "p" [⟨"a", some "b"⟩] [.element "br" [] [], .comment "c", .text "d"]] ∧
      (shownForest trees).map (item? source) =
        [some (.element "p" [⟨"a", some "b"⟩]), some (.element "br" []), some (.comment "c"),
          some (.text "d")] ∧
      Inside shown (shownForest trees) 3 1 ∧
      ¬ Inside preorder (preorderForest (lowerForest source trees)) 3 1 ∧
      Inside preorder (preorderForest (lowerForest source trees)) 3 0 := by
  let source := "<p a=\"b\"><br><!--c-->d</p>".toList
  let given : Tree := .node .attribute ⟨3, 8⟩
    [.node .attributeName ⟨3, 4⟩ [], .node .quotedValue ⟨5, 8⟩ [.node .attributeValue ⟨6, 7⟩ []]]
  let comment : Tree := .node .comment ⟨13, 21⟩ []
  let text : Tree := .node .text ⟨21, 22⟩ []
  let void : Tree := .node .element ⟨9, 22⟩
    [.node .startTag ⟨9, 13⟩ [.node .tagName ⟨10, 12⟩ []], comment, .error ⟨21, 22⟩ [text]]
  let paragraph : Tree := .node .element ⟨0, 26⟩
    [.node .startTag ⟨0, 9⟩ [.node .tagName ⟨1, 2⟩ [], given], void,
      .node .endTag ⟨22, 26⟩ []]
  have hlower : lowerForest source [paragraph] =
      [.element "p" [⟨"a", some "b"⟩] [.element "br" [] [], .comment "c", .text "d"]] := rfl
  obtain ⟨hitems, _, hinside⟩ := lowerForest_keeps_order source [paragraph]
  refine ⟨source, [paragraph], hlower, ?_, ?_, ?_, ?_⟩
  . rw [← hitems, hlower]
    rfl
  . exact ⟨void, rfl, List.prefix_refl [void, comment, text], by decide, by decide⟩
  . rw [hinside]
    rintro ⟨_, t, ht, hclosed⟩
    cases ht
    cases hclosed
  . rw [hinside]
    refine ⟨⟨paragraph, rfl, List.prefix_refl [paragraph, void, comment, text], by decide,
      by decide⟩, ?_⟩
    exact ⟨paragraph, rfl, rfl⟩

end ComponentDoc.Markup
