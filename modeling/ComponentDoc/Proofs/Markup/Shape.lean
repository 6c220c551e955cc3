import ComponentDoc.Markup.Template
import ComponentDoc.Proofs.Markup.Print
import ComponentDoc.Proofs.SyntaxTree

/-!
Syntax trees without faults that show given nodes. A void element has no end tag, so the tree nests
the comments and texts behind it in it, and only the next tag ends it. Lowering a tree that shows
some nodes gives these nodes, and such a tree needs no repair.
-/

namespace ComponentDoc.Markup

variable {source : List Char}

/--
Whether a tree is an attribute as it is printed: a name, and a value in quotes if there is one.
-/
inductive ShowsAttribute (source : List Char) : Tree → Attribute → Prop
  | bare {span name : Span} {a : Attribute} :
    name.text source = a.name → a.value = none →
      ShowsAttribute source (.node .attribute span [.node .attributeName name []]) a
  | empty {span name quoted : Span} {a : Attribute} :
    name.text source = a.name → a.value = some "" →
      ShowsAttribute source
        (.node .attribute span [.node .attributeName name [], .node .quotedValue quoted []]) a
  | quoted {span name quoted value : Span} {a : Attribute} :
    name.text source = a.name → a.value = some (value.text source) →
      ShowsAttribute source
        (.node .attribute span [.node .attributeName name [],
          .node .quotedValue quoted [.node .attributeValue value []]]) a

inductive ShowsAttributes (source : List Char) : List Tree → List Attribute → Prop
  | nil : ShowsAttributes source [] []
  | cons {t : Tree} {a : Attribute} {parts : List Tree} {attributes : List Attribute} :
    ShowsAttribute source t a → ShowsAttributes source parts attributes →
      ShowsAttributes source (t :: parts) (a :: attributes)

inductive ShowsOpening (source : List Char) : Tree → String → List Attribute → Prop
  | intro (span name : Span) {parts : List Tree} {attributes : List Attribute} :
    ShowsAttributes source parts attributes →
      ShowsOpening source (.node .startTag span (.node .tagName name [] :: parts))
        (name.text source) attributes

/--
Whether trees are those of nodes, in order and without faults.
-/
inductive Shows (source : List Char) : List Tree → List Node → Prop
  | nil : Shows source [] []
  | comment {span : Span} {text : String} {trees : List Tree} {nodes : List Node} :
    span.slice source = printComment text → Shows source trees nodes →
      Shows source (.node .comment span [] :: trees) (.comment text :: nodes)
  | text {span : Span} {text : String} {trees : List Tree} {nodes : List Node} :
    span.slice source = text.toList → Shows source trees nodes →
      Shows source (.node .text span [] :: trees) (.text text :: nodes)
  | element {span ending : Span} {opening : Tree} {tag : String} {attributes : List Attribute}
    {parts endParts trees : List Tree} {children nodes : List Node} :
    PlainTag tag → ShowsOpening source opening tag attributes → Shows source parts children →
    SyntaxTree.firstFaultForest endParts = none →
    Span.slice ⟨opening.span.stop, ending.start⟩ source = printForest children →
    Shows source trees nodes →
      Shows source
        (.node .element span (opening :: (parts ++ [.node .endTag ending endParts])) :: trees)
        (.element tag attributes children :: nodes)
  | void {span : Span} {opening : Tree} {tag : String} {attributes : List Attribute}
    {parts trees : List Tree} {inner nodes : List Node} :
    tag ∈ plainVoidNames → ShowsOpening source opening tag attributes →
    (∀ node ∈ inner, node.isElement = false) →
    Shows source parts inner → Shows source trees nodes →
      Shows source (.node .element span (opening :: parts) :: trees)
        (.element tag attributes [] :: (inner ++ nodes))
  | raw {kind : Kind} {span body ending : Span} {opening : Tree} {attributes : List Attribute}
    {text : String} {endParts trees : List Tree} {nodes : List Node} {tag : String} :
    kind = .scriptElement ∧ tag = "script" ∨ kind = .styleElement ∧ tag = "style" →
    ShowsOpening source opening tag attributes → body.slice source = text.toList →
    SyntaxTree.firstFaultForest endParts = none → Shows source trees nodes →
      Shows source
        (.node kind span
          [opening, .node .rawText body [], .node .endTag ending endParts] :: trees)
        (.element tag attributes [.text text] :: nodes)

theorem ShowsAttribute.ofTree_eq {t : Tree} {a : Attribute} (h : ShowsAttribute source t a) :
    Attribute.ofTree source t = a := by
  cases a with
  | mk name value =>
    cases h with
    | bare hname hvalue =>
      dsimp only at hname hvalue
      rw [← hname, hvalue]
      rfl
    | empty hname hvalue =>
      dsimp only at hname hvalue
      rw [← hname, hvalue]
      rfl
    | quoted hname hvalue =>
      dsimp only at hname hvalue
      rw [← hname, hvalue]
      rfl

theorem ShowsAttribute.firstFault_eq {t : Tree} {a : Attribute} (h : ShowsAttribute source t a) :
    t.firstFault = none := by
  cases h with
  | bare => rfl
  | empty => rfl
  | quoted => rfl

theorem ShowsAttributes.foldl_eq {parts : List Tree} {attributes : List Attribute}
    (h : ShowsAttributes source parts attributes) (tag : String) (before : List Attribute) :
    parts.foldl (addTagPart source) (tag, before) = (tag, before ++ attributes) := by
  induction h generalizing before with
  | nil => rw [List.foldl_nil, List.append_nil]
  | @cons t a parts attributes ht _ ih =>
    have hadd : addTagPart source (tag, before) t = (tag, before ++ [a]) := by
      rw [← ht.ofTree_eq]
      cases ht with
      | bare => rfl
      | empty => rfl
      | quoted => rfl
    rw [List.foldl_cons, hadd, ih, List.append_assoc]
    rfl

theorem ShowsAttributes.firstFaultForest_eq {parts : List Tree} {attributes : List Attribute}
    (h : ShowsAttributes source parts attributes) :
    SyntaxTree.firstFaultForest parts = none := by
  induction h with
  | nil => rfl
  | cons ht _ ih => rw [SyntaxTree.firstFaultForest, ht.firstFault_eq, ih]

namespace ShowsOpening

variable {t : Tree} {tag : String} {attributes : List Attribute}

theorem is_startTag (h : ShowsOpening source t tag attributes) : Tree.is t .startTag = true := by
  cases h
  rfl

theorem foldl_eq (h : ShowsOpening source t tag attributes) :
    t.children.foldl (addTagPart source) ("", []) = (tag, attributes) := by
  cases h with
  | intro span name hparts => exact hparts.foldl_eq _ []

theorem firstFault_eq (h : ShowsOpening source t tag attributes) : t.firstFault = none := by
  cases h with
  | intro span name hparts =>
    rw [SyntaxTree.firstFault, SyntaxTree.firstFaultForest]
    exact hparts.firstFaultForest_eq

theorem openingOf_eq (h : ShowsOpening source t tag attributes) (parts : List Tree) :
    openingOf source (t :: parts) = (tag, attributes) := by
  have hopening : Tree.isOpeningTag t = true := by
    unfold Tree.isOpeningTag
    rw [h.is_startTag]
    rfl
  unfold openingOf
  rw [List.find?_cons_of_pos hopening]
  exact h.foldl_eq

theorem lowerTree_eq (h : ShowsOpening source t tag attributes) : lowerTree source t = [] := by
  cases h
  rfl

theorem isEndingTag_eq (h : ShowsOpening source t tag attributes) :
    Tree.isEndingTag t = false := by
  cases h
  rfl

end ShowsOpening

theorem lowerForest_append (source : List Char) (ts us : List Tree) :
    lowerForest source (ts ++ us) = lowerForest source ts ++ lowerForest source us := by
  induction ts with
  | nil => rfl
  | cons t ts ih => rw [List.cons_append, lowerForest, lowerForest, ih, List.append_assoc]

theorem openCountForest_append (ts us : List Tree) :
    openCountForest (ts ++ us) = openCountForest ts + openCountForest us := by
  induction ts with
  | nil => exact (Nat.zero_add _).symm
  | cons t ts ih =>
    rw [List.cons_append, openCountForest, openCountForest, ih, Nat.add_assoc]

theorem commentBody_printComment (text : String) :
    commentBody (printComment text) = text.toList := by
  unfold commentBody printComment
  have hprefix : ['<', '!', '-', '-'].isPrefixOf
      ('<' :: '!' :: '-' :: '-' :: (text.toList ++ ['-', '-', '>'])) = true := rfl
  have hsuffix : ['-', '-', '>'].isSuffixOf (text.toList ++ ['-', '-', '>']) = true := by
    rw [List.isSuffixOf_iff_suffix]
    exact List.suffix_append _ _
  rw [if_pos hprefix]
  dsimp only [List.drop]
  rw [if_pos hsuffix, List.length_append]
  exact List.take_left

namespace Shows

variable {trees : List Tree} {nodes : List Node}

/--
The trees of nodes are none of the tags that they have among their parts.
-/
theorem not_tag (h : Shows source trees nodes) :
    ∀ t ∈ trees, Tree.isEndingTag t = false ∧ Tree.is t .startTag = false := by
  induction h with
  | nil =>
    intro t ht
    cases ht
  | raw hkind _ _ _ _ ih =>
    intro t ht
    cases ht with
    | tail _ ht => exact ih t ht
    | head =>
      obtain ⟨rfl, _⟩ | ⟨rfl, _⟩ := hkind
      . exact ⟨rfl, rfl⟩
      . exact ⟨rfl, rfl⟩
  | comment _ _ ih =>
    intro t ht
    cases ht with
    | head => exact ⟨rfl, rfl⟩
    | tail _ ht => exact ih t ht
  | text _ _ ih =>
    intro t ht
    cases ht with
    | head => exact ⟨rfl, rfl⟩
    | tail _ ht => exact ih t ht
  | element _ _ _ _ _ _ _ ih =>
    intro t ht
    cases ht with
    | head => exact ⟨rfl, rfl⟩
    | tail _ ht => exact ih t ht
  | void _ _ _ _ _ _ ih =>
    intro t ht
    cases ht with
    | head => exact ⟨rfl, rfl⟩
    | tail _ ht => exact ih t ht

theorem lowerForest_eq (h : Shows source trees nodes) : lowerForest source trees = nodes := by
  induction h with
  | nil => rfl
  | @comment span text trees nodes hslice _ ih =>
    rw [lowerForest, lowerTree, lowerNode, hslice, commentBody_printComment,
      String.ofList_toList, ih]
    rfl
  | @text span text trees nodes hslice _ ih =>
    rw [lowerForest, lowerTree, lowerNode, Span.text, hslice, String.ofList_toList, ih]
    rfl
  | @element span ending opening tag attributes parts endParts trees children nodes
      _ hopening _ _ _ _ ihparts ih =>
    have hinside : lowerForest source (opening :: (parts ++ [.node .endTag ending endParts])) =
        children := by
      rw [lowerForest, hopening.lowerTree_eq, lowerForest_append, ihparts]
      exact List.append_nil children
    rw [lowerForest, lowerTree, lowerNode, hinside, ih]
    unfold placeElement
    rw [hopening.openingOf_eq]
    dsimp only
    rw [if_pos]
    . rfl
    . simp [Tree.isEndingTag, Tree.is, SyntaxTree.label?]
  | @void span opening tag attributes parts trees inner nodes _ hopening _ hparts _ ihparts ih =>
    have hinside : lowerForest source (opening :: parts) = inner := by
      rw [lowerForest, hopening.lowerTree_eq, ihparts]
      rfl
    rw [lowerForest, lowerTree, lowerNode, hinside, ih]
    unfold placeElement
    rw [hopening.openingOf_eq]
    dsimp only
    rw [if_neg]
    . rfl
    . rw [List.any_cons, hopening.isEndingTag_eq, Bool.false_or, List.any_eq_true]
      rintro ⟨t, ht, hending⟩
      rw [(hparts.not_tag t ht).1] at hending
      cases hending
  | @raw kind span body ending opening attributes text endParts trees nodes tag
      hkind hopening hslice _ _ ih =>
    have hinside : lowerForest source
        [opening, .node .rawText body [], .node .endTag ending endParts] = [.text text] := by
      rw [lowerForest, hopening.lowerTree_eq, lowerForest, lowerTree, lowerNode, Span.text, hslice,
        String.ofList_toList]
      rfl
    have hplace : placeElement source
        [opening, .node .rawText body [], .node .endTag ending endParts] [.text text] =
          [.element tag attributes [.text text]] := by
      unfold placeElement
      rw [hopening.openingOf_eq]
      dsimp only
      rw [if_pos]
      simp [Tree.isEndingTag, Tree.is, SyntaxTree.label?]
    obtain ⟨rfl, _⟩ | ⟨rfl, _⟩ := hkind
    . rw [lowerForest, lowerTree, lowerNode, hinside, hplace, ih]
      rfl
    . rw [lowerForest, lowerTree, lowerNode, hinside, hplace, ih]
      rfl

theorem firstFaultForest_eq (h : Shows source trees nodes) :
    SyntaxTree.firstFaultForest trees = none := by
  induction h with
  | nil => rfl
  | comment _ _ ih => exact ih
  | text _ _ ih => exact ih
  | element _ hopening _ hend _ _ ihparts ih =>
    rw [SyntaxTree.firstFaultForest, SyntaxTree.firstFault, SyntaxTree.firstFaultForest,
      hopening.firstFault_eq, SyntaxTree.firstFaultForest_append, ihparts,
      SyntaxTree.firstFaultForest, SyntaxTree.firstFault, hend]
    exact ih
  | void _ hopening _ _ _ ihparts ih =>
    rw [SyntaxTree.firstFaultForest, SyntaxTree.firstFault, SyntaxTree.firstFaultForest,
      hopening.firstFault_eq, ihparts]
    exact ih
  | raw _ hopening _ hend _ ih =>
    rw [SyntaxTree.firstFaultForest, SyntaxTree.firstFault, SyntaxTree.firstFaultForest,
      hopening.firstFault_eq]
    simp only [SyntaxTree.firstFaultForest, SyntaxTree.firstFault, hend]
    exact ih

theorem openCountForest_eq (h : Shows source trees nodes) : openCountForest trees = 0 := by
  induction h with
  | nil => rfl
  | comment _ _ ih =>
    rw [openCountForest, ih]
    rfl
  | text _ _ ih =>
    rw [openCountForest, ih]
    rfl
  | element _ hopening _ _ _ _ ihparts ih =>
    rw [openCountForest, ih]
    cases hopening with
    | intro =>
      simp [Tree.isMissingEnd, Tree.isCutTag, openCount, openCountForest, openCountForest_append,
        ihparts]
  | void _ hopening _ _ _ ihparts ih =>
    rw [openCountForest, ih]
    cases hopening with
    | intro => simp [Tree.isMissingEnd, Tree.isCutTag, openCount, openCountForest, ihparts]
  | raw hkind _ _ _ _ ih =>
    obtain ⟨rfl, _⟩ | ⟨rfl, _⟩ := hkind
    . rw [openCountForest, ih]
      rfl
    . rw [openCountForest, ih]
      rfl

end Shows

end ComponentDoc.Markup
