import Mathlib.Data.List.Forall2
import Mathlib.Data.List.Induction
import ComponentDoc.Markup.Template
import ComponentDoc.Proofs.Markup.DocumentOrder

/-!
What the parts of a tag, of an attribute and of a comment say. Lowering goes through the parts one by
one and lets later ones overwrite earlier ones; here every name and value is looked up among the
parts, and both ways come to the same.
-/

namespace ComponentDoc.Markup

open SyntaxTree (text)

namespace Tree

variable (source : List Char)

/--
The text of the last part of a kind.
-/
def lastText? (kind : Kind) (parts : List Tree) : Option String :=
  ((parts.filter fun part => is part kind).getLast?).map (text source)

/--
The value that a part of an attribute holds. What is between quotes is a part of its own, which is
missing if there is nothing between them.
-/
def value? (part : Tree) : Option String :=
  if is part .attributeValue then some (part.text source)
  else if is part .quotedValue then
    some (((part.children.filter fun inner => is inner .attributeValue).head?.map
      (text source)).getD "")
  else none

def attributeOf (t : Tree) : Attribute where
  name := (lastText? source .attributeName t.children).getD ""
  value := (t.children.filterMap (value? source)).getLast?

/--
What an opening tag says.
-/
def openingItem (t : Tree) : Item :=
  .element ((lastText? source .tagName t.children).getD "")
    ((t.children.filter fun part => is part .attribute).map (attributeOf source))

/--
What an element says: what its first opening tag does, if it has one.
-/
def elementItem (t : Tree) : Item :=
  (((t.children.filter fun part => is part .startTag || is part .selfClosingTag).head?).map
    (openingItem source)).getD (.element "" [])

/--
A comment without its brackets.
-/
def commentText (t : Tree) : List Char :=
  let raw := t.span.slice source
  let body := (raw.dropPrefix? "<!--".toList).getD raw
  (body.dropSuffix? "-->".toList).getD body

end Tree

open Tree

variable {source : List Char}

section Attributes

variable (a : Attribute) (part : Tree) (parts : List Tree)

theorem name_addPart :
    (a.addPart source part).name =
      if Tree.is part .attributeName then part.text source else a.name := by
  unfold Attribute.addPart Tree.is
  split
  . next hlabel => simp [hlabel]
  . next hlabel => simp [hlabel]
  . next hlabel => simp [hlabel]
  . next hname _ _ => rw [if_neg (by simpa using hname)]

theorem value_addPart :
    (a.addPart source part).value = (value? source part).or a.value := by
  unfold Attribute.addPart value? Tree.is
  split
  . next hlabel => simp [hlabel]
  . next hlabel => simp [hlabel]
  . next hlabel =>
    simp only [hlabel, List.head?_filter]
    rfl
  . next _ hvalue hquoted =>
    rw [if_neg (by simpa using hvalue), if_neg (by simpa using hquoted)]
    rfl

theorem name_foldl_addPart :
    (parts.foldl (Attribute.addPart source) a).name =
      (lastText? source .attributeName parts).getD a.name := by
  unfold lastText?
  induction parts using List.reverseRecOn with
  | nil => rfl
  | append_singleton parts part ih =>
    rw [List.foldl_concat, name_addPart, List.filter_append]
    cases hname : Tree.is part .attributeName with
    | true => simp [hname]
    | false => simpa [hname] using ih

theorem value_foldl_addPart :
    (parts.foldl (Attribute.addPart source) a).value =
      ((parts.filterMap (value? source)).getLast?).or a.value := by
  induction parts using List.reverseRecOn with
  | nil => rfl
  | append_singleton parts part ih =>
    rw [List.foldl_concat, value_addPart, List.filterMap_append]
    cases hvalue : value? source part with
    | some value => simp [hvalue]
    | none => simpa [hvalue] using ih

/--
An attribute that is put together part by part is the one that its parts say.
-/
theorem Attribute.ofTree_eq_attributeOf (t : Tree) :
    Attribute.ofTree source t = attributeOf source t := by
  have hname := @name_foldl_addPart source ⟨"", none⟩ t.children
  have hvalue := @value_foldl_addPart source ⟨"", none⟩ t.children
  rw [Option.or_none] at hvalue
  unfold Attribute.ofTree Tree.attributeOf
  rw [← hname, ← hvalue]

end Attributes

section Tags

variable (tag : String × List Attribute) (part : Tree) (parts : List Tree)

theorem addTagPart_eq :
    addTagPart source tag part =
      (if Tree.is part .tagName then part.text source else tag.1,
        if Tree.is part .attribute then tag.2 ++ [attributeOf source part] else tag.2) := by
  unfold addTagPart Tree.is
  split
  . next hlabel => simp [hlabel]
  . next hlabel => simp [hlabel, Attribute.ofTree_eq_attributeOf]
  . next hname hattribute =>
    rw [if_neg (by simpa using hname), if_neg (by simpa using hattribute)]

theorem foldl_addTagPart :
    parts.foldl (addTagPart source) tag =
      ((lastText? source .tagName parts).getD tag.1,
        tag.2 ++ (parts.filter fun part => Tree.is part .attribute).map (attributeOf source)) := by
  unfold lastText?
  induction parts using List.reverseRecOn with
  | nil => simp
  | append_singleton parts part ih =>
    rw [List.foldl_concat, ih, addTagPart_eq, List.filter_append, List.filter_append]
    congr 1
    . cases hname : Tree.is part .tagName with
      | true => simp [hname]
      | false => simp [hname]
    . cases hattribute : Tree.is part .attribute with
      | true => simp [hattribute]
      | false => simp [hattribute]

theorem elementItem_eq (t : Tree) :
    elementItem source t =
      .element (openingOf source t.children).1 (openingOf source t.children).2 := by
  unfold elementItem openingOf
  rw [List.head?_filter]
  change ((t.children.find? isOpeningTag).map (openingItem source)).getD _ = _
  cases t.children.find? isOpeningTag with
  | none => rfl
  | some tag =>
    dsimp only
    rw [foldl_addTagPart]
    rfl

end Tags

theorem dropPrefix?_getD (word raw : List Char) :
    (raw.dropPrefix? word).getD raw =
      if word.isPrefixOf raw then raw.drop word.length else raw := by
  by_cases h : word <+: raw
  . obtain ⟨rest, rfl⟩ := h
    have hdrop : (word ++ rest).dropPrefix? word = some rest :=
      List.dropPrefix?_eq_some_iff.2 ⟨word, rfl, beq_self_eq_true word⟩
    rw [hdrop, if_pos (List.isPrefixOf_iff_prefix.2 (List.prefix_append word rest)),
      List.drop_left]
    rfl
  . have hdrop : raw.dropPrefix? word = none := by
      rw [Option.eq_none_iff_forall_not_mem]
      intro rest hrest
      obtain ⟨found, rfl, hfound⟩ := List.dropPrefix?_eq_some_iff.1 hrest
      exact h ⟨rest, by rw [eq_of_beq hfound]⟩
    rw [hdrop, if_neg (mt List.isPrefixOf_iff_prefix.1 h)]
    rfl

theorem dropSuffix?_getD (word raw : List Char) :
    (raw.dropSuffix? word).getD raw =
      if word.isSuffixOf raw then raw.take (raw.length - word.length) else raw := by
  by_cases h : word <:+ raw
  . obtain ⟨rest, rfl⟩ := h
    have hdrop : (rest ++ word).dropSuffix? word = some rest :=
      List.dropSuffix?_eq_some_iff.2 ⟨word, rfl, beq_self_eq_true word⟩
    rw [hdrop, if_pos (List.isSuffixOf_iff_suffix.2 (List.suffix_append rest word)),
      List.length_append, Nat.add_sub_cancel, List.take_left]
    rfl
  . have hdrop : raw.dropSuffix? word = none := by
      rw [Option.eq_none_iff_forall_not_mem]
      intro rest hrest
      obtain ⟨found, rfl, hfound⟩ := List.dropSuffix?_eq_some_iff.1 hrest
      exact h ⟨rest, by rw [eq_of_beq hfound]⟩
    rw [hdrop, if_neg (mt List.isSuffixOf_iff_suffix.1 h)]
    rfl

theorem commentBody_slice (t : Tree) :
    commentBody (t.span.slice source) = commentText source t := by
  unfold commentBody commentText
  dsimp only
  rw [dropPrefix?_getD, dropSuffix?_getD]
  rfl

end ComponentDoc.Markup
