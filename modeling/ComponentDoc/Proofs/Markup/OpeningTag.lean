import ComponentDoc.Sections
import ComponentDoc.Proofs.Markup.Lowering

/-!
The opening tag of an element is read twice: to tell the sections of a file apart, and to lower the
element into a template. The first reading looks for the parts that count, the second one goes
through all parts and lets later ones overwrite earlier ones. Both find the same attributes, and the
same name if the tag has one.
-/

namespace ComponentDoc.Markup

open Tree

variable {source : List Char}

section Parts

variable (t : Tree)

theorem attributeName_eq : Sections.attributeName source t = (attributeOf source t).name := by
  unfold Sections.attributeName attributeOf lastText?
  dsimp only
  rw [List.getLast?_filter]

theorem attributeValue_eq : Sections.attributeValue source t = (attributeOf source t).value := by
  unfold Sections.attributeValue attributeOf
  dsimp only
  rw [List.getLast?_filterMap]
  induction t.children.reverse with
  | nil => rfl
  | cons part parts ih =>
    rw [List.find?_cons, List.findSome?_cons, value?]
    by_cases hvalue : Tree.is part .attributeValue = true
    . have hquoted : Tree.is part .quotedValue = false := by
        unfold Tree.is at hvalue ⊢
        rw [of_decide_eq_true hvalue]
        rfl
      simp [hvalue, hquoted]
    . by_cases hquoted : Tree.is part .quotedValue = true
      . simp [hvalue, hquoted]
      . simpa [hvalue, hquoted] using ih

end Parts

theorem attributeValue_eq_find? (attributes : List Attribute) (name : String) :
    attributeValue attributes name =
      ((attributes.map fun a => (a.name, a.value)).find? fun a => a.1 = name).bind Prod.snd := by
  unfold attributeValue
  rw [List.find?_map, Option.bind_map]
  rfl

theorem placeElement_eq_cons (source : List Char) (parts : List Tree) (inside : List Node) :
    ∃ children behind, placeElement source parts inside =
      .element (openingOf source parts).1 (openingOf source parts).2 children :: behind := by
  unfold placeElement
  dsimp only
  split
  . exact ⟨inside, [], rfl⟩
  . exact ⟨[], inside, rfl⟩

variable {kind : Kind} {span : Span} {parts : List Tree} {opening name : Tree}

theorem openingOf_eq (hopening : parts.find? Tree.isOpeningTag = some opening)
    (hname : opening.children.filter (fun part => Tree.is part .tagName) = [name]) :
    openingOf source parts =
      (name.text source,
        (opening.children.filter fun part => Tree.is part .attribute).map
          (attributeOf source)) := by
  unfold openingOf
  rw [hopening]
  dsimp only
  rw [foldl_addTagPart, lastText?, hname]
  rfl

/--
Telling the sections of a file apart and lowering an element read the same tag name and the same
attributes off its opening tag, if that has one name. So what is decided by the name, by `setup` and
by `lang` is what the lowered element says.
-/
theorem opening_tag_read_alike (hkind : kind.isElement = true)
    (hopening : parts.find? Tree.isOpeningTag = some opening)
    (hname : opening.children.filter (fun part => Tree.is part .tagName) = [name]) :
    ∃ tag attributes children behind,
      lowerTree source (.node kind span parts) = .element tag attributes children :: behind ∧
      Sections.tagName? source (.node kind span parts) = some tag ∧
      Sections.attributes source (.node kind span parts) =
        attributes.map (fun a => (a.name, a.value)) ∧
      Sections.isTemplate source (.node kind span parts) =
        (decide (kind = .element) && decide (tag = "template")) ∧
      Sections.isSetup source (.node kind span parts) =
        attributes.any (fun a => a.name = "setup") ∧
      (Sections.scriptOf source (.node kind span parts)).dialect =
        .ofLang (attributeValue attributes "lang") := by
  obtain ⟨children, behind, hplace⟩ :=
    placeElement_eq_cons source parts (lowerForest source parts)
  have hfound : Sections.openingTag? (.node kind span parts) = some opening := hopening
  have htag : Sections.tagName? source (.node kind span parts) = some (name.text source) := by
    unfold Sections.tagName?
    rw [hfound, Option.bind_some, ← List.head?_filter, hname]
    rfl
  have hattributes : Sections.attributes source (.node kind span parts) =
      ((opening.children.filter fun part => Tree.is part .attribute).map
        (attributeOf source)).map (fun a => (a.name, a.value)) := by
    unfold Sections.attributes
    rw [hfound, List.map_map]
    apply List.map_congr_left
    intro t _
    rw [Function.comp_apply, attributeName_eq, attributeValue_eq]
  rw [openingOf_eq hopening hname] at hplace
  refine ⟨_, _, children, behind, ?_, htag, hattributes, ?_, ?_, ?_⟩
  . rw [lowerTree, lowerNode_of_isElement hkind, hplace]
  . unfold Sections.isTemplate
    rw [htag]
    simp [Tree.is, SyntaxTree.label?]
  . unfold Sections.isSetup
    rw [hattributes, List.any_map]
    rfl
  . unfold Sections.scriptOf
    dsimp only
    rw [attributeValue_eq_find?, hattributes]

/--
A script with an attribute given twice, once with nothing between its quotes, and one without a
value.
-/
theorem opening_tag_read_alike_repeated :
    ∃ (source : List Char) (parts : List Tree) (opening name : Tree),
      parts.find? Tree.isOpeningTag = some opening ∧
      opening.children.filter (fun part => Tree.is part .tagName) = [name] ∧
      ∃ attributes children behind,
        lowerTree source (.node .scriptElement ⟨0, 39⟩ parts) =
          .element "script" attributes children :: behind ∧
        attributes.map (fun a => (a.name, a.value)) =
          [("lang", some ""), ("lang", some "ts"), ("setup", none)] ∧
        Sections.isSetup source (.node .scriptElement ⟨0, 39⟩ parts) = true ∧
        attributeValue attributes "lang" = some "" := by
  let source := "<script lang='' lang=ts setup></script>".toList
  let name : Tree := .node .tagName ⟨1, 7⟩ []
  let opening : Tree := .node .startTag ⟨0, 30⟩
    [name,
      .node .attribute ⟨8, 15⟩ [.node .attributeName ⟨8, 12⟩ [], .node .quotedValue ⟨13, 15⟩ []],
      .node .attribute ⟨16, 23⟩
        [.node .attributeName ⟨16, 20⟩ [], .node .attributeValue ⟨21, 23⟩ []],
      .node .attribute ⟨24, 29⟩ [.node .attributeName ⟨24, 29⟩ []]]
  obtain ⟨tag, attributes, children, behind, hlower, htag, hattributes, -⟩ :=
    @opening_tag_read_alike source .scriptElement ⟨0, 39⟩
      [opening, .node .endTag ⟨30, 39⟩ []] opening name rfl rfl rfl
  have hscript : tag = "script" := Option.some.inj (htag.symm.trans rfl)
  have hmap : attributes.map (fun a => (a.name, a.value)) =
      [("lang", some ""), ("lang", some "ts"), ("setup", none)] := hattributes.symm.trans rfl
  refine ⟨source, [opening, .node .endTag ⟨30, 39⟩ []], opening, name, rfl, rfl, attributes,
    children, behind, ?_, hmap, ?_, ?_⟩
  . rw [hlower, hscript]
  . rfl
  . rw [attributeValue_eq_find?, hmap]
    rfl

end ComponentDoc.Markup
