import ComponentDoc.Sections
import ComponentDoc.Proofs.Markup.RoundTrip

/-!
Taking a component file apart undoes assembling it from blocks. A block is a printed element or
comment at top level, with blanks around it; what is inside an element never counts as a block.
-/

namespace ComponentDoc

open Markup Text

namespace Markup

def Node.IsBlock (node : Node) : Prop :=
  (node.Normal ∨ node.IsRaw) ∧ node.isText = false

/--
The body of a block that is a template.
-/
def Node.template? : Node → Option String
  | .element tag _ children =>
    if tag = "template" then some (String.ofList (printForest children)) else none
  | _ => none

/--
The section that a block gives if it is a script, and whether it is a setup script.
-/
def Node.script? : Node → Option (Bool × ScriptSection)
  | .element tag attributes [.text body] =>
    if tag = "script" then
      some (attributes.any (fun a => a.name = "setup"),
        ⟨body, .ofLang (attributeValue attributes "lang")⟩)
    else none
  | _ => none

end Markup

namespace Sections

/--
The sections of a file with given blocks: the first template, and the first script that is no setup
script or else the first script.
-/
def ofBlocks (blocks : List Node) : Sections :=
  let scripts := blocks.filterMap Node.script?
  { template := blocks.findSome? Node.template?
    script := ((scripts.find? fun script => !script.1).or scripts.head?).map Prod.snd }

variable {source : List Char} {opening : Tree} {tag : String} {attributes : List Attribute}

theorem openingTag?_eq (h : ShowsOpening source opening tag attributes) (kind : Kind) (span : Span)
    (parts : List Tree) : openingTag? (.node kind span (opening :: parts)) = some opening := by
  unfold openingTag?
  rw [SyntaxTree.children, List.find?_cons_of_pos]
  rw [h.is_startTag]
  rfl

theorem tagName?_eq (h : ShowsOpening source opening tag attributes) (kind : Kind) (span : Span)
    (parts : List Tree) : tagName? source (.node kind span (opening :: parts)) = some tag := by
  unfold tagName?
  rw [openingTag?_eq h]
  cases h
  rfl

theorem attributes_eq (h : ShowsOpening source opening tag attributes) (kind : Kind) (span : Span)
    (parts : List Tree) :
    Sections.attributes source (.node kind span (opening :: parts)) =
      attributes.map fun a => (a.name, a.value) := by
  unfold Sections.attributes
  rw [openingTag?_eq h]
  cases h with
  | intro tagSpan name hparts =>
    simp only [Option.map_some, Option.getD_some, SyntaxTree.children]
    rw [List.filter_cons_of_neg (by simp [Tree.is, SyntaxTree.label?])]
    induction hparts with
    | nil => rfl
    | @cons t a parts attributes ht _ ih =>
      have hshown : Tree.is t .attribute = true ∧
          (attributeName source t, attributeValue source t) = (a.name, a.value) := by
        cases ht with
        | bare hname hvalue =>
          rw [← hname, hvalue]
          exact ⟨rfl, rfl⟩
        | empty hname hvalue =>
          rw [← hname, hvalue]
          exact ⟨rfl, rfl⟩
        | quoted hname hvalue =>
          rw [← hname, hvalue]
          exact ⟨rfl, rfl⟩
      rw [List.filter_cons, if_pos hshown.1, List.map_cons, List.map_cons, hshown.2, ih]

theorem innerMarkup_eq (h : ShowsOpening source opening tag attributes) (span ending : Span)
    (parts endParts : List Tree) :
    innerMarkup source
        (.node .element span (opening :: (parts ++ [.node .endTag ending endParts]))) =
      Span.text ⟨opening.span.stop, ending.start⟩ source := by
  unfold innerMarkup
  rw [SyntaxTree.children, List.find?_cons, h.is_startTag]
  simp [Tree.is, SyntaxTree.label?, SyntaxTree.span]

theorem isSetup_eq (h : ShowsOpening source opening tag attributes) (kind : Kind) (span : Span)
    (parts : List Tree) :
    isSetup source (.node kind span (opening :: parts)) =
      attributes.any fun a => a.name = "setup" := by
  unfold isSetup
  rw [attributes_eq h, List.any_map]
  rfl

theorem scriptOf_eq (h : ShowsOpening source opening tag attributes) (kind : Kind) (span : Span)
    {body : Span} {text : String} (hbody : body.slice source = text.toList) (ending : Tree) :
    scriptOf source (.node kind span [opening, .node .rawText body [], ending]) =
      ⟨text, .ofLang (Markup.attributeValue attributes "lang")⟩ := by
  have hraw : Tree.is opening .rawText = false := by
    cases h
    rfl
  have hbody : Span.text body source = text := by
    rw [Span.text, hbody, String.ofList_toList]
  have hfind : [opening, .node .rawText body [], ending].find? (fun t => Tree.is t .rawText) =
      some (.node .rawText body []) := by
    rw [List.find?_cons, hraw]
    rfl
  unfold scriptOf Markup.attributeValue
  rw [attributes_eq h, List.find?_map, SyntaxTree.children, hfind, Option.map_some,
    Option.getD_some, SyntaxTree.text, SyntaxTree.span, hbody, Option.bind_map]
  rfl

theorem isTemplate_eq (h : ShowsOpening source opening tag attributes) (span : Span)
    (parts : List Tree) :
    isTemplate source (.node .element span (opening :: parts)) = decide (tag = "template") := by
  unfold isTemplate
  rw [tagName?_eq h]
  simp [Tree.is, SyntaxTree.label?]

variable {trees : List Tree} {nodes : List Node}

theorem template?_of_flat {node : Node} (h : node.isElement = false) : node.template? = none := by
  cases node with
  | element tag attributes children => cases h
  | comment text => rfl
  | text text => rfl

theorem script?_of_flat {node : Node} (h : node.isElement = false) : node.script? = none := by
  cases node with
  | element tag attributes children => cases h
  | comment text => rfl
  | text text => rfl

theorem script?_of_ne (h : tag ≠ "script") (attributes : List Attribute) (children : List Node) :
    (Node.element tag attributes children).script? = none := by
  unfold Node.script?
  split
  . next heq =>
    cases heq
    rw [if_neg h]
  . rfl

theorem template_eq (h : Shows source trees nodes) :
    (trees.find? (isTemplate source)).map (innerMarkup source) =
      nodes.findSome? Node.template? := by
  induction h with
  | nil => rfl
  | comment _ _ ih => exact ih
  | text _ _ ih => exact ih
  | @element span ending opening tag attributes parts endParts trees children nodes
      _ hopening _ _ hslice _ _ ih =>
    rw [List.find?_cons, List.findSome?_cons, isTemplate_eq hopening, Node.template?]
    by_cases htemplate : tag = "template"
    . rw [if_pos htemplate, decide_eq_true htemplate]
      dsimp only
      rw [Option.map_some, innerMarkup_eq hopening, Span.text, hslice]
    . rw [if_neg htemplate, decide_eq_false htemplate]
      exact ih
  | @void span opening tag attributes parts trees inner nodes hvoid hopening hflat _ _ _ ih =>
    have htemplate : tag ≠ "template" := by
      rintro rfl
      exact absurd hvoid (by decide)
    have hinner : inner.findSome? Node.template? = none := by
      rw [List.findSome?_eq_none_iff]
      intro node hnode
      exact template?_of_flat (hflat node hnode)
    rw [List.find?_cons, List.findSome?_cons, isTemplate_eq hopening, Node.template?,
      if_neg htemplate, decide_eq_false htemplate]
    dsimp only
    rw [List.findSome?_append, hinner, ih]
    rfl
  | raw hkind _ _ _ _ ih =>
    obtain ⟨rfl, rfl⟩ | ⟨rfl, rfl⟩ := hkind
    . exact ih
    . exact ih

theorem scripts_eq (h : Shows source trees nodes) :
    (trees.filter fun t => Tree.is t .scriptElement).map
        (fun t => (isSetup source t, scriptOf source t)) =
      nodes.filterMap Node.script? := by
  induction h with
  | nil => rfl
  | comment _ _ ih => exact ih
  | text _ _ ih => exact ih
  | element htag _ _ _ _ _ _ ih =>
    rw [List.filterMap_cons_none (script?_of_ne htag.notRaw.1 _ _)]
    exact ih
  | @void span opening tag attributes parts trees inner nodes hvoid _ hflat _ _ _ ih =>
    have hinner : inner.filterMap Node.script? = [] := by
      rw [List.filterMap_eq_nil_iff]
      intro node hnode
      exact script?_of_flat (hflat node hnode)
    rw [List.filterMap_cons_none rfl, List.filterMap_append, hinner]
    exact ih
  | raw hkind hopening hbody _ _ ih =>
    obtain ⟨rfl, rfl⟩ | ⟨rfl, rfl⟩ := hkind
    . rw [List.filter_cons_of_pos rfl, List.map_cons, isSetup_eq hopening,
        scriptOf_eq hopening _ _ hbody, ih]
      rfl
    . exact ih

theorem ofNodes_eq (h : Shows source trees nodes) : ofNodes source trees = ofBlocks nodes := by
  unfold ofNodes ofBlocks
  dsimp only
  rw [← template_eq h, ← scripts_eq h, List.find?_map, List.head?_map, ← Option.map_or,
    Option.map_map]
  rfl

theorem readable_of_blocks {items : List (List Char × Node)}
    (h : ∀ item ∈ items, (∀ x ∈ item.1, isAsciiBlank x = true) ∧ item.2.IsBlock) :
    Readable items := by
  induction items with
  | nil => trivial
  | cons item items ih =>
    obtain ⟨hgap, hblock⟩ := h item List.mem_cons_self
    refine ⟨hgap, hblock.1, ?_, ih fun other hother => h other (List.mem_cons_of_mem _ hother)⟩
    intro hisText
    rw [hblock.2] at hisText
    cases hisText

theorem isByteOrderMark_of_endsText {text : List Char} (h : EndsText text) {x : Char}
    (hx : text.head? = some x) : isByteOrderMark x = false := by
  cases text with
  | nil => cases hx
  | cons y rest =>
    cases hx
    cases hblank : isAsciiBlank x with
    | true =>
      simp only [isAsciiBlank, Bool.or_eq_true, Bool.and_eq_true, decide_eq_true_eq,
        beq_iff_eq] at hblank
      unfold isByteOrderMark
      rw [decide_eq_false_iff_not]
      omega
    | false =>
      have hangle : x = '<' := by
        apply h
        rw [List.dropWhile_cons_of_neg (by simp [hblank])]
        rfl
      rw [hangle]
      rfl

/--
Splitting a file gives the sections of the blocks that it was assembled from, whatever blanks stand
between them.
-/
theorem ofSource_printSpaced {items : List (List Char × Node)} {blanks : List Char}
    (hitems : ∀ item ∈ items, (∀ x ∈ item.1, isAsciiBlank x = true) ∧ item.2.IsBlock)
    (hplain : PlainForest (items.map Prod.snd) TagName.nameRoom)
    (hblanks : ∀ x ∈ blanks, isAsciiBlank x = true) :
    ofSource (String.ofList (printSpaced items ++ blanks)) = ofBlocks (items.map Prod.snd) := by
  have hreadable := readable_of_blocks hitems
  have hends : EndsText (printSpaced items ++ blanks) := by
    apply endsText_printSpaced hreadable (endsText_of_blank hblanks)
    intro item hitem
    exact (hitems item (List.mem_of_head? hitem)).2.2
  obtain ⟨span, trees, hparse, hshows⟩ :=
    parseDocument_printSpaced hreadable hplain hblanks fun x hx =>
      isByteOrderMark_of_endsText hends hx
  unfold ofSource
  rw [String.toList_ofList]
  dsimp only
  rw [hparse]
  exact ofNodes_eq hshows

/--
The script is the second one, as the first is a setup script, and the inner template is no section.
-/
theorem ofSource_printSpaced_nested :
    ofSource (String.ofList (printSpaced
        [([], .comment "c"),
          (['\n'], .element "script" [⟨"lang", some "ts"⟩, ⟨"setup", none⟩] [.text "a"]),
          (['\n'], .element "template" [] [.element "div" [] [.element "template" [] []]]),
          (['\n'], .element "script" [⟨"lang", some "tsx"⟩] [.text "b < c"])] ++ ['\n'])) =
      { template := some "<div><template></template></div>"
        script := some ⟨"b < c", .ofLang (some "tsx")⟩ } := by
  have hcomment : NormalComment "c" := .of_length (by decide) (by decide)
  have hts : Attribute.Normal ⟨"lang", some "ts"⟩ := ⟨by decide, by decide, by decide, by decide⟩
  have htsx : Attribute.Normal ⟨"lang", some "tsx"⟩ := ⟨by decide, by decide, by decide, by decide⟩
  have hsetup : Attribute.Normal ⟨"setup", none⟩ := ⟨by decide, by decide, by decide, by decide⟩
  have hdiv : PlainTag "div" := ⟨⟨⟨_, rfl, rfl⟩, by decide⟩, by decide, by decide, by decide⟩
  have htemplate : PlainTag "template" :=
    ⟨⟨⟨_, rfl, rfl⟩, by decide⟩, by decide, by decide, by decide⟩
  have ha : RawText "a" := ⟨by decide, by decide, by decide⟩
  have hb : RawText "b < c" := ⟨by decide, by decide, by decide⟩
  have hvalues : ¬ StartsComment "ts" ∧ ¬ StartsComment "tsx" := by decide
  have hlengths : "script".length ≤ TagName.keptLength ∧ "template".length ≤ TagName.keptLength ∧
      "div".length ≤ TagName.keptLength := by decide
  have hweights : TagName.weight ⟨"script"⟩ = 1 ∧ TagName.weight ⟨"template"⟩ = 1 ∧
      TagName.weight ⟨"div"⟩ = 1 := by decide
  rw [ofSource_printSpaced]
  . rfl
  . simp [Node.IsBlock, Node.Normal, NormalForest, Node.IsRaw, Node.isText, hcomment, hts, htsx,
      hsetup, hdiv, htemplate, ha, hb, isAsciiBlank]
  . simp [PlainForest, Node.Plain, TagName.nameRoom, hvalues, hlengths, hweights]
  . decide

/--
The dialect of a script is lost if its name looks like a comment and another name behind it.
-/
theorem ofSource_comment_in_lang :
    Node.IsBlock (.element "script" [⟨"lang", some "<!--b-->ts"⟩] [.text "a"]) ∧
      (ofSource (String.ofList (printSpaced
        [([], .element "script" [⟨"lang", some "<!--b-->ts"⟩] [.text "a"])]))).script =
          some ⟨"a", .typeScript⟩ ∧
      (ofBlocks [.element "script" [⟨"lang", some "<!--b-->ts"⟩] [.text "a"]]).script =
        some ⟨"a", .ofLang (some "<!--b-->ts")⟩ ∧
      Script.Dialect.ofLang (some "<!--b-->ts") = .javaScript := by
  have hlang : Attribute.Normal ⟨"lang", some "<!--b-->ts"⟩ :=
    ⟨by decide, by decide, by decide, by decide⟩
  have ha : RawText "a" := ⟨by decide, by decide, by decide⟩
  refine ⟨?_, by decide +kernel, rfl, by decide +kernel⟩
  simp [Node.IsBlock, Node.IsRaw, Node.isText, hlang, ha]

end Sections

end ComponentDoc
