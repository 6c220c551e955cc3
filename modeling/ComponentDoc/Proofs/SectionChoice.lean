import ComponentDoc.Sections
import ComponentDoc.Proofs.Markup.OpeningTag
import ComponentDoc.Proofs.Markup.TagOrder
import ComponentDoc.Proofs.SyntaxTree

/-!
Which nodes of a syntax tree become the sections of a file, and what is cut out of the source for
them. The sections come from the first template and from one script at top level, whatever else
there is. In a tree whose nodes lie in order, a template is cut out between its tags, and the cut
never leaves the source.
-/

namespace ComponentDoc

/--
The stretch of a text between two offsets, if these are in order and inside the text.
-/
def Span.text? (span : Span) (source : List Char) : Option String :=
  if span.start ≤ span.stop ∧ span.stop ≤ source.length then some (span.text source) else none

open Markup

namespace Markup.Tree

/--
The parts of a node that have a place of their own. The mark of a missing end has none.
-/
def placedParts (t : Tree) : List Tree :=
  t.children.filter fun part => !part.isMissingEnd

/--
Whether the parts of a node lie inside it, one behind the other.
-/
structure InOrder (t : Tree) : Prop where
  start_le_stop : t.span.start ≤ t.span.stop
  inside : ∀ part ∈ t.placedParts,
    t.span.start ≤ part.span.start ∧ part.span.stop ≤ t.span.stop
  successive : t.placedParts.Pairwise fun earlier later => earlier.span.stop ≤ later.span.start

instance (t : Tree) : Decidable (InOrder t) :=
  decidable_of_iff (t.span.start ≤ t.span.stop ∧
      (∀ part ∈ t.placedParts, t.span.start ≤ part.span.start ∧ part.span.stop ≤ t.span.stop) ∧
      t.placedParts.Pairwise fun earlier later => earlier.span.stop ≤ later.span.start)
    ⟨fun ⟨hspan, hinside, hsuccessive⟩ => ⟨hspan, hinside, hsuccessive⟩,
      fun ⟨hspan, hinside, hsuccessive⟩ => ⟨hspan, hinside, hsuccessive⟩⟩

/--
Whether all nodes of a tree are in order, inside a source.
-/
structure WellPlaced (source : List Char) (tree : Tree) : Prop where
  inOrder : ∀ t ∈ tree.preorder, InOrder t
  stop_le_length : tree.span.stop ≤ source.length

end Markup.Tree

namespace Sections

variable {source : List Char} {nodes before after : List Tree} {t : Tree}

section Choice

/--
Whether a node is the first one with a property.
-/
def FirstWith (p : Tree → Bool) (nodes : List Tree) (t : Tree) : Prop :=
  p t = true ∧ ∃ before after, nodes = before ++ t :: after ∧ ∀ u ∈ before, p u = false

/--
The template of a list of nodes is the markup inside the first template element.
-/
inductive TemplateOf (source : List Char) (nodes : List Tree) : Option String → Prop where
  | first {t : Tree} (h : FirstWith (isTemplate source) nodes t) :
    TemplateOf source nodes (some (innerMarkup source t))
  | absent (h : ∀ t ∈ nodes, isTemplate source t = false) : TemplateOf source nodes none

def isLang (source : List Char) (part : Tree) : Bool :=
  Tree.is part .attribute && (Tree.attributeOf source part).name = "lang"

/--
What a script element holds: its first raw text, in the dialect that the first `lang` attribute of
its opening tag names.
-/
structure Holds (source : List Char) (t : Tree) (script : ScriptSection) : Prop where
  text_eq : ∀ raw, FirstWith (fun part => Tree.is part .rawText) t.children raw →
    script.text = raw.text source
  empty : (∀ part ∈ t.children, Tree.is part .rawText = false) → script.text = ""
  dialect_eq : ∀ tag lang, FirstWith Tree.isOpeningTag t.children tag →
    FirstWith (isLang source) tag.children lang →
      script.dialect = .ofLang (Tree.attributeOf source lang).value
  unnamed : (∀ tag, FirstWith Tree.isOpeningTag t.children tag →
    ∀ part ∈ tag.children, isLang source part = false) → script.dialect = .ofLang none

/--
The script of a list of nodes is that of the first script element that is not a setup script, or of
the first one of all if there are setup scripts only.
-/
inductive ScriptFrom (source : List Char) (nodes : List Tree) : Option ScriptSection → Prop where
  | plain {t : Tree} {script : ScriptSection}
    (h : FirstWith (fun u => Tree.is u .scriptElement && !isSetup source u) nodes t)
    (hholds : Holds source t script) : ScriptFrom source nodes (some script)
  | setup {t : Tree} {script : ScriptSection}
    (hsetup : ∀ u ∈ nodes, Tree.is u .scriptElement → isSetup source u = true)
    (h : FirstWith (fun u => Tree.is u .scriptElement) nodes t)
    (hholds : Holds source t script) : ScriptFrom source nodes (some script)
  | absent (h : ∀ t ∈ nodes, Tree.is t .scriptElement = false) : ScriptFrom source nodes none

theorem find?_eq_some_iff_firstWith {p : Tree → Bool} :
    nodes.find? p = some t ↔ FirstWith p nodes t := by
  rw [List.find?_eq_some_iff_append]
  unfold FirstWith
  simp only [Bool.not_eq_true']

theorem lang_of_opening {tag : Tree} (h : t.children.find? Tree.isOpeningTag = some tag) :
    ((attributes source t).find? fun a => a.1 = "lang").bind Prod.snd =
      (tag.children.find? (isLang source)).bind fun lang =>
        (Tree.attributeOf source lang).value := by
  have hfound : openingTag? t = some tag := h
  have hlang : (fun part => decide (Tree.is part .attribute = true ∧
      decide ((Tree.attributeOf source part).name = "lang") = true)) = isLang source := by
    funext part
    unfold isLang
    rw [Bool.decide_and, Bool.decide_eq_true, Bool.decide_eq_true]
  unfold attributes
  rw [hfound, Option.map_some, Option.getD_some, List.find?_map, List.find?_filter,
    Option.bind_map]
  simp only [Function.comp_def, attributeName_eq, attributeValue_eq, hlang]

theorem holds_scriptOf (source : List Char) (t : Tree) : Holds source t (scriptOf source t) where
  text_eq raw hraw := by
    unfold scriptOf
    dsimp only
    rw [find?_eq_some_iff_firstWith.2 hraw]
    rfl
  empty h := by
    have hnone : t.children.find? (fun part => Tree.is part .rawText) = none := by
      rw [List.find?_eq_none]
      intro part hpart
      simp [h part hpart]
    unfold scriptOf
    dsimp only
    rw [hnone]
    rfl
  dialect_eq tag lang htag hlang := by
    unfold scriptOf
    dsimp only
    rw [lang_of_opening (find?_eq_some_iff_firstWith.2 htag),
      find?_eq_some_iff_firstWith.2 hlang]
    rfl
  unnamed h := by
    unfold scriptOf
    dsimp only
    cases htag : t.children.find? Tree.isOpeningTag with
    | none =>
      have hfound : openingTag? t = none := htag
      unfold attributes
      rw [hfound]
      rfl
    | some tag =>
      have hnone : tag.children.find? (isLang source) = none := by
        rw [List.find?_eq_none]
        intro part hpart
        simp [h tag (find?_eq_some_iff_firstWith.1 htag) part hpart]
      rw [lang_of_opening htag, hnone]
      rfl

/--
The sections of a list of nodes without lists in between.
-/
theorem ofNodes_eq_find? (source : List Char) (nodes : List Tree) :
    ofNodes source nodes =
      { template := (nodes.find? (isTemplate source)).map (innerMarkup source)
        script := ((nodes.find? fun u => Tree.is u .scriptElement && !isSetup source u).or
          (nodes.find? fun u => Tree.is u .scriptElement)).map (scriptOf source) } := by
  have hboth : (fun u => decide (Tree.is u .scriptElement = true ∧ (!isSetup source u) = true)) =
      fun u => Tree.is u .scriptElement && !isSetup source u := by
    funext u
    rw [Bool.decide_and, Bool.decide_eq_true, Bool.decide_eq_true]
  unfold ofNodes
  dsimp only
  rw [List.find?_filter, List.head?_filter, hboth]

theorem isSetup_of_find?_eq_none
    (h : nodes.find? (fun u => Tree.is u .scriptElement && !isSetup source u) = none) :
    ∀ u ∈ nodes, Tree.is u .scriptElement → isSetup source u = true := by
  intro u hu hscript
  simpa [hscript] using List.find?_eq_none.1 h u hu

theorem templateOf_ofNodes (source : List Char) (nodes : List Tree) :
    TemplateOf source nodes (ofNodes source nodes).template := by
  unfold ofNodes
  dsimp only
  cases hfind : nodes.find? (isTemplate source) with
  | none =>
    apply TemplateOf.absent
    intro t ht
    simpa using List.find?_eq_none.1 hfind t ht
  | some t => exact .first (find?_eq_some_iff_firstWith.1 hfind)

theorem scriptFrom_ofNodes (source : List Char) (nodes : List Tree) :
    ScriptFrom source nodes (ofNodes source nodes).script := by
  rw [ofNodes_eq_find?]
  dsimp only
  cases hplain : nodes.find? fun u => Tree.is u .scriptElement && !isSetup source u with
  | some t => exact .plain (find?_eq_some_iff_firstWith.1 hplain) (holds_scriptOf source t)
  | none =>
    rw [Option.none_or]
    cases hfirst : nodes.find? fun u => Tree.is u .scriptElement with
    | some t =>
      exact .setup (isSetup_of_find?_eq_none hplain) (find?_eq_some_iff_firstWith.1 hfirst)
        (holds_scriptOf source t)
    | none =>
      apply ScriptFrom.absent
      intro t ht
      simpa using List.find?_eq_none.1 hfirst t ht

/--
Whether a node behind others is neither a script nor the first template.
-/
def Idle (source : List Char) (before : List Tree) (t : Tree) : Prop :=
  Tree.is t .scriptElement = false ∧
    (isTemplate source t = false ∨ ∃ u ∈ before, isTemplate source u = true)

theorem ofNodes_of_idle (h : Idle source before t) (after : List Tree) :
    ofNodes source (before ++ t :: after) = ofNodes source (before ++ after) := by
  obtain ⟨hscript, htemplate⟩ := h
  have hfind : (before ++ t :: after).find? (isTemplate source) =
      (before ++ after).find? (isTemplate source) := by
    rw [List.find?_append, List.find?_append]
    rcases htemplate with htemplate | ⟨u, hu, htemplate⟩
    . rw [List.find?_cons_of_neg (by simp [htemplate])]
    . obtain ⟨v, hv⟩ := Option.isSome_iff_exists.1 (List.find?_isSome.2 ⟨u, hu, htemplate⟩)
      rw [hv, Option.some_or, Option.some_or]
  unfold ofNodes
  dsimp only
  rw [hfind, List.filter_append, List.filter_append, List.filter_cons_of_neg (by simp [hscript])]

end Choice

section OnePass

/--
What was chosen so far by a pass over the nodes.
-/
structure Choice where
  template : Option String := none
  script : Option ScriptSection := none
  /-- The first setup script, kept for the case that there is no other one. -/
  setup : Option ScriptSection := none

namespace Choice

/--
Look at one more node. Once there is a template no other one is looked at, and once there is a
script that is no setup script neither is another script.
-/
def next (source : List Char) (choice : Choice) (t : Tree) : Choice :=
  if isTemplate source t && choice.template.isNone then
    { choice with template := some (innerMarkup source t) }
  else if Tree.is t .scriptElement && choice.script.isNone then
    if isSetup source t then { choice with setup := choice.setup.or (some (scriptOf source t)) }
    else { choice with script := some (scriptOf source t) }
  else choice

def sections (choice : Choice) : Sections where
  template := choice.template
  script := choice.script.or choice.setup

variable (choice : Choice)

theorem template_next :
    (choice.next source t).template =
      choice.template.or (if isTemplate source t then some (innerMarkup source t) else none) := by
  obtain ⟨template, script, setup⟩ := choice
  unfold next
  cases template with
  | none => grind
  | some text => grind

theorem is_scriptElement_of_isTemplate (h : isTemplate source t = true) :
    Tree.is t .scriptElement = false := by
  unfold isTemplate at h
  rw [Bool.and_eq_true] at h
  have hlabel : t.label? = some .element := of_decide_eq_true h.1
  unfold Tree.is
  rw [hlabel]
  rfl

theorem script_next :
    (choice.next source t).script =
      choice.script.or
        (if Tree.is t .scriptElement && !isSetup source t then some (scriptOf source t)
          else none) := by
  have hkinds := @is_scriptElement_of_isTemplate source t
  obtain ⟨template, script, setup⟩ := choice
  unfold next
  cases script with
  | none => grind
  | some text => grind

theorem setup_next (hscript : choice.script = none)
    (hsetup : Tree.is t .scriptElement → isSetup source t = true) :
    (choice.next source t).setup =
      choice.setup.or (if Tree.is t .scriptElement then some (scriptOf source t) else none) := by
  have hkinds := @is_scriptElement_of_isTemplate source t
  unfold next
  grind

variable (nodes : List Tree)

theorem template_foldl_next :
    (nodes.foldl (next source) choice).template =
      choice.template.or ((nodes.find? (isTemplate source)).map (innerMarkup source)) := by
  induction nodes generalizing choice with
  | nil => simp
  | cons t nodes ih =>
    rw [List.foldl_cons, ih, template_next, Option.or_assoc, List.find?_cons]
    cases isTemplate source t with
    | true => rfl
    | false => rfl

theorem script_foldl_next :
    (nodes.foldl (next source) choice).script =
      choice.script.or
        ((nodes.find? fun u => Tree.is u .scriptElement && !isSetup source u).map
          (scriptOf source)) := by
  induction nodes generalizing choice with
  | nil => simp
  | cons t nodes ih =>
    rw [List.foldl_cons, ih, script_next, Option.or_assoc, List.find?_cons]
    cases Tree.is t .scriptElement && !isSetup source t with
    | true => rfl
    | false => rfl

/--
As long as there are only setup scripts, the first of them is kept.
-/
theorem setup_foldl_next (hscript : choice.script = none)
    (hsetup : ∀ u ∈ nodes, Tree.is u .scriptElement → isSetup source u = true) :
    (nodes.foldl (next source) choice).setup =
      choice.setup.or
        ((nodes.find? fun u => Tree.is u .scriptElement).map (scriptOf source)) := by
  induction nodes generalizing choice with
  | nil => simp
  | cons t nodes ih =>
    have ht := hsetup t List.mem_cons_self
    have hnext : (choice.next source t).script = none := by
      rw [script_next, hscript, Option.none_or]
      grind
    rw [List.foldl_cons, ih _ hnext fun u hu => hsetup u (List.mem_cons_of_mem t hu),
      setup_next choice hscript ht, Option.or_assoc, List.find?_cons]
    cases Tree.is t .scriptElement with
    | true => rfl
    | false => rfl

end Choice

/--
One pass over the nodes, which stops looking once something is chosen and falls back on the setup
script in the end, chooses the sections.
-/
theorem sections_foldl_next (source : List Char) (nodes : List Tree) :
    (nodes.foldl (Choice.next source) {}).sections = ofNodes source nodes := by
  unfold Choice.sections
  rw [Choice.template_foldl_next, Choice.script_foldl_next, Option.none_or, Option.none_or,
    ofNodes_eq_find?]
  congr 1
  cases hplain : nodes.find? fun u => Tree.is u .scriptElement && !isSetup source u with
  | some t => rfl
  | none =>
    rw [Choice.setup_foldl_next _ _ rfl (isSetup_of_find?_eq_none hplain), Option.none_or,
      Option.none_or]
    rfl

end OnePass

section Cutting

/--
The stretch of the source that is cut out for an element: from its start tag to its last end tag,
or to its end without one.
-/
def markupSpan? (t : Tree) : Option Span :=
  (t.children.find? fun part => Tree.is part .startTag).map fun start =>
    ⟨start.span.stop, ((t.children.reverse.find? fun part => Tree.is part .endTag).map
      fun ending => ending.span.start).getD t.span.stop⟩

theorem innerMarkup_eq_markupSpan? (source : List Char) (t : Tree) :
    innerMarkup source t = ((markupSpan? t).map fun span => span.text source).getD "" := by
  unfold innerMarkup markupSpan?
  cases t.children.find? fun part => Tree.is part .startTag with
  | none => rfl
  | some start => rfl

variable {start ending part : Tree} {kind : Kind} {span : Span}

theorem isMissingEnd_of_is (h : Tree.is part kind = true) (hkind : kind ≠ .elementEnd) :
    (!part.isMissingEnd) = true := by
  unfold Tree.is at h
  unfold Tree.isMissingEnd
  split
  . cases of_decide_eq_true h
    cases hkind rfl
  . rfl

theorem mem_placedParts (hpart : part ∈ t.children) (h : Tree.is part kind = true)
    (hkind : kind ≠ .elementEnd) : part ∈ t.placedParts :=
  List.mem_filter.2 ⟨hpart, isMissingEnd_of_is h hkind⟩

theorem isOpeningTag_of_startTag (h : Tree.is part .startTag = true) :
    Tree.isOpeningTag part = true := by
  unfold Tree.isOpeningTag
  rw [h, Bool.true_or]

theorem isEndingTag_of_endTag (h : Tree.is part .endTag = true) :
    Tree.isEndingTag part = true := by
  unfold Tree.isEndingTag
  rw [h, Bool.true_or]

theorem isOpeningTag_of_endTag (h : Tree.is part .endTag = true) :
    Tree.isOpeningTag part = false := by
  have hlabel : part.label? = some .endTag := of_decide_eq_true h
  unfold Tree.isOpeningTag Tree.is
  rw [hlabel]
  rfl

theorem stop_le_start_of_mem (h : Tree.InOrder t) (hchildren : t.children = before ++ start :: after)
    (hstart : Tree.is start .startTag = true) (hending : ending ∈ after)
    (hend : Tree.is ending .endTag = true) : start.span.stop ≤ ending.span.start := by
  have hsuccessive := List.pairwise_filter.1 h.successive
  rw [hchildren, List.pairwise_append, List.pairwise_cons] at hsuccessive
  apply hsuccessive.2.1.1 ending hending
  . exact isMissingEnd_of_is hstart (by decide)
  . exact isMissingEnd_of_is hend (by decide)

/--
The start tag of an element lies in front of its end tags.
-/
theorem stop_le_start (h : Tree.InOrder t) (hopens : Tree.OpensFirst t)
    (hstart : t.children.find? (fun part => Tree.is part .startTag) = some start)
    (hending : ending ∈ t.children) (hend : Tree.is ending .endTag = true) :
    start.span.stop ≤ ending.span.start := by
  obtain ⟨hstartTag, before, after, hchildren, -⟩ := List.find?_eq_some_iff_append.1 hstart
  have hopening := isOpeningTag_of_startTag hstartTag
  unfold Tree.OpensFirst at hopens
  rw [hchildren, List.pairwise_append] at hopens
  rw [hchildren, List.mem_append, List.mem_cons] at hending
  rcases hending with hbefore | rfl | hafter
  . -- No tag stands in front of the opening one.
    have hclosed := hopens.2.2 ending hbefore start List.mem_cons_self
      (by rw [isEndingTag_of_endTag hend, Bool.or_true])
    rw [hopening] at hclosed
    cases hclosed
  . rw [isOpeningTag_of_endTag hend] at hopening
    cases hopening
  . exact stop_le_start_of_mem h hchildren hstartTag hafter hend

theorem markupSpan?_of_endTag
    (hstart : t.children.find? (fun part => Tree.is part .startTag) = some start)
    (hending : t.children.reverse.find? (fun part => Tree.is part .endTag) = some ending) :
    markupSpan? t = some ⟨start.span.stop, ending.span.start⟩ := by
  unfold markupSpan?
  rw [hstart, hending]
  rfl

theorem markupSpan?_of_open
    (hstart : t.children.find? (fun part => Tree.is part .startTag) = some start)
    (hending : ∀ part ∈ t.children, Tree.is part .endTag = false) :
    markupSpan? t = some ⟨start.span.stop, t.span.stop⟩ := by
  have hnone : t.children.reverse.find? (fun part => Tree.is part .endTag) = none := by
    rw [List.find?_eq_none]
    intro part hpart
    rw [hending part (List.mem_reverse.1 hpart)]
    exact Bool.false_ne_true
  unfold markupSpan?
  rw [hstart, hnone]
  rfl

/--
What is cut out for an element lies inside it.
-/
theorem markupSpan?_inside (h : ∀ u ∈ t.preorder, Tree.InOrder u) (hopens : Tree.OpensFirst t)
    (hspan : markupSpan? t = some span) :
    span.start ≤ span.stop ∧ span.stop ≤ t.span.stop := by
  have horder := h t (SyntaxTree.self_mem_preorder t)
  obtain ⟨start, hstart, -⟩ := Option.map_eq_some_iff.1 hspan
  have hstartTag := List.find?_some hstart
  cases hfind : t.children.reverse.find? fun part => Tree.is part .endTag with
  | none =>
    have hopen : ∀ part ∈ t.children, Tree.is part .endTag = false := by
      intro part hpart
      simpa using List.find?_eq_none.1 hfind part (List.mem_reverse.2 hpart)
    rw [markupSpan?_of_open hstart hopen] at hspan
    cases hspan
    refine ⟨?_, Nat.le_refl _⟩
    exact (horder.inside start
      (mem_placedParts (List.mem_of_find?_eq_some hstart) hstartTag (by decide))).2
  | some ending =>
    have hend := List.find?_some hfind
    have hmem := List.mem_reverse.1 (List.mem_of_find?_eq_some hfind)
    have hinside := horder.inside ending (mem_placedParts hmem hend (by decide))
    have hending := (h ending (SyntaxTree.mem_preorder_of_child hmem
      (SyntaxTree.self_mem_preorder ending))).start_le_stop
    rw [markupSpan?_of_endTag hstart hfind] at hspan
    cases hspan
    exact ⟨stop_le_start horder hopens hstart hmem hend, Nat.le_trans hending hinside.2⟩

/--
What is cut out of a source for a template element.
-/
structure CutOut (source : List Char) (t : Tree) : Prop where
  /-- Between a start tag and an end tag the cut takes all that is in between. -/
  between : ∀ start ending, t.children.head? = some start → Tree.is start .startTag = true →
    start.span.start = t.span.start → t.children.getLast? = some ending →
    Tree.is ending .endTag = true → ending.span.stop = t.span.stop →
    t.text source = start.text source ++ innerMarkup source t ++ ending.text source
  /-- Without an end tag it goes on to the end of the element. -/
  open_ : ∀ start, t.children.find? (fun part => Tree.is part .startTag) = some start →
    (∀ part ∈ t.children, Tree.is part .endTag = false) →
    innerMarkup source t = Span.text ⟨start.span.stop, t.span.stop⟩ source
  selfClosing : Tree.OpensFirst t → ∀ tag, openingTag? t = some tag →
    Tree.is tag .selfClosingTag = true → innerMarkup source t = ""
  /-- The offsets of the cut are in order and inside the source. -/
  within : Tree.OpensFirst t → ∀ span, markupSpan? t = some span →
    span.text? source = some (innerMarkup source t)

theorem innerMarkup_of_markupSpan? (h : markupSpan? t = some span) :
    innerMarkup source t = span.text source := by
  rw [innerMarkup_eq_markupSpan?, h]
  rfl

theorem text_eq_append (h : ∀ u ∈ t.preorder, Tree.InOrder u)
    (hhead : t.children.head? = some start) (hstart : Tree.is start .startTag = true)
    (hfront : start.span.start = t.span.start) (hlast : t.children.getLast? = some ending)
    (hend : Tree.is ending .endTag = true) (hback : ending.span.stop = t.span.stop) :
    t.text source = start.text source ++ innerMarkup source t ++ ending.text source := by
  obtain ⟨behind, hchildren⟩ := List.head?_eq_some_iff.1 hhead
  have hfindStart : t.children.find? (fun part => Tree.is part .startTag) = some start := by
    rw [hchildren, List.find?_cons, hstart]
  have hfindEnd : t.children.reverse.find? (fun part => Tree.is part .endTag) = some ending := by
    obtain ⟨rest, hrest⟩ := List.getLast?_eq_some_iff.1 hlast
    rw [hrest, List.reverse_concat, List.find?_cons, hend]
  have hmem := List.mem_of_getLast? hlast
  have hplaced (part : Tree) (hpart : part ∈ t.children) : part.span.start ≤ part.span.stop :=
    (h part (SyntaxTree.mem_preorder_of_child hpart
      (SyntaxTree.self_mem_preorder part))).start_le_stop
  have hstartLe := hplaced start (List.mem_of_find?_eq_some hfindStart)
  have hendLe := hplaced ending hmem
  have hbetween : start.span.stop ≤ ending.span.start := by
    rw [hchildren, List.mem_cons] at hmem
    rcases hmem with rfl | hbehind
    . cases (of_decide_eq_true hstart).symm.trans (of_decide_eq_true hend)
    . have hsplit : t.children = [] ++ start :: behind := hchildren
      exact stop_le_start_of_mem (h t (SyntaxTree.self_mem_preorder t)) hsplit hstart hbehind hend
  rw [innerMarkup_of_markupSpan? (markupSpan?_of_endTag hfindStart hfindEnd)]
  unfold SyntaxTree.text
  calc t.span.text source
      = Span.text ⟨start.span.start, ending.span.stop⟩ source := by rw [hfront, hback]
    _ = Span.text ⟨start.span.start, ending.span.start⟩ source ++ ending.span.text source :=
        (Span.text_append (Nat.le_trans hstartLe hbetween) hendLe).symm
    _ = start.span.text source ++ Span.text ⟨start.span.stop, ending.span.start⟩ source ++
          ending.span.text source := by
        rw [← Span.text_append hstartLe hbetween]

theorem innerMarkup_of_selfClosing {tag : Tree} (hopens : Tree.OpensFirst t)
    (htag : openingTag? t = some tag) (hself : Tree.is tag .selfClosingTag = true) :
    innerMarkup source t = "" := by
  obtain ⟨hopening, before, after, hchildren, hbefore⟩ := List.find?_eq_some_iff_append.1 htag
  unfold Tree.OpensFirst at hopens
  rw [hchildren, List.pairwise_append, List.pairwise_cons] at hopens
  have hnone : t.children.find? (fun part => Tree.is part .startTag) = none := by
    rw [List.find?_eq_none, hchildren]
    intro part hpart hstart
    rcases List.mem_append.1 hpart with hmem | hmem
    . have hclosed := hbefore part hmem
      rw [hstart] at hclosed
      cases hclosed
    . rcases List.mem_cons.1 hmem with rfl | hmem
      . cases (of_decide_eq_true hself).symm.trans (of_decide_eq_true hstart)
      . have hclosed := hopens.2.1.1 part hmem (by rw [Tree.isOpeningTag, hopening, Bool.true_or])
        rw [isOpeningTag_of_startTag hstart] at hclosed
        cases hclosed
  unfold innerMarkup
  rw [hnone]

theorem cutOut (h : ∀ u ∈ t.preorder, Tree.InOrder u) (hstop : t.span.stop ≤ source.length) :
    CutOut source t where
  between start ending hhead hstart hfront hlast hend hback :=
    text_eq_append h hhead hstart hfront hlast hend hback
  open_ start hstart hending := innerMarkup_of_markupSpan? (markupSpan?_of_open hstart hending)
  selfClosing hopens tag htag hself := innerMarkup_of_selfClosing hopens htag hself
  within hopens span hspan := by
    have hinside := markupSpan?_inside h hopens hspan
    unfold Span.text?
    rw [if_pos ⟨hinside.1, Nat.le_trans hinside.2 hstop⟩, innerMarkup_of_markupSpan? hspan]

end Cutting

/--
The sections of a syntax tree come from its first template element and from its first script element
that is no setup script, or else from its first script element; one pass over the nodes at top level
finds them, and any other node can be taken out. In a tree whose nodes are in order, what is cut out
for a template stands between its tags, and where the tags are as the grammar has them, as they are
in every document that was parsed, the cut never reaches out of the source.
-/
theorem sections_of_wellPlaced {tree : Tree} (h : tree.WellPlaced source) :
    TemplateOf source tree.children (ofNodes source tree.children).template ∧
    ScriptFrom source tree.children (ofNodes source tree.children).script ∧
    (tree.children.foldl (Choice.next source) {}).sections = ofNodes source tree.children ∧
    (∀ before t after, tree.children = before ++ t :: after → Idle source before t →
      ofNodes source (before ++ after) = ofNodes source tree.children) ∧
    (∀ t ∈ tree.children, isTemplate source t = true → CutOut source t) ∧
    ∀ t ∈ (parseDocument source).children, Tree.is t .element = true → Tree.OpensFirst t := by
  refine ⟨templateOf_ofNodes source _, scriptFrom_ofNodes source _,
    sections_foldl_next source _, ?_, ?_, fun t => opensFirst_of_mem_parseDocument⟩
  . intro before t after hchildren hidle
    rw [hchildren, ofNodes_of_idle hidle]
  . intro t ht htemplate
    have hroot := h.inOrder tree (SyntaxTree.self_mem_preorder tree)
    have hinside := hroot.inside t
      (mem_placedParts ht (Bool.and_eq_true_iff.1 htemplate).1 (by decide))
    apply cutOut
    . intro u hu
      exact h.inOrder u (SyntaxTree.mem_preorder_of_child ht hu)
    . exact Nat.le_trans hinside.2 h.stop_le_length

set_option maxRecDepth 2000 in
/--
A template with another one inside it, whose end tag does not end the cut, and a second template
behind two scripts: the first of these is a setup script, so the other one is taken.
-/
theorem sections_of_wellPlaced_nested :
    ∃ (source : List Char) (tree t : Tree), tree.WellPlaced source ∧ t ∈ tree.children ∧
      isTemplate source t = true ∧
      ofNodes source tree.children =
        { template := some "<template></template>b", script := some ⟨"y", .typeScript⟩ } ∧
      t.text source = "<template>" ++ "<template></template>b" ++ "</template>" ∧
      Span.text? ⟨10, 32⟩ source = some "<template></template>b" := by
  let source := "<template><template></template>b</template><script setup>x</script>".toList ++
    "<script lang=ts>y</script><template></template>".toList
  let startAt (o : Nat) : Tree := .node .startTag ⟨o, o + 10⟩ [.node .tagName ⟨o + 1, o + 9⟩ []]
  let endAt (o : Nat) : Tree := .node .endTag ⟨o, o + 11⟩ [.node .tagName ⟨o + 2, o + 10⟩ []]
  let inner : Tree := .node .element ⟨10, 31⟩ [startAt 10, endAt 20]
  let t : Tree := .node .element ⟨0, 43⟩ [startAt 0, inner, .node .text ⟨31, 32⟩ [], endAt 32]
  let setup : Tree := .node .scriptElement ⟨43, 67⟩
    [.node .startTag ⟨43, 57⟩
      [.node .tagName ⟨44, 50⟩ [],
        .node .attribute ⟨51, 56⟩ [.node .attributeName ⟨51, 56⟩ []]],
      .node .rawText ⟨57, 58⟩ [], .node .endTag ⟨58, 67⟩ [.node .tagName ⟨60, 66⟩ []]]
  let script : Tree := .node .scriptElement ⟨67, 93⟩
    [.node .startTag ⟨67, 83⟩
      [.node .tagName ⟨68, 74⟩ [],
        .node .attribute ⟨75, 82⟩
          [.node .attributeName ⟨75, 79⟩ [], .node .attributeValue ⟨80, 82⟩ []]],
      .node .rawText ⟨83, 84⟩ [], .node .endTag ⟨84, 93⟩ [.node .tagName ⟨86, 92⟩ []]]
  let tree : Tree := .node .document ⟨0, 114⟩
    [t, setup, script, .node .element ⟨93, 114⟩ [startAt 93, endAt 103]]
  have hplaced : tree.WellPlaced source := ⟨by decide, by decide⟩
  have ht : t ∈ tree.children := List.mem_cons_self
  obtain ⟨-, -, -, -, hcut, -⟩ := sections_of_wellPlaced hplaced
  have hcutOut := hcut t ht rfl
  refine ⟨source, tree, t, hplaced, ht, rfl, by decide +kernel, ?_, ?_⟩
  . rw [hcutOut.between (startAt 0) (endAt 32) rfl rfl rfl rfl rfl rfl]
    decide +kernel
  . rw [hcutOut.within (by decide) ⟨10, 32⟩ rfl]
    decide +kernel

end Sections

end ComponentDoc
