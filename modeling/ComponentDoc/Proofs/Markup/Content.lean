import ComponentDoc.Proofs.Markup.OpenNames
import ComponentDoc.Proofs.Markup.Tag
import ComponentDoc.Proofs.Markup.Token

/-!
Reading printed forests. Blanks may stand between the nodes. `Reads` says what reading the content
of an element gives at a printed forest; there is one lemma for each kind of node, and
`reads_spaced` puts them together by induction on the number of steps that are left.
-/

namespace ComponentDoc.Markup

open Text

variable {source rest gap : List Char} {o fuel : Nat} {openTags : List TagName}

theorem skipBlanks_skipBlanks (c : Cursor) : skipBlanks (skipBlanks c) = skipBlanks c := by
  cases c with
  | mk rest o =>
    rw [skipBlanks_eq rest o]
    apply skipBlanks_of_head
    intro x hx
    have h := List.head?_dropWhile_not isAsciiBlank rest
    rw [hx] at h
    exact h

/--
An element whose content is one raw text.
-/
def Node.IsRaw : Node → Prop
  | .element tag attributes [.text body] =>
    (tag = "script" ∨ tag = "style") ∧ (∀ a ∈ attributes, a.Normal) ∧ RawText body
  | _ => False

/--
What is printed for nodes with the blanks that stand in front of each.
-/
def printSpaced (items : List (List Char × Node)) : List Char :=
  items.flatMap fun item => item.1 ++ item.2.print

theorem printSpaced_cons (gap : List Char) (node : Node) (items : List (List Char × Node)) :
    printSpaced ((gap, node) :: items) = gap ++ (node.print ++ printSpaced items) := by
  unfold printSpaced
  rw [List.flatMap_cons, List.append_assoc]

theorem printSpaced_append (items more : List (List Char × Node)) :
    printSpaced (items ++ more) = printSpaced items ++ printSpaced more :=
  List.flatMap_append

/--
Nodes that can be read back, with blanks in front of each.
-/
def Readable : List (List Char × Node) → Prop
  | [] => True
  | (gap, node) :: items =>
    (∀ x ∈ gap, isAsciiBlank x = true) ∧ (node.Normal ∨ node.IsRaw) ∧
      (node.isText = true → ∀ next, items.head? = some next → next.2.isText = false) ∧
        Readable items

/--
A forest without blanks between its nodes.
-/
def packed (nodes : List Node) : List (List Char × Node) :=
  nodes.map fun node => ([], node)

theorem printSpaced_packed (nodes : List Node) : printSpaced (packed nodes) = printForest nodes := by
  induction nodes with
  | nil => rfl
  | cons node nodes ih =>
    rw [packed, List.map_cons, printSpaced_cons, printForest, ← ih]
    rfl

theorem map_snd_packed (nodes : List Node) : (packed nodes).map Prod.snd = nodes := by
  unfold packed
  rw [List.map_map]
  exact List.map_id nodes

theorem readable_packed {nodes : List Node} (h : NormalForest nodes) : Readable (packed nodes) := by
  induction nodes with
  | nil => trivial
  | cons node nodes ih =>
    obtain ⟨hnode, htext, hnodes⟩ := h
    refine ⟨?_, Or.inl hnode, ?_, ih hnodes⟩
    . intro x hx
      cases hx
    . intro hisText next hnext
      cases nodes with
      | nil => cases hnext
      | cons other nodes =>
        cases hnext
        exact htext hisText other rfl

/--
Reading printed nodes in front of `rest` up to the end of the innermost open element gives trees
that show them.
-/
def Reads (source : List Char) (fuel : Nat) (openTags : List TagName)
    (items : List (List Char × Node)) (rest : List Char) : Prop :=
  ∀ (o : Nat) (c : Cursor), source.drop o = printSpaced items ++ rest →
    skipBlanks c = skipBlanks ⟨printSpaced items ++ rest, o⟩ →
      ∃ trees stop, content fuel openTags c = (trees, stop) ∧
        skipBlanks stop = skipBlanks ⟨rest, o + (printSpaced items).length⟩ ∧
        Shows source trees (items.map Prod.snd)

theorem reads_nil (hstop : ∀ p, closing openTags (skipBlanks ⟨rest, p⟩) ≠ .none_) :
    Reads source (fuel + 1) openTags [] rest := by
  intro o c _ hc
  refine ⟨[], c, ?_, hc, Shows.nil⟩
  rw [content]
  dsimp only
  rw [hc, if_neg]
  exact hstop o

theorem content_closed {c d : Cursor} (hc : skipBlanks c = d) (hnone : closing openTags d = .none_)
    (hopening : opening? d = none) {tree : Tree} {e : Cursor}
    (hnode : closedNode openTags d = (tree, e)) :
    content (fuel + 1) openTags c =
      (tree :: (content fuel openTags e).1, (content fuel openTags e).2) := by
  rw [content]
  dsimp only
  rw [hc, if_pos hnone, hopening]
  dsimp only
  rw [hnode]

theorem content_opening {c d : Cursor} (hc : skipBlanks c = d)
    (hnone : closing openTags d = .none_) {tag : StartTag} (hopening : opening? d = some tag)
    {inner : List TagName} (hopened : tag.name.opened openTags = inner)
    {children : List Tree} {stop : Cursor}
    (hchildren : content fuel inner tag.stop = (children, stop)) {tree : Tree} {e : Cursor}
    (hfinish : finishElement inner d tag children stop = (tree, e)) :
    content (fuel + 1) openTags c =
      (tree :: (content fuel openTags e).1, (content fuel openTags e).2) := by
  rw [content]
  dsimp only
  rw [hc, if_pos hnone, hopening]
  dsimp only
  rw [hopened, hchildren]
  dsimp only
  rw [hfinish]

theorem finishElement_endTag (c : Cursor) (tag : StartTag) (children : List Tree)
    {d e f : Cursor} {endTree : Tree} (hd : skipBlanks d = e) (hclosing : closing openTags e = .endTag)
    (hend : endTag .endTag e = (endTree, f)) :
    finishElement openTags c tag children d =
      (.node .element ⟨c.offset, f.offset⟩ (tag.tree :: (children ++ [endTree])), f) := by
  unfold finishElement
  dsimp only
  rw [hd, hclosing]
  dsimp only
  rw [hend]
  rfl

theorem finishElement_implicit (c : Cursor) (tag : StartTag) (children : List Tree)
    {d e : Cursor} (hd : skipBlanks d = e) (hclosing : closing openTags e = .implicit) :
    finishElement openTags c tag children d =
      (.node .element ⟨c.offset, e.offset⟩ (tag.tree :: children), e) := by
  unfold finishElement
  dsimp only
  rw [hd, hclosing]

/--
A node that is read on its own, in front of nodes that are read.
-/
theorem reads_cons_closed {node : Node} {items : List (List Char × Node)}
    (hgap : ∀ x ∈ gap, isAsciiBlank x = true)
    (hhead : ∀ x, (node.print ++ (printSpaced items ++ rest)).head? = some x →
      isAsciiBlank x = false)
    (hnode : ∀ p, source.drop p = node.print ++ (printSpaced items ++ rest) →
      closing openTags ⟨node.print ++ (printSpaced items ++ rest), p⟩ = .none_ ∧
      opening? ⟨node.print ++ (printSpaced items ++ rest), p⟩ = none ∧
      ∃ tree, closedNode openTags ⟨node.print ++ (printSpaced items ++ rest), p⟩ =
          (tree, ⟨printSpaced items ++ rest, p + node.print.length⟩) ∧
        ∀ trees nodes, Shows source trees nodes → Shows source (tree :: trees) (node :: nodes))
    (ih : Reads source fuel openTags items rest) :
    Reads source (fuel + 1) openTags ((gap, node) :: items) rest := by
  intro o c hsource hc
  rw [printSpaced_cons, List.append_assoc, List.append_assoc] at hsource hc
  rw [skipBlanks_append hgap, skipBlanks_of_head hhead] at hc
  have hdrop := drop_add_of_drop hsource
  obtain ⟨hnone, hopening, tree, hclosed, hshows⟩ := hnode _ hdrop
  obtain ⟨trees, stop, hcontent, hstop, htrees⟩ := ih _ _ (drop_add_of_drop hdrop) rfl
  refine ⟨tree :: trees, stop, ?_, ?_, hshows _ _ htrees⟩
  . rw [content_closed hc hnone hopening hclosed, hcontent]
  . rw [hstop, printSpaced_cons]
    simp only [List.length_append, Nat.add_assoc]

theorem NormalText.exists_cons {text : String} (h : NormalText text) :
    ∃ x tail, text.toList = x :: tail ∧ x ≠ '<' := by
  cases hchars : text.toList with
  | nil => exact absurd hchars h.nonempty
  | cons x tail =>
    refine ⟨x, tail, rfl, ?_⟩
    rintro rfl
    have hx : isTextChar '<' = true := by
      apply h.chars
      rw [hchars]
      exact List.mem_cons_self
    cases hx

theorem reads_text {text : String} {items : List (List Char × Node)}
    (hgap : ∀ x ∈ gap, isAsciiBlank x = true) (htext : NormalText text)
    (hends : EndsText (printSpaced items ++ rest)) (ih : Reads source fuel openTags items rest) :
    Reads source (fuel + 1) openTags ((gap, .text text) :: items) rest := by
  obtain ⟨x, tail, hchars, hx⟩ := htext.exists_cons
  have hprint : (Node.text text).print = text.toList := by
    rw [Node.print]
  apply reads_cons_closed hgap ?_ ?_ ih
  . intro y hy
    apply htext.head
    rw [hprint, hchars] at hy
    rw [hchars]
    exact hy
  . intro p hp
    rw [hprint] at hp ⊢
    refine ⟨?_, ?_, _, closedNode_text htext hends _ p, ?_⟩
    . rw [hchars]
      exact closing_of_head hx _ _ _
    . rw [hchars]
      exact opening?_of_head hx _ _
    . intro trees nodes hshows
      exact Shows.text (Span.slice_of_drop hp) hshows

theorem reads_comment {text : String} {items : List (List Char × Node)}
    (hgap : ∀ x ∈ gap, isAsciiBlank x = true) (htext : NormalComment text)
    (ih : Reads source fuel openTags items rest) :
    Reads source (fuel + 1) openTags ((gap, .comment text) :: items) rest := by
  have hprint : (Node.comment text).print = printComment text := by
    rw [Node.print]
  apply reads_cons_closed hgap ?_ ?_ ih
  . intro y hy
    rw [hprint] at hy
    cases hy
    rfl
  . intro p hp
    rw [hprint] at hp ⊢
    refine ⟨rfl, rfl, _, closedNode_comment htext _ _ p, ?_⟩
    intro trees nodes hshows
    exact Shows.comment (Span.slice_of_drop hp) hshows

section Elements

variable {tag : String} {attributes : List Attribute}

theorem exists_printOpening (htag : TagShaped tag) (attributes : List Attribute)
    (rest : List Char) :
    ∃ x tail, printOpening tag attributes ++ rest = '<' :: x :: tail ∧ x ≠ '!' ∧ x ≠ '/' := by
  obtain ⟨x, tail, hname, hx⟩ := htag.exists_cons
  refine ⟨x, tail ++ (printAttributes attributes ++ ['>'] ++ rest), ?_, ne_of_isLower hx rfl,
    ne_of_isLower hx rfl⟩
  rw [printOpening, hname]
  simp

theorem opening?_print (htag : TagShaped tag) (attributes : List Attribute) (rest : List Char)
    (o : Nat) :
    opening? ⟨printOpening tag attributes ++ rest, o⟩ =
      (startTag? ⟨printOpening tag attributes ++ rest, o⟩).filter fun t =>
        !t.selfClosing && t.name.name != "script" && t.name.name != "style" := by
  obtain ⟨x, tail, hprint, hbang, hslash⟩ := exists_printOpening htag attributes rest
  rw [hprint, opening?]
  simp [hbang, hslash]

theorem closedNode_printOpening (htag : TagShaped tag) (attributes : List Attribute)
    (openTags : List TagName) (rest : List Char) (o : Nat) :
    closedNode openTags ⟨printOpening tag attributes ++ rest, o⟩ =
      closedElement openTags ⟨printOpening tag attributes ++ rest, o⟩ := by
  obtain ⟨x, tail, hprint, hbang, hslash⟩ := exists_printOpening htag attributes rest
  rw [hprint]
  unfold closedNode
  dsimp only
  split
  . next heq =>
    cases heq
    exact absurd rfl hbang
  . next heq =>
    cases heq
    exact absurd rfl hslash
  . rfl
  . next heq => cases heq
  . next heq => cases heq
  . next h _ _ => exact absurd rfl (h _)

theorem opening?_eq_some (htag : TagShaped tag) (hraw : tag ≠ "script" ∧ tag ≠ "style")
    (hattributes : ∀ a ∈ attributes, a.Readable)
    (hsource : source.drop o = printOpening tag attributes ++ rest) :
    ∃ tree, opening? ⟨printOpening tag attributes ++ rest, o⟩ =
        some ⟨⟨tag⟩, tree, false, ⟨rest, o + (printOpening tag attributes).length⟩⟩ ∧
      ShowsOpening source tree tag attributes ∧
      tree.span = ⟨o, o + (printOpening tag attributes).length⟩ := by
  obtain ⟨tree, hstart, hshows, hspan⟩ := startTag?_print htag hattributes hsource
  refine ⟨tree, ?_, hshows, hspan⟩
  rw [opening?_print htag, hstart, Option.filter_some]
  simp [hraw]

theorem skipBlanks_printOpening (tag : String) (attributes : List Attribute) (rest : List Char)
    (o : Nat) :
    skipBlanks ⟨printOpening tag attributes ++ rest, o⟩ =
      ⟨printOpening tag attributes ++ rest, o⟩ := by
  apply skipBlanks_of_head
  intro x hx
  cases hx
  rfl

theorem skipBlanks_printEnding (tag : String) (rest : List Char) (o : Nat) :
    skipBlanks ⟨printEnding tag ++ rest, o⟩ = ⟨printEnding tag ++ rest, o⟩ := by
  apply skipBlanks_of_head
  intro x hx
  cases hx
  rfl

theorem reads_element {children : List Node} {items : List (List Char × Node)}
    (hgap : ∀ x ∈ gap, isAsciiBlank x = true) (htag : PlainTag tag)
    (hattributes : ∀ a ∈ attributes, a.Readable) (hopen : HoldsAny openTags)
    (hopened : TagName.opened ⟨tag⟩ openTags = ⟨tag⟩ :: openTags)
    (hchildren : Reads source fuel (⟨tag⟩ :: openTags) (packed children)
      (printEnding tag ++ (printSpaced items ++ rest)))
    (ih : Reads source fuel openTags items rest) :
    Reads source (fuel + 1) openTags ((gap, .element tag attributes children) :: items) rest := by
  intro o c hsource hc
  have hprint : printSpaced ((gap, .element tag attributes children) :: items) ++ rest =
      gap ++ (printOpening tag attributes ++ (printSpaced (packed children) ++
        (printEnding tag ++ (printSpaced items ++ rest)))) := by
    rw [printSpaced_cons, Node.print, htag.notVoid, printSpaced_packed]
    simp
  rw [hprint] at hsource hc
  rw [skipBlanks_append hgap, skipBlanks_printOpening] at hc
  have hopenSource := drop_add_of_drop hsource
  have hchildSource := drop_add_of_drop hopenSource
  have hendSource := drop_add_of_drop hchildSource
  obtain ⟨opening, hopening, hshows, hspan⟩ :=
    opening?_eq_some htag.shaped htag.notRaw hattributes hopenSource
  -- The content of the element, up to its end tag.
  obtain ⟨parts, stop, hcontent, hend, hparts⟩ := hchildren _ _ hchildSource rfl
  rw [skipBlanks_printEnding] at hend
  rw [map_snd_packed] at hparts
  obtain ⟨endParts, hendTag, hfault⟩ := endTag_print htag.shaped .endTag
    (printSpaced items ++ rest)
    (o + gap.length + (printOpening tag attributes).length + (printSpaced (packed children)).length)
  have hclosing : closing (⟨tag⟩ :: openTags) ⟨printEnding tag ++ (printSpaced items ++ rest),
      o + gap.length + (printOpening tag attributes).length +
        (printSpaced (packed children)).length⟩ = .endTag := by
    rw [closing_printEnding htag.shaped, closingAtEndTag, if_pos rfl]
  -- The nodes behind the element.
  obtain ⟨trees, last, hrest, hlast, htrees⟩ := ih _ _ (drop_add_of_drop hendSource) rfl
  have hall := content_opening hc (hopen.closing_printOpening htag.shaped _ _ _) hopening
    hopened hcontent (finishElement_endTag _ _ _ hend hclosing hendTag)
  rw [hrest] at hall
  refine ⟨_, last, hall, ?_, ?_⟩
  . rw [hlast, printSpaced_cons, Node.print, htag.notVoid, printSpaced_packed]
    simp only [List.length_append, Nat.add_assoc, Bool.false_eq_true, if_false]
  . refine Shows.element htag hshows hparts hfault ?_ htrees
    rw [hspan, ← printSpaced_packed]
    exact Span.slice_of_drop hchildSource

theorem plainVoid_of_mem (h : tag ∈ plainVoidNames) :
    TagShaped tag ∧ TagName.isVoid ⟨tag⟩ = true ∧ tag ≠ "script" ∧ tag ≠ "style" := by
  simp only [plainVoidNames, List.mem_cons, List.not_mem_nil, or_false] at h
  obtain rfl | rfl | rfl | rfl := h
  . exact ⟨⟨⟨_, rfl, rfl⟩, by decide⟩, by decide⟩
  . exact ⟨⟨⟨_, rfl, rfl⟩, by decide⟩, by decide⟩
  . exact ⟨⟨⟨_, rfl, rfl⟩, by decide⟩, by decide⟩
  . exact ⟨⟨⟨_, rfl, rfl⟩, by decide⟩, by decide⟩

/--
A void element takes in the nodes up to the next tag, and the nodes from there on follow it.
-/
theorem reads_void {inner outer : List (List Char × Node)}
    (hgap : ∀ x ∈ gap, isAsciiBlank x = true) (htag : tag ∈ plainVoidNames)
    (hattributes : ∀ a ∈ attributes, a.Readable) (hopen : HoldsAny openTags)
    (hopened : TagName.opened ⟨tag⟩ openTags = ⟨tag⟩ :: openTags)
    (hinner : Reads source fuel (⟨tag⟩ :: openTags) inner (printSpaced outer ++ rest))
    (hends : ∀ p, closing (⟨tag⟩ :: openTags) (skipBlanks ⟨printSpaced outer ++ rest, p⟩) =
      .implicit)
    (hflat : ∀ item ∈ inner, item.2.isElement = false)
    (ih : Reads source fuel openTags outer rest) :
    Reads source (fuel + 1) openTags ((gap, .element tag attributes []) :: (inner ++ outer))
      rest := by
  intro o c hsource hc
  obtain ⟨hshaped, hvoid, hraw⟩ := plainVoid_of_mem htag
  have hprint : printSpaced ((gap, .element tag attributes []) :: (inner ++ outer)) ++ rest =
      gap ++ (printOpening tag attributes ++ (printSpaced inner ++
        (printSpaced outer ++ rest))) := by
    rw [printSpaced_cons, Node.print, hvoid, printSpaced_append]
    simp
  rw [hprint] at hsource hc
  rw [skipBlanks_append hgap, skipBlanks_printOpening] at hc
  have hopenSource := drop_add_of_drop hsource
  have hinnerSource := drop_add_of_drop hopenSource
  obtain ⟨opening, hopening, hshows, _⟩ :=
    opening?_eq_some hshaped hraw hattributes hopenSource
  obtain ⟨parts, stop, hcontent, hend, hparts⟩ := hinner _ _ hinnerSource rfl
  obtain ⟨trees, last, hrest, hlast, htrees⟩ :=
    ih _ _ (drop_add_of_drop hinnerSource) (skipBlanks_skipBlanks _)
  have hall := content_opening hc (hopen.closing_printOpening hshaped _ _ _) hopening
    hopened hcontent (finishElement_implicit _ _ _ hend (hends _))
  rw [hrest] at hall
  refine ⟨_, last, hall, ?_, ?_⟩
  . rw [hlast, printSpaced_cons, Node.print, hvoid, printSpaced_append]
    simp only [List.length_append, Nat.add_assoc, if_true, List.append_nil]
  . rw [List.map_cons, List.map_append]
    refine Shows.void htag hshows ?_ hparts htrees
    intro node hnode
    obtain ⟨item, hitem, rfl⟩ := List.mem_map.1 hnode
    exact hflat item hitem

theorem rawTag_shaped (h : tag = "script" ∨ tag = "style") :
    TagShaped tag ∧ TagName.isVoid ⟨tag⟩ = false := by
  obtain rfl | rfl := h
  . exact ⟨⟨⟨_, rfl, rfl⟩, by decide⟩, by decide⟩
  . exact ⟨⟨⟨_, rfl, rfl⟩, by decide⟩, by decide⟩

theorem opening?_eq_none (htag : tag = "script" ∨ tag = "style")
    (hattributes : ∀ a ∈ attributes, a.Readable)
    (hsource : source.drop o = printOpening tag attributes ++ rest) :
    opening? ⟨printOpening tag attributes ++ rest, o⟩ = none := by
  have hshaped := (rawTag_shaped htag).1
  obtain ⟨tree, hstart, _, _⟩ := startTag?_print hshaped hattributes hsource
  rw [opening?_print hshaped, hstart, Option.filter_some, if_neg]
  obtain rfl | rfl := htag
  . simp
  . simp

theorem closedElement_raw {body : String} (htag : tag = "script" ∨ tag = "style")
    (hattributes : ∀ a ∈ attributes, a.Readable) (hbody : RawText body)
    (hopened : TagName.opened ⟨tag⟩ openTags = ⟨tag⟩ :: openTags)
    (hsource : source.drop o =
      printOpening tag attributes ++ (body.toList ++ (printEnding tag ++ rest))) :
    ∃ tree, closedElement openTags
        ⟨printOpening tag attributes ++ (body.toList ++ (printEnding tag ++ rest)), o⟩ =
          (tree, ⟨rest, o + (printOpening tag attributes ++ (body.toList ++
            printEnding tag)).length⟩) ∧
      ∀ trees nodes, Shows source trees nodes →
        Shows source (tree :: trees) (.element tag attributes [.text body] :: nodes) := by
  have hshaped := (rawTag_shaped htag).1
  obtain ⟨opening, hstart, hshows, _⟩ := startTag?_print hshaped hattributes hsource
  have hbodySource := drop_add_of_drop hsource
  have hraw := rawTextEnd_print hbody htag rest (o + (printOpening tag attributes).length)
  obtain ⟨endParts, hend, hfault⟩ := endTag_print hshaped .endTag rest
    (o + (printOpening tag attributes).length + body.toList.length)
  have hclosing : closing [⟨tag⟩] ⟨printEnding tag ++ rest,
      o + (printOpening tag attributes).length + body.toList.length⟩ = .endTag := by
    rw [closing_printEnding hshaped, closingAtEndTag, if_pos rfl]
  have hstop : o + (printOpening tag attributes).length + body.toList.length +
      (printEnding tag).length =
        o + (printOpening tag attributes ++ (body.toList ++ printEnding tag)).length := by
    simp only [List.length_append]
    omega
  rw [hstop] at hend
  have hread : closedElement openTags
      ⟨printOpening tag attributes ++ (body.toList ++ (printEnding tag ++ rest)), o⟩ =
        (.node (if tag = "script" then .scriptElement else .styleElement)
          ⟨o, o + (printOpening tag attributes ++ (body.toList ++ printEnding tag)).length⟩
          [opening,
            .node .rawText ⟨o + (printOpening tag attributes).length,
              o + (printOpening tag attributes).length + body.toList.length⟩ [],
            .node .endTag ⟨o + (printOpening tag attributes).length + body.toList.length,
              o + (printOpening tag attributes ++ (body.toList ++ printEnding tag)).length⟩
              endParts],
          ⟨rest, o + (printOpening tag attributes ++ (body.toList ++ printEnding tag)).length⟩) := by
    unfold closedElement
    rw [hstart]
    simp only [Bool.not_false, if_true, rawElement, hopened, List.head?_cons, Option.getD_some,
      hraw, hclosing, hend]
    rfl
  refine ⟨_, hread, ?_⟩
  intro trees nodes htrees
  apply Shows.raw ?_ hshows (Span.slice_of_drop hbodySource) hfault htrees
  obtain rfl | rfl := htag
  . exact Or.inl ⟨rfl, rfl⟩
  . exact Or.inr ⟨rfl, rfl⟩

theorem reads_raw {body : String} {items : List (List Char × Node)}
    (hgap : ∀ x ∈ gap, isAsciiBlank x = true) (htag : tag = "script" ∨ tag = "style")
    (hattributes : ∀ a ∈ attributes, a.Readable) (hbody : RawText body) (hopen : HoldsAny openTags)
    (hopened : TagName.opened ⟨tag⟩ openTags = ⟨tag⟩ :: openTags)
    (ih : Reads source fuel openTags items rest) :
    Reads source (fuel + 1) openTags
      ((gap, .element tag attributes [.text body]) :: items) rest := by
  obtain ⟨hshaped, hvoid⟩ := rawTag_shaped htag
  have hprint : (Node.element tag attributes [.text body]).print =
      printOpening tag attributes ++ (body.toList ++ printEnding tag) := by
    simp [Node.print, printForest, hvoid]
  apply reads_cons_closed hgap ?_ ?_ ih
  . intro y hy
    rw [hprint] at hy
    cases hy
    rfl
  . intro p hp
    rw [hprint]
    rw [hprint] at hp
    simp only [List.append_assoc] at hp ⊢
    refine ⟨hopen.closing_printOpening hshaped _ _ _, opening?_eq_none htag hattributes hp, ?_⟩
    rw [closedNode_printOpening hshaped]
    exact closedElement_raw htag hattributes hbody hopened hp

end Elements

section Spaced

variable {items : List (List Char × Node)}

theorem Readable.of_append {more : List (List Char × Node)} (h : Readable (items ++ more)) :
    Readable items ∧ Readable more := by
  induction items with
  | nil => exact ⟨trivial, h⟩
  | cons item items ih =>
    obtain ⟨hgap, hnode, htext, hmore⟩ := h
    obtain ⟨hitems, hmore⟩ := ih hmore
    refine ⟨⟨hgap, hnode, ?_, hitems⟩, hmore⟩
    intro hisText next hnext
    apply htext hisText next
    change (items ++ more).head? = some next
    rw [List.head?_append, hnext]
    rfl

theorem exists_print_cons {node : Node} (h : node.isText = false) :
    ∃ tail, node.print = '<' :: tail := by
  cases node with
  | element tag attributes children => exact ⟨_, by rw [Node.print, printOpening, List.cons_append]⟩
  | comment text => exact ⟨_, by rw [Node.print, printComment]⟩
  | text text => cases h

theorem endsText_cons (rest : List Char) : EndsText ('<' :: rest) := by
  intro x hx
  cases hx
  rfl

theorem endsText_printEnding (tag : String) (rest : List Char) :
    EndsText (printEnding tag ++ rest) :=
  endsText_cons _

theorem endsText_printSpaced (hitems : Readable items) (hrest : EndsText rest)
    (hhead : ∀ item, items.head? = some item → item.2.isText = false) :
    EndsText (printSpaced items ++ rest) := by
  cases items with
  | nil => exact hrest
  | cons item items =>
    obtain ⟨gap, node⟩ := item
    obtain ⟨tail, htail⟩ := exists_print_cons (hhead _ rfl)
    rw [printSpaced_cons, htail, List.append_assoc]
    unfold EndsText
    rw [List.dropWhile_append_of_pos hitems.1]
    exact endsText_cons _

/--
An element that can be read back starts with a tag.
-/
theorem exists_print_opening {node : Node} (hnode : node.Normal ∨ node.IsRaw)
    (h : node.isElement = true) :
    ∃ tag attributes tail, TagShaped tag ∧ node.print = printOpening tag attributes ++ tail := by
  cases node with
  | comment text => cases h
  | text text => cases h
  | element tag attributes children =>
    refine ⟨tag, attributes, _, ?_, by rw [Node.print]⟩
    obtain hnormal | hraw := hnode
    . rw [Node.Normal] at hnormal
      obtain hplain | ⟨hvoid, _⟩ := hnormal.1
      . exact hplain.shaped
      . exact (plainVoid_of_mem hvoid).1
    . unfold Node.IsRaw at hraw
      split at hraw
      . next heq =>
        cases heq
        exact (rawTag_shaped hraw.1).1
      . exact hraw.elim

/--
Whether every void element that is still open ends in front of `rest`.
-/
def EndsVoid (openTags : List TagName) (rest : List Char) : Prop :=
  ∀ v : TagName, v.isVoid = true →
    ∀ p, closing (v :: openTags) (skipBlanks ⟨rest, p⟩) = .implicit

theorem endsVoid_printEnding {tag : String} (htag : PlainTag tag) (openTags : List TagName)
    (rest : List Char) : EndsVoid (⟨tag⟩ :: openTags) (printEnding tag ++ rest) := by
  intro v hv p
  rw [skipBlanks_printEnding]
  exact closing_void_printEnding htag.shaped hv htag.notVoid _ _ _

theorem endsVoid_printSpaced (hitems : Readable items) (hrest : EndsVoid openTags rest)
    (hhead : ∀ item, items.head? = some item → item.2.isElement = true) :
    EndsVoid openTags (printSpaced items ++ rest) := by
  cases items with
  | nil => exact hrest
  | cons item items =>
    obtain ⟨gap, node⟩ := item
    obtain ⟨tag, attributes, tail, htag, hprint⟩ :=
      exists_print_opening hitems.2.1 (hhead _ rfl)
    intro v hv p
    rw [printSpaced_cons, hprint, List.append_assoc, List.append_assoc, List.append_assoc,
      skipBlanks_append hitems.1, skipBlanks_printOpening, closing_printOpening htag]
    dsimp only
    rw [if_pos hv]

theorem print_length_pos {node : Node} (hnode : node.Normal ∨ node.IsRaw) :
    0 < node.print.length := by
  cases htext : node.isText with
  | false =>
    obtain ⟨tail, htail⟩ := exists_print_cons htext
    rw [htail]
    exact Nat.succ_pos _
  | true =>
    cases node with
    | element tag attributes children => cases htext
    | comment text => cases htext
    | text text =>
      obtain hnormal | hraw := hnode
      . rw [Node.Normal] at hnormal
        rw [Node.print]
        exact List.length_pos_iff.2 hnormal.nonempty
      . exact hraw.elim

theorem isText_of_isElement {node : Node} (h : node.isElement = true) : node.isText = false := by
  cases node with
  | element tag attributes children => rfl
  | comment text => cases h
  | text text => cases h

/--
The nodes in front of the first element, and those from there on.
-/
theorem exists_flat_split (items : List (List Char × Node)) :
    ∃ inner outer, items = inner ++ outer ∧ (∀ item ∈ inner, item.2.isElement = false) ∧
      ∀ item, outer.head? = some item → item.2.isElement = true := by
  refine ⟨items.takeWhile fun item => !item.2.isElement,
    items.dropWhile fun item => !item.2.isElement, List.takeWhile_append_dropWhile.symm, ?_, ?_⟩
  . intro item hitem
    have h := List.all_eq_true.1 List.all_takeWhile item hitem
    rw [Bool.not_eq_true'] at h
    exact h
  . intro item hitem
    have h := List.head?_dropWhile_not (fun item : List Char × Node => !item.2.isElement) items
    rw [hitem] at h
    simpa using h

theorem plain_of_flat {node : Node} (h : node.isElement = false) (room : Nat) :
    node.Plain room := by
  cases node with
  | element tag attributes children => cases h
  | comment text =>
    rw [Node.Plain]
    trivial
  | text text =>
    rw [Node.Plain]
    trivial

theorem plainForest_iff {nodes : List Node} {room : Nat} :
    PlainForest nodes room ↔ ∀ node ∈ nodes, node.Plain room := by
  induction nodes with
  | nil => simp [PlainForest]
  | cons node nodes ih => simp [PlainForest, ih]

theorem plainForest_append {nodes more : List Node} {room : Nat} :
    PlainForest (nodes ++ more) room ↔ PlainForest nodes room ∧ PlainForest more room := by
  simp only [plainForest_iff, List.mem_append, or_imp, forall_and]

theorem plainForest_of_flat (h : ∀ item ∈ items, item.2.isElement = false) (room : Nat) :
    PlainForest (items.map Prod.snd) room := by
  rw [plainForest_iff]
  intro node hnode
  obtain ⟨item, hitem, rfl⟩ := List.mem_map.1 hnode
  exact plain_of_flat (h item hitem) room

/--
Reading gives back what was printed. `hopen` is about the elements among the nodes: they may stand
in the innermost open element, and a void element among them ends before the text behind them.
-/
theorem reads_spaced (hitems : Readable items) {room : Nat}
    (hplain : PlainForest (items.map Prod.snd) room) (hleave : TagName.Leave openTags room)
    (hends : EndsText rest)
    (hstop : ∀ p, closing openTags (skipBlanks ⟨rest, p⟩) ≠ .none_)
    (hopen : (∃ item ∈ items, item.2.isElement = true) →
      HoldsAny openTags ∧ EndsVoid openTags rest)
    (hfuel : (printSpaced items).length < fuel) : Reads source fuel openTags items rest := by
  induction fuel generalizing openTags items rest room with
  | zero => omega
  | succ fuel ih =>
    cases items with
    | nil => exact reads_nil hstop
    | cons item items =>
      obtain ⟨gap, node⟩ := item
      obtain ⟨hgap, hnode, htext, hmore⟩ := hitems
      rw [List.map_cons, PlainForest] at hplain
      obtain ⟨hplainNode, hplainMore⟩ := hplain
      have hpos := print_length_pos hnode
      rw [printSpaced_cons, List.length_append, List.length_append] at hfuel
      have hopenMore : (∃ item ∈ items, item.2.isElement = true) →
          HoldsAny openTags ∧ EndsVoid openTags rest := by
        rintro ⟨item, hitem, helement⟩
        exact hopen ⟨item, List.mem_cons_of_mem _ hitem, helement⟩
      have ihmore : Reads source fuel openTags items rest :=
        ih hmore hplainMore hleave hends hstop hopenMore (by omega)
      cases node with
      | comment text =>
        obtain hnormal | hraw := hnode
        . rw [Node.Normal] at hnormal
          exact reads_comment hgap hnormal ihmore
        . exact hraw.elim
      | text text =>
        obtain hnormal | hraw := hnode
        . rw [Node.Normal] at hnormal
          exact reads_text hgap hnormal (endsText_printSpaced hmore hends (htext rfl)) ihmore
        . exact hraw.elim
      | element tag attributes children =>
        obtain ⟨hholds, hvoid⟩ := hopen ⟨_, List.mem_cons_self, rfl⟩
        rw [Node.Plain] at hplainNode
        obtain ⟨hcomments, hlength, hweight, hplainChildren⟩ := hplainNode
        have hreadable : (∀ a ∈ attributes, a.Normal) → ∀ a ∈ attributes, a.Readable :=
          fun hattributes a ha => ⟨hattributes a ha, hcomments a ha⟩
        have hopened := hleave.opened_eq hlength hweight
        have hinside := hleave.cons hlength hweight
        obtain hnormal | hraw := hnode
        . rw [Node.Normal] at hnormal
          obtain ⟨htag | ⟨htag, rfl⟩, hattributes, hchildren⟩ := hnormal
          . rw [Node.print, htag.notVoid, ← printSpaced_packed] at hfuel
            simp only [Bool.false_eq_true, if_false, List.length_append] at hfuel
            apply reads_element hgap htag (hreadable hattributes) hholds hopened ?_ ihmore
            rw [← map_snd_packed children] at hplainChildren
            apply ih (readable_packed hchildren) hplainChildren hinside (endsText_printEnding _ _)
            . intro p
              rw [skipBlanks_printEnding, closing_printEnding htag.shaped, closingAtEndTag,
                if_pos rfl]
              exact Closing.noConfusion
            . intro _
              exact ⟨htag.holdsAny openTags, endsVoid_printEnding htag _ _⟩
            . have hpos : 0 < (printOpening tag attributes).length := Nat.succ_pos _
              omega
          -- A void element takes in the flat nodes behind it, up to the next element.
          . obtain ⟨inner, outer, rfl, hflat, hhead⟩ := exists_flat_split items
            obtain ⟨hinner, houter⟩ := hmore.of_append
            rw [List.map_append, plainForest_append] at hplainMore
            rw [printSpaced_append, List.length_append] at hfuel
            have hendsVoid := endsVoid_printSpaced houter hvoid hhead
            apply reads_void hgap htag (hreadable hattributes) hholds hopened
            . apply ih hinner (plainForest_of_flat hflat _) hinside
              . apply endsText_printSpaced houter hends
                intro item hitem
                exact isText_of_isElement (hhead item hitem)
              . intro p
                rw [hendsVoid _ (plainVoid_of_mem htag).2.1]
                exact Closing.noConfusion
              . rintro ⟨item, hitem, helement⟩
                rw [hflat item hitem] at helement
                cases helement
              . omega
            . exact hendsVoid _ (plainVoid_of_mem htag).2.1
            . exact hflat
            . apply ih houter hplainMore.2 hleave hends hstop
              . rintro ⟨item, hitem, helement⟩
                exact hopenMore ⟨item, List.mem_append_right _ hitem, helement⟩
              . omega
        . unfold Node.IsRaw at hraw
          split at hraw
          . next heq =>
            cases heq
            exact reads_raw hgap hraw.1 (hreadable hraw.2.1) hraw.2.2 hholds hopened ihmore
          . exact hraw.elim

end Spaced

end ComponentDoc.Markup
