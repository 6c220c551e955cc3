import ComponentDoc.Markup.Template
import ComponentDoc.Proofs.Markup.Content
import ComponentDoc.Proofs.Pass

/-!
Reading a printed document gives back its nodes, without a fault and so without a note. The one
text that is lost is a byte order mark in front of everything else.
-/

namespace ComponentDoc.Markup

open Text

theorem repair_eq_self (source : List Char) {nodes : List Tree} (h : openCountForest nodes = 0) :
    repair source nodes = nodes := by
  cases hnodes : nodes.reverse with
  | nil =>
    rw [List.reverse_eq_nil_iff] at hnodes
    subst hnodes
    rfl
  | cons last before =>
    have hsplit : nodes = before.reverse ++ [last] := by
      rw [← List.reverse_reverse nodes, hnodes, List.reverse_cons]
    have hlast : openCount last = 0 := by
      rw [hsplit, openCountForest_append] at h
      simp only [openCountForest] at h
      split at h
      . omega
      . omega
    unfold repair
    rw [hnodes]
    dsimp only
    rw [if_pos hlast]

theorem endsText_of_blank {blanks : List Char} (h : ∀ x ∈ blanks, isAsciiBlank x = true) :
    EndsText blanks := by
  have hnone := @List.dropWhile_append_of_pos _ isAsciiBlank blanks [] h
  rw [List.append_nil] at hnone
  intro x hx
  rw [hnone] at hx
  cases hx

theorem skipBlanks_of_blank {blanks : List Char} (h : ∀ x ∈ blanks, isAsciiBlank x = true)
    (o : Nat) : skipBlanks ⟨blanks, o⟩ = ⟨[], o + blanks.length⟩ := by
  have hskip := @skipBlanks_append [] blanks h o
  rw [List.append_nil] at hskip
  exact hskip

/--
The document of printed nodes, with blanks behind the last of them.
-/
theorem parseDocument_printSpaced {items : List (List Char × Node)} (hitems : Readable items)
    (hplain : PlainForest (items.map Prod.snd) TagName.nameRoom) {blanks : List Char}
    (hblanks : ∀ x ∈ blanks, isAsciiBlank x = true)
    (hmark : ∀ x, (printSpaced items ++ blanks).head? = some x → isByteOrderMark x = false) :
    ∃ span trees, parseDocument (printSpaced items ++ blanks) = .node .document span trees ∧
      Shows (printSpaced items ++ blanks) trees (items.map Prod.snd) := by
  have hreads : Reads (printSpaced items ++ blanks) ((printSpaced items ++ blanks).length + 1) []
      items blanks := by
    apply reads_spaced hitems hplain TagName.leave_nil (endsText_of_blank hblanks)
    . intro p
      rw [skipBlanks_of_blank hblanks]
      exact Closing.noConfusion
    . intro _
      constructor
      . intro top htop
        cases htop
      . intro v hv p
        rw [skipBlanks_of_blank hblanks]
        simp [closing, TagName.endsWithText, hv]
    . rw [List.length_append]
      omega
  obtain ⟨trees, stop, hcontent, _, hshows⟩ := hreads 0 ⟨_, 0⟩ rfl rfl
  have hfirst : ((printSpaced items ++ blanks).head?.map isByteOrderMark).getD false = false := by
    cases hhead : (printSpaced items ++ blanks).head? with
    | none => rfl
    | some x => exact hmark x hhead
  refine ⟨⟨0, stop.offset⟩, trees, ?_, hshows⟩
  unfold parseDocument
  dsimp only
  rw [hfirst, if_neg Bool.false_ne_true, Cursor.ofSource, hcontent]
  dsimp only
  rw [repair_eq_self _ hshows.openCountForest_eq]

/--
Parsing a template undoes printing it, whatever the options are and whatever was noted before.
-/
theorem parseTemplate_printForest {nodes : List Node} (hnodes : NormalForest nodes)
    (hplain : PlainForest nodes TagName.nameRoom)
    (hmark : ∀ x, (printForest nodes).head? = some x → isByteOrderMark x = false)
    (options : Options) (log : List Problem) :
    (parseTemplate (String.ofList (printForest nodes))).exec options log = (.ok nodes, log) := by
  have hprint : printForest nodes = printSpaced (packed nodes) ++ [] := by
    rw [List.append_nil, printSpaced_packed]
  rw [hprint] at hmark ⊢
  rw [← map_snd_packed nodes] at hplain
  obtain ⟨span, trees, hparse, hshows⟩ :=
    parseDocument_printSpaced (readable_packed hnodes) hplain (by simp) hmark
  rw [map_snd_packed] at hshows
  unfold parseTemplate
  rw [String.toList_ofList]
  dsimp only
  rw [hparse, SyntaxTree.firstFault, hshows.firstFaultForest_eq]
  dsimp only [SyntaxTree.children]
  rw [hshows.lowerForest_eq]
  rfl

theorem NormalText.of_ends {text : String} {x y : Char}
    (hchars : ∀ c ∈ text.toList, isTextChar c = true) (hnul : ¬ HasNul text)
    (hhead : text.toList.head? = some x) (hlast : text.toList.getLast? = some y)
    (hx : isAsciiBlank x = false) (hy : isAsciiBlank y = false) : NormalText text := by
  refine ⟨?_, hchars, hnul, ?_, ?_⟩
  . intro hnil
    rw [hnil] at hhead
    cases hhead
  . intro c hc
    cases hhead.symm.trans hc
    exact hx
  . intro c hc
    cases hlast.symm.trans hc
    exact hy

theorem NormalComment.of_length {text : String} (hlength : text.toList.length < 3)
    (hnul : ¬ HasNul text) : NormalComment text := by
  refine ⟨?_, hnul⟩
  intro h
  exact absurd h.length_le (Nat.not_le.2 hlength)

/--
A void element between texts and comments, at the end of an element. Behind its first character a
value may hold what starts a comment.
-/
theorem parseTemplate_printForest_void :
    (parseTemplate "<div a=\"v<!--\" b>x<br><!--c-->y</div>").exec { strict := true } [] =
      (.ok [.element "div" [⟨"a", some "v<!--"⟩, ⟨"b", none⟩]
        [.text "x", .element "br" [] [], .comment "c", .text "y"]], []) := by
  apply @parseTemplate_printForest [.element "div" [⟨"a", some "v<!--"⟩, ⟨"b", none⟩]
    [.text "x", .element "br" [] [], .comment "c", .text "y"]]
  . have hdiv : PlainTag "div" := ⟨⟨⟨_, rfl, rfl⟩, by decide⟩, by decide, by decide, by decide⟩
    have hx : NormalText "x" := .of_ends (by decide) (by decide) rfl rfl rfl rfl
    have hy : NormalText "y" := .of_ends (by decide) (by decide) rfl rfl rfl rfl
    have hc : NormalComment "c" := .of_length (by decide) (by decide)
    have ha : Attribute.Normal ⟨"a", some "v<!--"⟩ := ⟨by decide, by decide, by decide, by decide⟩
    have hb : Attribute.Normal ⟨"b", none⟩ := ⟨by decide, by decide, by decide, by decide⟩
    simp [NormalForest, Node.Normal, Node.isText, plainVoidNames, hdiv, hx, hy, hc, ha, hb]
  . have hv : ¬ StartsComment "v<!--" := by decide
    have hweight : TagName.weight ⟨"div"⟩ < TagName.nameRoom ∧
        TagName.weight ⟨"br"⟩ < TagName.nameRoom - TagName.weight ⟨"div"⟩ := by decide
    have hlength : "div".length ≤ TagName.keptLength ∧ "br".length ≤ TagName.keptLength := by decide
    simp [PlainForest, Node.Plain, hv, hweight, hlength]
  . intro x hx
    cases hx
    rfl

/--
Normal forests that do not come back: a byte order mark is lost in front of a document, and a value
that looks like a comment is taken for one.
-/
theorem parseTemplate_loses_normal :
    (NormalForest [.text "\uFEFFa"] ∧
      (parseTemplate (String.ofList (printForest [.text "\uFEFFa"]))).exec {} [] =
        (.ok [.text "a"], [])) ∧
    NormalForest [.element "div" [⟨"a", some "<!--b-->"⟩] []] ∧
      (parseTemplate (String.ofList (printForest
        [.element "div" [⟨"a", some "<!--b-->"⟩] []]))).exec {} [] =
          (.ok [.element "div" [⟨"a", some ""⟩] []], []) := by
  have htext : NormalText "\uFEFFa" := .of_ends (by decide) (by decide) rfl rfl rfl rfl
  have hdiv : PlainTag "div" := ⟨⟨⟨_, rfl, rfl⟩, by decide⟩, by decide, by decide, by decide⟩
  have hvalue : Attribute.Normal ⟨"a", some "<!--b-->"⟩ :=
    ⟨by decide, by decide, by decide, by decide⟩
  refine ⟨⟨?_, by decide +kernel⟩, ?_, by decide +kernel⟩
  . simp [NormalForest, Node.Normal, htext]
  . simp [NormalForest, Node.Normal, Node.isText, hdiv, hvalue]

end ComponentDoc.Markup
