import ComponentDoc.Markup.Document
import ComponentDoc.Proofs.Cursor
import ComponentDoc.Proofs.Markup.Shape
import ComponentDoc.Proofs.Text.Ascii

/-!
Reading printed tags. Behind each printed part stands a character that cannot belong to it, so
every reader stops where the printed part stops.
-/

namespace ComponentDoc.Markup

open Text

variable {source rest : List Char} {o : Nat}

theorem skipBlanks_of_head (h : ∀ x, rest.head? = some x → isAsciiBlank x = false) :
    skipBlanks ⟨rest, o⟩ = ⟨rest, o⟩ :=
  Cursor.skipWhile_of_head h

theorem skipBlanks_eq (rest : List Char) (o : Nat) :
    skipBlanks ⟨rest, o⟩ =
      ⟨rest.dropWhile isAsciiBlank, o + (rest.takeWhile isAsciiBlank).length⟩ := by
  conv => lhs; rw [← @List.takeWhile_append_dropWhile _ isAsciiBlank rest]
  apply Cursor.skipWhile_append
  . intro x hx
    exact List.all_eq_true.1 List.all_takeWhile x hx
  . intro x hx
    have h := List.head?_dropWhile_not isAsciiBlank rest
    rw [hx] at h
    exact h

theorem skipBlanks_append {gap : List Char} (hgap : ∀ x ∈ gap, isAsciiBlank x = true) (o : Nat) :
    skipBlanks ⟨gap ++ rest, o⟩ = skipBlanks ⟨rest, o + gap.length⟩ := by
  unfold skipBlanks Cursor.skipWhile
  dsimp only
  rw [List.takeWhile_append_of_pos hgap, List.length_append]
  induction gap generalizing o with
  | nil =>
    simp only [List.length_nil, Nat.zero_add, Nat.add_zero]
    rfl
  | cons x gap ih =>
    have hlength : (x :: gap).length + (rest.takeWhile isAsciiBlank).length =
        (gap.length + (rest.takeWhile isAsciiBlank).length) + 1 := by
      simp only [List.length_cons]
      omega
    rw [hlength, List.cons_append, Cursor.advance_cons,
      ih (fun y hy => hgap y (List.mem_cons_of_mem x hy)), List.length_cons]
    congr 2
    omega

theorem comment?_of_head {x : Char} (hx : x ≠ '<') : comment? ⟨x :: rest, o⟩ = none := by
  unfold comment?
  split
  . next heq =>
    simp at heq
    exact absurd heq.1 hx
  . rfl

theorem skipTrivia_of_head {x : Char} (hblank : isAsciiBlank x = false) (hx : x ≠ '<')
    (fuel : Nat) : skipTrivia fuel ⟨x :: rest, o⟩ = ([], ⟨x :: rest, o⟩) := by
  have hskip : skipBlanks ⟨x :: rest, o⟩ = ⟨x :: rest, o⟩ := by
    apply skipBlanks_of_head
    intro y hy
    cases hy
    exact hblank
  cases fuel with
  | zero => rw [skipTrivia, hskip]
  | succ fuel =>
    rw [skipTrivia]
    dsimp only
    rw [hskip, comment?_of_head hx]

theorem skipTrivia_space {x : Char} (hblank : isAsciiBlank x = false) (hx : x ≠ '<')
    (fuel : Nat) : skipTrivia fuel ⟨' ' :: x :: rest, o⟩ = ([], ⟨x :: rest, o + 1⟩) := by
  have hskip : skipBlanks ⟨' ' :: x :: rest, o⟩ = skipBlanks ⟨x :: rest, o + 1⟩ := by
    apply @skipBlanks_append _ [' ']
    intro y hy
    rw [List.mem_singleton.1 hy]
    rfl
  have hstay := @skipTrivia_of_head rest (o + 1) x hblank hx fuel
  cases fuel with
  | zero =>
    rw [skipTrivia] at hstay ⊢
    rw [hskip, hstay]
  | succ fuel =>
    rw [skipTrivia] at hstay ⊢
    dsimp only at hstay ⊢
    rw [hskip, hstay]

theorem isAsciiBlank_of_attributeName {c : Char} (h : isAttributeNameChar c = true) :
    isAsciiBlank c = false := by
  simp only [isAttributeNameChar, Bool.not_eq_true', Bool.or_eq_false_iff] at h
  exact h.2

theorem ne_of_attributeName {c d : Char} (h : isAttributeNameChar c = true)
    (hd : isAttributeNameChar d = false) : c ≠ d := by
  intro heq
  rw [heq, hd] at h
  cases h

/--
What stands behind an attribute: the other attributes and the end of the tag.
-/
def tagRemainder (attributes : List Attribute) (rest : List Char) : List Char :=
  printAttributes attributes ++ '>' :: rest

theorem tagRemainder_cons (a : Attribute) (attributes : List Attribute) (rest : List Char) :
    tagRemainder (a :: attributes) rest = ' ' :: (a.print ++ tagRemainder attributes rest) := by
  unfold tagRemainder printAttributes
  rw [List.flatMap_cons, List.append_assoc]
  rfl

theorem head_tagRemainder (attributes : List Attribute) (rest : List Char) {x : Char}
    (h : (tagRemainder attributes rest).head? = some x) : x = ' ' ∨ x = '>' := by
  cases attributes with
  | nil =>
    cases h
    exact Or.inr rfl
  | cons a attributes =>
    rw [tagRemainder_cons] at h
    cases h
    exact Or.inl rfl

/--
An attribute that can be read back.
-/
structure Attribute.Readable (a : Attribute) : Prop extends a.Normal where
  notComment : ∀ value, a.value = some value → ¬ StartsComment value

theorem Attribute.Normal.exists_cons {a : Attribute} (ha : a.Normal) :
    ∃ x tail, a.name.toList = x :: tail ∧ isAttributeNameChar x = true := by
  cases hname : a.name.toList with
  | nil => exact absurd hname ha.nonempty
  | cons x tail =>
    refine ⟨x, tail, rfl, ha.name x ?_⟩
    rw [hname]
    exact List.mem_cons_self

theorem skipTrivia_attribute {a : Attribute} (ha : a.Readable) (rest : List Char) (o fuel : Nat) :
    skipTrivia fuel ⟨' ' :: (a.print ++ rest), o⟩ = ([], ⟨a.print ++ rest, o + 1⟩) := by
  obtain ⟨x, tail, hname, hx⟩ := ha.exists_cons
  unfold Attribute.print
  rw [hname]
  exact skipTrivia_space (isAsciiBlank_of_attributeName hx) (ne_of_attributeName hx rfl) fuel

/--
No equals sign follows a printed attribute.
-/
theorem skipTrivia_tagRemainder {attributes : List Attribute}
    (hattributes : ∀ a ∈ attributes, a.Readable) (rest : List Char) (o fuel : Nat) :
    ∃ x tail p, (skipTrivia fuel ⟨tagRemainder attributes rest, o⟩).2 = ⟨x :: tail, p⟩ ∧
      x ≠ '=' := by
  cases attributes with
  | nil =>
    refine ⟨'>', rest, o, ?_, by decide⟩
    change (skipTrivia fuel ⟨'>' :: rest, o⟩).2 = _
    rw [skipTrivia_of_head rfl (by decide)]
  | cons a attributes =>
    obtain ⟨x, tail, hname, hx⟩ := (hattributes a List.mem_cons_self).exists_cons
    rw [tagRemainder_cons, skipTrivia_attribute (hattributes a List.mem_cons_self),
      Attribute.print, hname]
    exact ⟨x, _, o + 1, rfl, ne_of_attributeName hx rfl⟩

theorem prefix_of_prefix_append {word text : List Char} {x : Char} (hx : x ∉ word)
    (h : word <+: text ++ x :: rest) : word <+: text := by
  induction text generalizing word with
  | nil =>
    cases word with
    | nil => exact List.prefix_rfl
    | cons y word =>
      rw [List.nil_append, List.cons_prefix_cons] at h
      exact absurd (h.1 ▸ List.mem_cons_self) hx
  | cons z text ih =>
    cases word with
    | nil => exact List.nil_prefix
    | cons y word =>
      rw [List.cons_append, List.cons_prefix_cons] at h
      obtain ⟨rfl, h⟩ := h
      exact List.cons_prefix_cons.2 ⟨rfl, ih (fun hmem => hx (List.mem_cons_of_mem y hmem)) h⟩

theorem comment?_eq_none {text : List Char} (h : ¬ ['<', '!', '-', '-'] <+: text) (o : Nat) :
    comment? ⟨text, o⟩ = none := by
  unfold comment?
  dsimp only
  split
  . next rest =>
    exact absurd ⟨rest, rfl⟩ h
  . rfl

/--
No comment is read in front of a quoted value that does not start with one.
-/
theorem leadingComments_value {value : String} (h : ¬ StartsComment value) (rest : List Char)
    (o fuel : Nat) :
    leadingComments fuel ⟨value.toList ++ '"' :: rest, o⟩ =
      ([], ⟨value.toList ++ '"' :: rest, o⟩) := by
  have hdrop : (value.toList ++ '"' :: rest).dropWhile isAsciiBlank =
      value.toList.dropWhile isAsciiBlank ++ '"' :: rest := by
    rw [List.dropWhile_append]
    split
    . next hempty =>
      rw [List.isEmpty_iff.1 hempty]
      rfl
    . rfl
  cases fuel with
  | zero => rfl
  | succ fuel =>
    rw [leadingComments]
    dsimp only
    rw [skipBlanks_eq, hdrop, comment?_eq_none]
    intro hcomment
    exact h (prefix_of_prefix_append (by decide) hcomment)

theorem attributeValue?_quoted {value : String} (hvalue : '"' ∉ value.toList)
    (hcomment : ¬ StartsComment value) (rest : List Char) (o : Nat) :
    attributeValue? ⟨'"' :: (value.toList ++ '"' :: rest), o⟩ =
      some (.node .quotedValue ⟨o, o + 1 + value.toList.length + 1⟩
        (if o + 1 + value.toList.length = o + 1 then []
          else [.node .attributeValue ⟨o + 1, o + 1 + value.toList.length⟩ []]),
        ⟨rest, o + 1 + value.toList.length + 1⟩) := by
  have hinner : (⟨value.toList ++ '"' :: rest, o + 1⟩ : Cursor).skipWhile (· != '"') =
      ⟨'"' :: rest, o + 1 + value.toList.length⟩ := by
    apply Cursor.skipWhile_append
    . intro x hx
      simp only [bne_iff_ne, ne_eq]
      intro heq
      rw [heq] at hx
      exact hvalue hx
    . intro x hx
      cases hx
      rfl
  simp only [attributeValue?, Cursor.peek?, List.head?_cons, decide_true, Bool.true_or,
    if_true, Cursor.advance_cons, Cursor.advance_zero, leadingComments_value hcomment, hinner,
    Cursor.atEnd, List.isEmpty_cons, Bool.false_eq_true, if_false]
  rfl

theorem attribute?_bare {a : Attribute} (ha : a.Readable) (hvalue : a.value = none)
    {attributes : List Attribute} (hattributes : ∀ b ∈ attributes, b.Readable)
    (hsource : source.drop o = a.print ++ tagRemainder attributes rest) :
    ∃ t, attribute? ⟨a.print ++ tagRemainder attributes rest, o⟩ =
        some ([t], ⟨tagRemainder attributes rest, o + a.print.length⟩) ∧
      ShowsAttribute source t a := by
  have hprint : a.print = a.name.toList := by
    rw [Attribute.print, hvalue]
    exact List.append_nil _
  have hname : (⟨a.name.toList ++ tagRemainder attributes rest, o⟩ : Cursor).skipWhile
      isAttributeNameChar = ⟨tagRemainder attributes rest, o + a.name.toList.length⟩ := by
    apply Cursor.skipWhile_append ha.name
    intro x hx
    obtain rfl | rfl := head_tagRemainder attributes rest hx
    . rfl
    . rfl
  have htext := Span.text_of_drop (hprint ▸ hsource)
  refine ⟨.node .attribute ⟨o, o + a.name.toList.length⟩
    [.node .attributeName ⟨o, o + a.name.toList.length⟩ []], ?_, ?_⟩
  . obtain ⟨x, tail, p, hskip, hx⟩ := skipTrivia_tagRemainder hattributes rest
      (o + a.name.toList.length) (tagRemainder attributes rest).length
    rw [hprint]
    simp only [attribute?, hname, hskip]
    split
    . next heq =>
      cases heq
      exact absurd rfl hx
    . rfl
  . exact ShowsAttribute.bare htext hvalue

theorem attribute?_quoted {a : Attribute} (ha : a.Readable) {value : String}
    (hvalue : a.value = some value)
    (hsource : source.drop o = a.print ++ rest) :
    ∃ t, attribute? ⟨a.print ++ rest, o⟩ = some ([t], ⟨rest, o + a.print.length⟩) ∧
      ShowsAttribute source t a := by
  have hprint : a.print ++ rest =
      a.name.toList ++ ('=' :: ('"' :: (value.toList ++ '"' :: rest))) := by
    rw [Attribute.print, hvalue]
    simp [printValue]
  have hlength : a.print.length = a.name.toList.length + (value.toList.length + 3) := by
    rw [Attribute.print, hvalue]
    simp [printValue]
  have hname : (⟨a.name.toList ++ ('=' :: ('"' :: (value.toList ++ '"' :: rest))), o⟩ :
      Cursor).skipWhile isAttributeNameChar =
        ⟨'=' :: ('"' :: (value.toList ++ '"' :: rest)), o + a.name.toList.length⟩ := by
    apply Cursor.skipWhile_append ha.name
    intro x hx
    cases hx
    rfl
  rw [hprint] at hsource
  have hnameText := Span.text_of_drop hsource
  have hvalueSource : source.drop (o + a.name.toList.length + 1 + 1) =
      value.toList ++ '"' :: rest := by
    have h := drop_add_of_drop hsource
    have h := @drop_add_of_drop source ['='] _ _ h
    exact @drop_add_of_drop source ['"'] _ _ h
  have hvalueText := Span.text_of_drop hvalueSource
  have hread : attribute? ⟨a.print ++ rest, o⟩ =
      some ([.node .attribute ⟨o, o + a.print.length⟩
        [.node .attributeName ⟨o, o + a.name.toList.length⟩ [],
          .node .quotedValue ⟨o + a.name.toList.length + 1, o + a.print.length⟩
            (if o + a.name.toList.length + 1 + 1 + value.toList.length =
                o + a.name.toList.length + 1 + 1 then []
              else [.node .attributeValue ⟨o + a.name.toList.length + 1 + 1,
                o + a.name.toList.length + 1 + 1 + value.toList.length⟩ []])]],
        ⟨rest, o + a.print.length⟩) := by
    have hstop : o + a.name.toList.length + 1 + 1 + value.toList.length + 1 =
        o + a.print.length := by
      omega
    rw [hprint]
    simp only [attribute?, hname]
    rw [skipTrivia_of_head rfl (by decide)]
    simp only [Cursor.advance_cons, Cursor.advance_zero]
    rw [skipTrivia_of_head rfl (by decide), attributeValue?_quoted (ha.value value hvalue)
      (ha.notComment value hvalue), hstop]
    rfl
  refine ⟨_, hread, ?_⟩
  split
  . next hlength =>
    have hempty : value = "" := by
      rw [← String.toList_eq_nil_iff]
      apply List.eq_nil_of_length_eq_zero
      omega
    exact ShowsAttribute.empty hnameText (hempty ▸ hvalue)
  . refine ShowsAttribute.quoted hnameText ?_
    rw [hvalueText]
    exact hvalue

theorem attribute?_print {a : Attribute} (ha : a.Readable) {attributes : List Attribute}
    (hattributes : ∀ b ∈ attributes, b.Readable)
    (hsource : source.drop o = a.print ++ tagRemainder attributes rest) :
    ∃ t, attribute? ⟨a.print ++ tagRemainder attributes rest, o⟩ =
        some ([t], ⟨tagRemainder attributes rest, o + a.print.length⟩) ∧
      ShowsAttribute source t a := by
  cases hvalue : a.value with
  | none => exact attribute?_bare ha hvalue hattributes hsource
  | some value => exact attribute?_quoted ha hvalue hsource

theorem tagRest_attribute {x : Char} {tail : List Char} {c : Cursor} {p fuel : Nat}
    (hskip : skipTrivia c.rest.length c = ([], ⟨x :: tail, p⟩))
    (hx : isAttributeNameChar x = true) {t : Tree} {d : Cursor}
    (hread : attribute? ⟨x :: tail, p⟩ = some ([t], d)) :
    tagRest (fuel + 1) c = (tagRest fuel d).map fun (more, stop, f) => (t :: more, stop, f) := by
  have hend : x ≠ '>' := ne_of_attributeName hx rfl
  have hslash : x ≠ '/' := ne_of_attributeName hx rfl
  have hangle : x ≠ '<' := ne_of_attributeName hx rfl
  rw [tagRest, hskip]
  simp only [hread]
  split
  . next heq => cases heq
  . next heq =>
    cases heq
    exact absurd rfl hend
  . next heq =>
    cases heq
    exact absurd rfl hslash
  . next heq =>
    cases heq
    exact absurd rfl hangle
  . next heq =>
    cases heq
    rw [if_pos hx]
    rfl

theorem tagRest_print {attributes : List Attribute} (hattributes : ∀ a ∈ attributes, a.Readable)
    {fuel : Nat} (hfuel : attributes.length < fuel)
    (hsource : source.drop o = tagRemainder attributes rest) :
    ∃ parts, tagRest fuel ⟨tagRemainder attributes rest, o⟩ =
        some (parts, .open_, ⟨rest, o + (printAttributes attributes).length + 1⟩) ∧
      ShowsAttributes source parts attributes := by
  induction attributes generalizing o fuel with
  | nil =>
    cases fuel with
    | zero => cases hfuel
    | succ fuel =>
      refine ⟨[], ?_, ShowsAttributes.nil⟩
      change tagRest (fuel + 1) ⟨'>' :: rest, o⟩ = _
      rw [tagRest, skipTrivia_of_head rfl (by decide)]
      rfl
  | cons a attributes ih =>
    cases fuel with
    | zero => cases hfuel
    | succ fuel =>
      have ha := hattributes a List.mem_cons_self
      have hothers : ∀ b ∈ attributes, b.Readable :=
        fun b hb => hattributes b (List.mem_cons_of_mem a hb)
      rw [tagRemainder_cons] at hsource ⊢
      have hsource' := @drop_add_of_drop source [' '] _ _ hsource
      obtain ⟨t, hread, ht⟩ := attribute?_print ha hothers hsource'
      obtain ⟨parts, hrest, hparts⟩ := ih hothers (Nat.lt_of_succ_lt_succ hfuel)
        (drop_add_of_drop hsource')
      obtain ⟨x, tail, hname, hx⟩ := ha.exists_cons
      have hskip := skipTrivia_attribute ha (tagRemainder attributes rest) o
        (' ' :: (a.print ++ tagRemainder attributes rest)).length
      refine ⟨t :: parts, ?_, ShowsAttributes.cons ht hparts⟩
      simp only [List.length_singleton] at hread hrest
      have hcons : a.print = x :: (tail ++ printValue a.value) := by
        rw [Attribute.print, hname]
        rfl
      rw [hcons] at hread hskip hrest ⊢
      rw [tagRest_attribute hskip hx hread, hrest]
      simp only [Option.map_some, printAttributes, List.flatMap_cons, hcons, List.length_append,
        List.length_cons]
      congr 4
      omega

section TagNames

variable {tag : String}

theorem TagShaped.exists_cons (h : TagShaped tag) :
    ∃ x tail, tag.toList = x :: tail ∧ x.isLower = true := by
  obtain ⟨⟨x, hhead, hx⟩, _⟩ := h
  cases hname : tag.toList with
  | nil =>
    rw [hname] at hhead
    cases hhead
  | cons y tail =>
    rw [hname] at hhead
    cases hhead
    exact ⟨x, tail, rfl, hx⟩

theorem isTagNameChar_of_shaped {c : Char} (h : (c.isLower || c.isDigit || c = '-') = true) :
    isTagNameChar c = true := by
  unfold isTagNameChar
  simp only [Bool.or_eq_true, isAlphanum_iff, isAlpha_iff] at h ⊢
  obtain (h | h) | h := h
  . exact Or.inl (Or.inl (Or.inl (Or.inr h)))
  . exact Or.inl (Or.inl (Or.inr h))
  . exact Or.inl (Or.inr h)

theorem toLower_of_shaped {c : Char} (h : (c.isLower || c.isDigit || c = '-') = true) :
    c.toLower = c := by
  have hupper : ¬ (65 ≤ c.toNat ∧ c.toNat ≤ 90) := by
    simp only [Bool.or_eq_true, isLower_iff, isDigit_iff, decide_eq_true_eq] at h
    obtain (h | h) | rfl := h
    . omega
    . omega
    . decide
  exact dif_neg hupper

theorem TagShaped.ofChars_eq (h : TagShaped tag) : TagName.ofChars tag.toList = ⟨tag⟩ := by
  have hmap : tag.toList.map Char.toLower = tag.toList := by
    conv => rhs; rw [← List.map_id tag.toList]
    apply List.map_congr_left
    intro c hc
    exact toLower_of_shaped (h.2 c hc)
  rw [TagName.ofChars, hmap, String.ofList_toList]

theorem TagShaped.tagNameChars_eq (h : TagShaped tag)
    (hrest : ∀ x, rest.head? = some x → isTagNameChar x = false) (o : Nat) :
    tagNameChars ⟨tag.toList ++ rest, o⟩ = tag.toList := by
  apply Cursor.takeWhile_append_of_head
  . intro c hc
    exact isTagNameChar_of_shaped (h.2 c hc)
  . exact hrest

theorem isAsciiBlank_of_isLower {c : Char} (h : c.isLower = true) : isAsciiBlank c = false := by
  have hmin := (isLower_iff.1 h).1
  simp only [isAsciiBlank, Bool.or_eq_false_iff, Bool.and_eq_false_iff, decide_eq_false_iff_not,
    beq_eq_false_iff_ne]
  omega

theorem ne_of_isLower {c d : Char} (h : c.isLower = true) (hd : d.isLower = false) : c ≠ d := by
  intro heq
  rw [heq, hd] at h
  cases h

theorem TagShaped.skipTrivia_eq (h : TagShaped tag) (rest : List Char) (o fuel : Nat) :
    skipTrivia fuel ⟨tag.toList ++ rest, o⟩ = ([], ⟨tag.toList ++ rest, o⟩) := by
  obtain ⟨x, tail, hname, hx⟩ := h.exists_cons
  rw [hname]
  exact skipTrivia_of_head (isAsciiBlank_of_isLower hx) (ne_of_isLower hx rfl) fuel

theorem TagShaped.isEmpty_eq (h : TagShaped tag) : tag.toList.isEmpty = false := by
  obtain ⟨x, tail, hname, _⟩ := h.exists_cons
  rw [hname]
  rfl

theorem length_le_length_printAttributes (attributes : List Attribute) :
    attributes.length ≤ (printAttributes attributes).length := by
  induction attributes with
  | nil => simp
  | cons a attributes ih =>
    simp only [printAttributes, List.flatMap_cons, List.length_append, List.length_cons] at ih ⊢
    omega

theorem startTag?_print (htag : TagShaped tag) {attributes : List Attribute}
    (hattributes : ∀ a ∈ attributes, a.Readable)
    (hsource : source.drop o = printOpening tag attributes ++ rest) :
    ∃ t, startTag? ⟨printOpening tag attributes ++ rest, o⟩ =
        some ⟨⟨tag⟩, t, false, ⟨rest, o + (printOpening tag attributes).length⟩⟩ ∧
      ShowsOpening source t tag attributes ∧
      t.span = ⟨o, o + (printOpening tag attributes).length⟩ := by
  have hprint : printOpening tag attributes ++ rest =
      '<' :: (tag.toList ++ tagRemainder attributes rest) := by
    simp [printOpening, tagRemainder]
  have hlength : (printOpening tag attributes).length =
      1 + tag.toList.length + (printAttributes attributes).length + 1 := by
    simp only [printOpening, List.length_cons, List.length_append, List.length_nil]
    omega
  rw [hprint] at hsource
  have hnameSource : source.drop (o + 1) = tag.toList ++ tagRemainder attributes rest :=
    @drop_add_of_drop source ['<'] _ _ hsource
  have hremainder := drop_add_of_drop hnameSource
  have hchars : tagNameChars ⟨tag.toList ++ tagRemainder attributes rest, o + 1⟩ = tag.toList := by
    apply htag.tagNameChars_eq
    intro x hx
    obtain rfl | rfl := head_tagRemainder attributes rest hx
    . rfl
    . rfl
  have hfuel : attributes.length < (tagRemainder attributes rest).length + 1 := by
    have h := length_le_length_printAttributes attributes
    simp only [tagRemainder, List.length_append]
    omega
  obtain ⟨parts, hparts, hshows⟩ := tagRest_print hattributes hfuel hremainder
  have hstop : o + 1 + tag.toList.length + (printAttributes attributes).length + 1 =
      o + (printOpening tag attributes).length := by
    omega
  rw [hstop] at hparts
  have hname := Span.text_of_drop hnameSource
  refine ⟨.node .startTag ⟨o, o + (printOpening tag attributes).length⟩
    (.node .tagName ⟨o + 1, o + 1 + tag.toList.length⟩ [] :: parts), ?_, ?_, rfl⟩
  . rw [hprint]
    simp only [startTag?, Cursor.advance_cons, Cursor.advance_zero, htag.skipTrivia_eq, hchars,
      htag.isEmpty_eq, Bool.false_eq_true, if_false, Cursor.advance_append, hparts,
      Option.map_some, htag.ofChars_eq]
    rfl
  . have h := ShowsOpening.intro ⟨o, o + (printOpening tag attributes).length⟩
      ⟨o + 1, o + 1 + tag.toList.length⟩ hshows
    rw [hname] at h
    exact h

theorem endTag_print (htag : TagShaped tag) (kind : Kind) (rest : List Char) (o : Nat) :
    ∃ parts, endTag kind ⟨printEnding tag ++ rest, o⟩ =
        (.node kind ⟨o, o + (printEnding tag).length⟩ parts,
          ⟨rest, o + (printEnding tag).length⟩) ∧
      SyntaxTree.firstFaultForest parts = none := by
  have hprint : printEnding tag ++ rest = '<' :: '/' :: (tag.toList ++ '>' :: rest) := by
    simp [printEnding]
  have hlength : (printEnding tag).length = tag.toList.length + 3 := by
    simp [printEnding]
  have hchars : tagNameChars ⟨tag.toList ++ '>' :: rest, o + 2⟩ = tag.toList := by
    apply htag.tagNameChars_eq
    intro x hx
    cases hx
    rfl
  have hend : endTagRest ((('>' : Char) :: rest).length + 1)
      ⟨'>' :: rest, o + 2 + tag.toList.length⟩ =
        ([], ⟨rest, o + 2 + tag.toList.length + 1⟩) := by
    rw [endTagRest, skipTrivia_of_head rfl (by decide)]
    rfl
  refine ⟨[.node .tagName ⟨o + 2, o + 2 + tag.toList.length⟩ []], ?_, rfl⟩
  rw [hprint]
  simp only [endTag, Cursor.advance_cons, Cursor.advance_zero, Nat.add_assoc, Nat.reduceAdd,
    htag.skipTrivia_eq]
  simp only [hchars, Cursor.advance_append, hend, hlength]
  simp only [leaf, Nat.add_assoc, Nat.add_comm 2]
  rfl

theorem closing_printEnding (htag : TagShaped tag) (openTags : List TagName) (rest : List Char)
    (o : Nat) :
    closing openTags ⟨printEnding tag ++ rest, o⟩ = closingAtEndTag openTags ⟨tag⟩ := by
  have hprint : printEnding tag ++ rest = '<' :: '/' :: (tag.toList ++ '>' :: rest) := by
    simp [printEnding]
  have hchars : tagNameChars ⟨tag.toList ++ '>' :: rest, o + 1 + 1⟩ = tag.toList := by
    apply htag.tagNameChars_eq
    intro x hx
    cases hx
    rfl
  rw [hprint]
  simp only [closing, Cursor.advance_cons, Cursor.advance_zero, hchars, htag.isEmpty_eq,
    Bool.false_eq_true, if_false, htag.ofChars_eq]

theorem closing_printOpening (htag : TagShaped tag) (openTags : List TagName)
    (attributes : List Attribute) (rest : List Char) (o : Nat) :
    closing openTags ⟨printOpening tag attributes ++ rest, o⟩ =
      match openTags with
      | [] => .none_
      | top :: _ =>
        if top.isVoid then .implicit
        else if top.canContain ⟨tag⟩ then .none_
        else .implicit := by
  have hprint : printOpening tag attributes ++ rest =
      '<' :: (tag.toList ++ tagRemainder attributes rest) := by
    simp [printOpening, tagRemainder]
  have hchars : tagNameChars ⟨tag.toList ++ tagRemainder attributes rest, o + 1⟩ = tag.toList := by
    apply htag.tagNameChars_eq
    intro x hx
    obtain rfl | rfl := head_tagRemainder attributes rest hx
    . rfl
    . rfl
  obtain ⟨x, tail, hname, hx⟩ := htag.exists_cons
  have hbang : x ≠ '!' := ne_of_isLower hx rfl
  have hslash : x ≠ '/' := ne_of_isLower hx rfl
  rw [hprint]
  unfold closing
  dsimp only
  split
  . next heq => cases heq
  . next heq =>
    rw [hname] at heq
    cases heq
    exact absurd rfl hbang
  . next heq =>
    rw [hname] at heq
    cases heq
    exact absurd rfl hslash
  . cases openTags with
    | nil => rfl
    | cons top openTags =>
      simp only [Cursor.advance_cons, Cursor.advance_zero, hchars, htag.isEmpty_eq,
        Bool.false_eq_true, if_false, htag.ofChars_eq]
  . next h => exact absurd rfl (h _)

theorem sameKind_self (t : TagName) : t.sameKind t = true := by
  unfold TagName.sameKind
  rw [decide_eq_true rfl, Bool.true_or]

/--
An end tag ends the void element in front of it and then the element that it names.
-/
theorem closing_void_printEnding (htag : TagShaped tag) {v : TagName}
    (hv : v.isVoid = true) (hvoid : TagName.isVoid ⟨tag⟩ = false) (openTags : List TagName)
    (rest : List Char) (o : Nat) :
    closing (v :: ⟨tag⟩ :: openTags) ⟨printEnding tag ++ rest, o⟩ = .implicit := by
  have hne : v ≠ ⟨tag⟩ := by
    intro heq
    rw [heq, hvoid] at hv
    cases hv
  rw [closing_printEnding htag, closingAtEndTag, if_neg hne, if_pos]
  rw [List.any_cons, List.any_cons, sameKind_self]
  simp

/--
An element that starts may stand in an innermost element with no rule of its own.
-/
def HoldsAny (openTags : List TagName) : Prop :=
  ∀ top, openTags.head? = some top → top.isVoid = false ∧ ∀ child, top.canContain child = true

theorem PlainTag.holdsAny (h : PlainTag tag) (openTags : List TagName) :
    HoldsAny (⟨tag⟩ :: openTags) := by
  intro top htop
  cases htop
  refine ⟨h.notVoid, ?_⟩
  have hnot := h.notOptional
  simp only [optionalEndNames, List.mem_cons, List.not_mem_nil, or_false, not_or] at hnot
  have hexcluded : TagName.excludedNames ⟨tag⟩ = [] := by
    simp only [TagName.excludedNames]
    split <;> simp_all
  intro child
  simp [TagName.canContain, hexcluded, hnot]

theorem HoldsAny.closing_printOpening {openTags : List TagName} (h : HoldsAny openTags)
    (htag : TagShaped tag) (attributes : List Attribute) (rest : List Char) (o : Nat) :
    closing openTags ⟨printOpening tag attributes ++ rest, o⟩ = .none_ := by
  rw [Markup.closing_printOpening htag]
  cases openTags with
  | nil => rfl
  | cons top openTags =>
    obtain ⟨hvoid, hcontain⟩ := h top rfl
    simp [hvoid, hcontain]

end TagNames

end ComponentDoc.Markup
