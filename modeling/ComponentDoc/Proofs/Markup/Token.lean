import ComponentDoc.Markup.Document
import ComponentDoc.Proofs.Cursor
import ComponentDoc.Proofs.Markup.Print
import ComponentDoc.Proofs.Text.Ascii

/-!
Reading printed comments, texts and raw texts: each ends where it was printed to end.
-/

namespace ComponentDoc.Markup

open Text

variable {rest : List Char} {o : Nat}

/--
A comment that does not hold its own end runs up to the end that is printed behind it; `dashes`
are the dashes in front of what is left.
-/
theorem commentLength_print {body : List Char} {dashes : Nat}
    (h : ¬ ['-', '-', '>'] <:+: List.replicate dashes '-' ++ body) (rest : List Char) :
    commentLength dashes (body ++ '-' :: '-' :: '>' :: rest) = some (body.length + 3) := by
  induction body generalizing dashes with
  | nil => simp [commentLength]
  | cons x body ih =>
    have hsuffix : ¬ ['-', '-', '>'] <:+: List.replicate 0 '-' ++ body := by
      intro hfound
      apply h
      rw [List.replicate_zero, List.nil_append] at hfound
      exact hfound.trans ((List.suffix_cons x body).isInfix.trans
        (List.suffix_append _ _).isInfix)
    by_cases hdash : x = '-'
    . subst hdash
      have hnext : ¬ ['-', '-', '>'] <:+: List.replicate (dashes + 1) '-' ++ body := by
        rw [List.replicate_succ', List.append_assoc]
        exact h
      rw [List.cons_append, commentLength, ih hnext]
      rfl
    . by_cases hend : x = '>'
      . subst hend
        have hfew : ¬ dashes ≥ 2 := by
          intro hmany
          apply h
          obtain ⟨k, rfl⟩ : ∃ k, dashes = k + 2 := ⟨dashes - 2, by omega⟩
          refine ⟨List.replicate k '-', body, ?_⟩
          simp [List.replicate_succ']
        rw [List.cons_append, commentLength, if_neg hfew, ih hsuffix]
        rfl
      . rw [List.cons_append, commentLength, ih hsuffix]
        . rfl
        . exact hdash
        . exact hend

theorem comment?_print {text : String} (h : NormalComment text) (rest : List Char) (o : Nat) :
    comment? ⟨printComment text ++ rest, o⟩ = some ⟨rest, o + (printComment text).length⟩ := by
  have hlength : commentLength 0 (text.toList ++ ['-', '-', '>'] ++ rest) =
      some (text.toList.length + 3) := by
    rw [List.append_assoc]
    apply commentLength_print
    exact h.noEnd
  have hprint : (printComment text).length = text.toList.length + 3 + 4 := by
    simp [printComment]
  rw [← Cursor.advance_append (printComment text) rest o, hprint]
  simp only [comment?, printComment, List.cons_append, hlength, Option.map_some]

/--
What ends a text: blanks, and then a tag, a comment or the end.
-/
def EndsText (rest : List Char) : Prop :=
  ∀ x, (rest.dropWhile isAsciiBlank).head? = some x → x = '<'

theorem EndsText.takeWhile_eq (h : EndsText rest) :
    rest.takeWhile isTextChar = rest.takeWhile isAsciiBlank := by
  conv => lhs; rw [← @List.takeWhile_append_dropWhile _ isAsciiBlank rest]
  apply Cursor.takeWhile_append_of_head
  . intro x hx
    have hblank := List.all_eq_true.1 List.all_takeWhile x hx
    simp only [isAsciiBlank, Bool.or_eq_true, Bool.and_eq_true, decide_eq_true_eq,
      beq_iff_eq] at hblank
    simp only [isTextChar, Bool.not_eq_true', Bool.or_eq_false_iff, decide_eq_false_iff_not]
    refine ⟨⟨?_, ?_⟩, ?_⟩
    . rintro rfl
      simp at hblank
    . rintro rfl
      simp at hblank
    . rintro rfl
      simp at hblank
  . intro x hx
    rw [h x hx]
    rfl

theorem textLength_print {text : String} (htext : NormalText text) (hrest : EndsText rest)
    (o : Nat) : textLength ⟨text.toList ++ rest, o⟩ = text.toList.length := by
  unfold textLength dropEndWhile
  dsimp only
  rw [List.takeWhile_append_of_pos htext.chars, hrest.takeWhile_eq, List.reverse_append,
    List.dropWhile_append_of_pos, List.length_reverse]
  . cases hlast : text.toList.reverse with
    | nil =>
      rw [List.reverse_eq_nil_iff.1 hlast]
      rfl
    | cons x before =>
      have hx : isAsciiBlank x = false := by
        apply htext.last
        rw [← List.head?_reverse, hlast]
        rfl
      rw [List.dropWhile_cons_of_neg (by simp [hx]), ← hlast, List.length_reverse]
  . intro x hx
    exact List.all_eq_true.1 List.all_takeWhile x (List.mem_reverse.1 hx)

section Head

variable {x : Char}

theorem closing_of_head (hx : x ≠ '<') (openTags : List TagName) (rest : List Char) (o : Nat) :
    closing openTags ⟨x :: rest, o⟩ = .none_ := by
  unfold closing
  dsimp only
  split
  . next heq => cases heq
  . next heq =>
    cases heq
    exact absurd rfl hx
  . next heq =>
    cases heq
    exact absurd rfl hx
  . next heq =>
    cases heq
    exact absurd rfl hx
  . rfl

theorem opening?_of_head (hx : x ≠ '<') (rest : List Char) (o : Nat) :
    opening? ⟨x :: rest, o⟩ = none := by
  unfold opening?
  dsimp only
  split
  . next heq =>
    cases heq
    exact absurd rfl hx
  . rfl

theorem closedNode_of_head (hx : isTextChar x = true) (openTags : List TagName)
    (rest : List Char) (o : Nat) :
    closedNode openTags ⟨x :: rest, o⟩ =
      (leaf .text ⟨x :: rest, o⟩ ((⟨x :: rest, o⟩ : Cursor).advance (textLength ⟨x :: rest, o⟩)),
        (⟨x :: rest, o⟩ : Cursor).advance (textLength ⟨x :: rest, o⟩)) := by
  unfold closedNode
  dsimp only
  split
  . next heq =>
    cases heq
    cases hx
  . next heq =>
    cases heq
    cases hx
  . next heq =>
    cases heq
    cases hx
  . next heq =>
    cases heq
    cases hx
  . next heq =>
    cases heq
    cases hx
  . rfl

end Head

theorem closedNode_text {text : String} (htext : NormalText text) (hrest : EndsText rest)
    (openTags : List TagName) (o : Nat) :
    closedNode openTags ⟨text.toList ++ rest, o⟩ =
      (.node .text ⟨o, o + text.toList.length⟩ [], ⟨rest, o + text.toList.length⟩) := by
  have hadvance : (⟨text.toList ++ rest, o⟩ : Cursor).advance
      (textLength ⟨text.toList ++ rest, o⟩) = ⟨rest, o + text.toList.length⟩ := by
    rw [textLength_print htext hrest]
    exact Cursor.advance_append _ _ _
  cases hchars : text.toList with
  | nil => exact absurd hchars htext.nonempty
  | cons x tail =>
    have hx : isTextChar x = true := by
      apply htext.chars
      rw [hchars]
      exact List.mem_cons_self
    rw [hchars] at hadvance
    rw [List.cons_append] at hadvance ⊢
    rw [closedNode_of_head hx, hadvance]
    rfl

theorem closedNode_comment {text : String} (htext : NormalComment text)
    (openTags : List TagName) (rest : List Char) (o : Nat) :
    closedNode openTags ⟨printComment text ++ rest, o⟩ =
      (.node .comment ⟨o, o + (printComment text).length⟩ [],
        ⟨rest, o + (printComment text).length⟩) := by
  have hcomment := comment?_print htext rest o
  unfold printComment at hcomment
  rw [printComment, List.cons_append, List.cons_append, closedNode]
  rw [List.cons_append, List.cons_append] at hcomment
  dsimp only
  rw [hcomment]
  rfl

/--
A raw text that can be told from the end tag behind it.
-/
structure RawText (text : String) : Prop where
  noEnd : ¬ ['<', '/'] <:+: text.toList
  last : text.toList.getLast? ≠ some '<'
  noNul : ¬ HasNul text

/--
Only a letter changes when it is put in upper case, and only into a letter.
-/
theorem toUpper_eq_iff {c d : Char} (hupper : d.isUpper = false) (hlower : d.isLower = false) :
    c.toUpper = d ↔ c = d := by
  constructor
  . intro h
    unfold Char.toUpper at h
    split at h
    . next hc =>
      have hrange : 97 ≤ c.toNat ∧ c.toNat ≤ 122 := hc
      have hstep : ('A'.val - 'a'.val).toNat = 4294967264 := by
        decide
      have hd : d.toNat = (c.val + ('A'.val - 'a'.val)).toNat := by
        rw [← h]
        rfl
      rw [UInt32.toNat_add, hstep, Char.toNat_val] at hd
      have hletter : d.isUpper = true := isUpper_iff.2 (by omega)
      rw [hletter] at hupper
      cases hupper
    . exact h
  . rintro rfl
    unfold Char.toUpper
    rw [dif_neg]
    intro hc
    rw [isLower_iff.2 hc] at hlower
    cases hlower

/--
Reading a raw text, from a place where no part of the delimiter stands before what is left and
from one where its first character does.
-/
theorem rawTextLength_body {delimiter body : List Char}
    (hdelimiter : ∃ more, delimiter = '<' :: '/' :: more)
    (hnoEnd : ¬ ['<', '/'] <:+: body) (hlast : body.getLast? ≠ some '<') (rest : List Char) :
    rawTextLength delimiter delimiter 0 (body ++ rest) =
        body.length + rawTextLength delimiter delimiter 0 rest ∧
      (body ≠ [] → body.head? ≠ some '/' →
        rawTextLength delimiter delimiter.tail 1 (body ++ rest) =
          1 + (body.length + rawTextLength delimiter delimiter 0 rest)) := by
  obtain ⟨more, rfl⟩ := hdelimiter
  induction body with
  | nil => simp
  | cons x body ih =>
    have hsuffix : ¬ ['<', '/'] <:+: body := by
      intro hfound
      exact hnoEnd (hfound.trans (List.suffix_cons x body).isInfix)
    have hlast' : body.getLast? ≠ some '<' := by
      cases body with
      | nil => simp
      | cons y body =>
        rw [List.getLast?_cons_cons] at hlast
        exact hlast
    obtain ⟨ihfresh, ihseen⟩ := ih hsuffix hlast'
    constructor
    . by_cases hx : x = '<'
      . subst hx
        have hnonempty : body ≠ [] := by
          rintro rfl
          exact hlast rfl
        have hhead : body.head? ≠ some '/' := by
          intro hhead
          cases body with
          | nil => cases hhead
          | cons y body =>
            cases hhead
            exact hnoEnd ⟨[], body, rfl⟩
        have hstep : rawTextLength ('<' :: '/' :: more) ('<' :: '/' :: more) 0
            ('<' :: (body ++ rest)) =
              rawTextLength ('<' :: '/' :: more) ('/' :: more) 1 (body ++ rest) := by
          rw [rawTextLength]
          rfl
        rw [List.cons_append, hstep]
        have h := ihseen hnonempty hhead
        rw [List.tail_cons] at h
        rw [h, List.length_cons]
        omega
      . have hne : ¬ x.toUpper = '<' := by
          rw [toUpper_eq_iff rfl rfl]
          exact hx
        rw [List.cons_append, rawTextLength, if_neg hne, ihfresh, List.length_cons]
        omega
    . intro _ hhead
      have hne : ¬ x.toUpper = '/' := by
        rw [toUpper_eq_iff rfl rfl]
        rintro rfl
        exact hhead rfl
      rw [List.tail_cons, List.cons_append, rawTextLength, if_neg hne, ihfresh, List.length_cons]
      omega

theorem rawTextLength_delimiter (delimiter : List Char) {word : List Char} (hword : word ≠ [])
    (seen : Nat) (rest : List Char) :
    rawTextLength delimiter (word.map Char.toUpper) seen (word ++ rest) = 0 := by
  induction word generalizing seen with
  | nil => exact absurd rfl hword
  | cons x word ih =>
    rw [List.map_cons, List.cons_append, rawTextLength, if_pos rfl]
    cases word with
    | nil => rfl
    | cons y word => exact ih (List.cons_ne_nil y word) (seen + 1)

theorem rawTextEnd_print {text tag : String} (htext : RawText text)
    (htag : tag = "script" ∨ tag = "style") (rest : List Char) (o : Nat) :
    rawTextEnd ⟨tag⟩ ⟨text.toList ++ (printEnding tag ++ rest), o⟩ =
      ⟨printEnding tag ++ rest, o + text.toList.length⟩ := by
  have hdelimiter : '<' :: '/' :: tag.toList.map Char.toUpper =
      ('<' :: '/' :: tag.toList).map Char.toUpper := rfl
  have hending : printEnding tag ++ rest = ('<' :: '/' :: tag.toList) ++ ('>' :: rest) := by
    simp [printEnding]
  have hnone : rawTextLength ('<' :: '/' :: tag.toList.map Char.toUpper)
      ('<' :: '/' :: tag.toList.map Char.toUpper) 0 (printEnding tag ++ rest) = 0 := by
    rw [hending, hdelimiter]
    exact rawTextLength_delimiter _ (List.cons_ne_nil _ _) 0 _
  have hlength := (rawTextLength_body ⟨tag.toList.map Char.toUpper, rfl⟩ htext.noEnd htext.last
    (printEnding tag ++ rest)).1
  have hname : (if tag = "script" then "script" else "style") = tag := by
    obtain rfl | rfl := htag
    . rfl
    . rfl
  rw [hnone] at hlength
  unfold rawTextEnd
  dsimp only
  rw [hname, hlength]
  exact Cursor.advance_append _ _ _

end ComponentDoc.Markup
