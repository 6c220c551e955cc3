import Mathlib.Data.List.DropRight
import ComponentDoc.Proofs.Extract.Description
import ComponentDoc.Proofs.Text.Lines

/-!
Decorated block comments. Each line of the content may stand behind stars, blanks may stand around
it, lines without content may stand between, and a line may end in either way. Whatever of this was
chosen, the description is the content with its lines joined by single spaces.
-/

namespace ComponentDoc

open Text
open Script (Comment)

/--
How a line of a comment may be written: a line of content behind stars and one blank, a line of
content that starts with no star as it is, or a line without content.
-/
inductive DecoratedLine : List Char → Option String → Prop where
  | starred {indent tail : List Char} (stars : Nat) {gap : Char} (line : String)
    (hindent : ∀ c ∈ indent, isBlank c = true) (hgap : isBlank gap = true)
    (htail : ∀ c ∈ tail, isBlank c = true) :
    DecoratedLine (indent ++ List.replicate (stars + 1) '*' ++ gap :: line.toList ++ tail)
      (some line)
  | plain {indent tail : List Char} (line : String) (hindent : ∀ c ∈ indent, isBlank c = true)
    (hline : line.toList.head? ≠ some '*') (htail : ∀ c ∈ tail, isBlank c = true) :
    DecoratedLine (indent ++ line.toList ++ tail) (some line)
  | filler {indent tail : List Char} (stars : Nat) (hindent : ∀ c ∈ indent, isBlank c = true)
    (htail : ∀ c ∈ tail, isBlank c = true) :
    DecoratedLine (indent ++ List.replicate stars '*' ++ tail) none

/--
How the body of a comment with given lines of content may be written.
-/
inductive Decorated : List Char → List String → Prop where
  | last {written : List Char} {line : Option String} (h : DecoratedLine written line)
    (hwritten : '\n' ∉ written) : Decorated written line.toList
  | cons {written ending rest : List Char} {line : Option String} {lines : List String}
    (h : DecoratedLine written line) (hwritten : '\n' ∉ written)
    (hending : ending = ['\n'] ∨ ending = ['\r', '\n']) (hrest : Decorated rest lines) :
    Decorated (written ++ ending ++ rest) (line.toList ++ lines)

section Lines

variable {cs indent tail written : List Char} {c : Char} {line : Option String}

theorem trimChars_append_blank (hc : isBlank c = true) : trimChars (cs ++ [c]) = trimChars cs := by
  obtain ⟨before, after, hbefore, hafter, hcs⟩ := exists_blank_split cs
  have hafter' : ∀ x ∈ after ++ [c], isBlank x = true := by
    rw [List.forall_mem_append]
    exact ⟨hafter, List.forall_mem_singleton.2 hc⟩
  have htrim := trimChars_of_blank_split hbefore (trimmed_trimChars cs) hafter'
  rwa [← List.append_assoc, ← hcs] at htrim

theorem trimChars_of_blank (h : ∀ c ∈ cs, isBlank c = true) : trimChars cs = [] := by
  have htrim := trimChars_of_blank_split h trimmed_nil (List.forall_mem_nil _)
  rwa [List.append_nil, List.append_nil] at htrim

theorem trimChars_dropWhile (cs : List Char) : trimChars (cs.dropWhile isBlank) = trimChars cs := by
  unfold trimChars
  rw [List.dropWhile_idempotent]

/--
The blank behind the stars need not be told from those that are trimmed.
-/
theorem commentLine_eq (cs : List Char) :
    commentLine cs = trimChars ((cs.dropWhile isBlank).dropWhile (· == '*')) := by
  unfold commentLine dropStars
  split
  . next rest hstar =>
    rw [hstar, List.dropWhile_cons_of_pos rfl]
    cases rest.dropWhile (· == '*') with
    | nil => rfl
    | cons c more =>
      dsimp only
      split
      . next hc =>
        rw [← trimChars_dropWhile (c :: more), List.dropWhile_cons_of_pos hc, trimChars_dropWhile]
      . rfl
  . next hstar =>
    rw [← trimChars_dropWhile cs]
    congr 1
    symm
    apply dropWhile_eq_self_of_head?
    intro c hc
    obtain ⟨rest, hrest⟩ := List.head?_eq_some_iff.1 hc
    rw [beq_eq_false_iff_ne]
    rintro rfl
    exact hstar rest hrest

theorem beq_star_of_isBlank (hc : isBlank c = true) : (c == '*') = false := by
  rw [beq_eq_false_iff_ne]
  rintro rfl
  exact absurd hc (by decide)

/--
A blank at the end of a line makes no difference.
-/
theorem commentLine_append_blank (hc : isBlank c = true) :
    commentLine (cs ++ [c]) = commentLine cs := by
  rw [commentLine_eq, commentLine_eq, List.dropWhile_append]
  split
  . next hnil =>
    rw [List.dropWhile_cons_of_pos hc, List.isEmpty_iff.1 hnil]
    rfl
  . rw [List.dropWhile_append]
    split
    . next hnil =>
      have hstar : [c].dropWhile (· == '*') = [c] := by
        rw [List.dropWhile_cons_of_neg]
        simp [beq_star_of_isBlank hc]
      rw [hstar, List.isEmpty_iff.1 hnil]
      exact @trimChars_append_blank [] c hc
    . exact trimChars_append_blank hc

theorem commentLine_dropCarriageReturn (cs : List Char) :
    commentLine (dropCarriageReturn cs) = commentLine cs := by
  cases dropCarriageReturn_eq_or cs with
  | inl h => rw [h]
  | inr h =>
    conv_rhs => rw [h]
    rw [commentLine_append_blank (by decide)]

theorem dropWhile_blank_stars (stars : Nat) (cs : List Char) :
    (List.replicate (stars + 1) '*' ++ cs).dropWhile isBlank =
      List.replicate (stars + 1) '*' ++ cs := by
  rw [List.replicate_succ]
  rfl

theorem dropWhile_star_stars (stars : Nat)
    (hcs : ∀ c, cs.head? = some c → (c == '*') = false) :
    (List.replicate stars '*' ++ cs).dropWhile (· == '*') = cs := by
  rw [List.dropWhile_append_of_pos]
  . exact dropWhile_eq_self_of_head? hcs
  . intro c hc
    rw [List.eq_of_mem_replicate hc]
    rfl

theorem DecoratedLine.commentLine_eq (h : DecoratedLine written line)
    (hline : ∀ content ∈ line, Presentable content) :
    commentLine written = (line.map String.toList).getD [] := by
  rw [ComponentDoc.commentLine_eq]
  cases h with
  | @starred indent tail stars gap line hindent hgap htail =>
    rw [List.append_assoc, List.append_assoc, List.dropWhile_append_of_pos hindent,
      dropWhile_blank_stars, dropWhile_star_stars]
    . exact trimChars_of_blank_split (List.forall_mem_singleton.2 hgap) (hline line rfl).2 htail
    . intro c hc
      cases hc
      exact beq_star_of_isBlank hgap
  | @plain indent tail line hindent hhead htail =>
    obtain ⟨hne, htrimmed⟩ := hline line rfl
    cases hfirst : line.toList with
    | nil => exact absurd (String.toList_eq_nil_iff.1 hfirst) hne
    | cons first more =>
      rw [hfirst] at htrimmed hhead
      have hblank : ¬ isBlank first = true := by
        simp [htrimmed.1 first rfl]
      have hstar : ¬ (first == '*') = true := by
        simpa using hhead
      rw [List.append_assoc, List.dropWhile_append_of_pos hindent, List.cons_append,
        List.dropWhile_cons_of_neg hblank, List.dropWhile_cons_of_neg (p := (· == '*')) hstar,
        ← List.cons_append, Option.map_some, Option.getD_some, hfirst]
      exact trimChars_of_blank_split (List.forall_mem_nil _) htrimmed htail
  | @filler indent tail stars hindent htail =>
    have htail' : ∀ c, tail.head? = some c → (c == '*') = false := by
      intro c hc
      exact beq_star_of_isBlank (htail c (List.mem_of_mem_head? hc))
    rw [List.append_assoc, List.dropWhile_append_of_pos hindent]
    cases stars with
    | zero =>
      rw [List.replicate_zero, List.nil_append, List.dropWhile_eq_nil_iff.2 htail]
      rfl
    | succ stars =>
      rw [dropWhile_blank_stars, dropWhile_star_stars _ htail']
      exact trimChars_of_blank htail

end Lines

section Comments

variable {written cs rest ending : List Char} {line : Option String} {lines : List String}

theorem commentLine_filter (h : DecoratedLine written line)
    (hline : ∀ content ∈ line, Presentable content) :
    [commentLine written].filter (fun cs => !cs.isEmpty) = line.toList.map String.toList := by
  rw [h.commentLine_eq hline]
  cases line with
  | none => rfl
  | some content => simp [(hline content rfl).1]

theorem charLines_ending (hwritten : '\n' ∉ written)
    (hending : ending = ['\n'] ∨ ending = ['\r', '\n']) :
    ∃ shown, charLines (written ++ ending ++ rest) = shown :: charLines rest ∧
      commentLine shown = commentLine written := by
  obtain rfl | rfl := hending
  . refine ⟨dropCarriageReturn written, ?_, commentLine_dropCarriageReturn written⟩
    rw [List.append_assoc]
    exact charLines_append hwritten
  . refine ⟨written, ?_, rfl⟩
    have hwritten' : '\n' ∉ written ++ ['\r'] := by
      simpa using hwritten
    have hlines := @charLines_append _ rest hwritten'
    rw [dropCarriageReturn_append, List.append_assoc] at hlines
    rw [List.append_assoc]
    exact hlines

theorem Decorated.commentLines_eq (h : Decorated cs lines)
    (hlines : ∀ line ∈ lines, Presentable line) :
    ((charLines cs).map commentLine).filter (fun cs => !cs.isEmpty) =
      lines.map String.toList := by
  induction h with
  | @last written line h hwritten =>
    have hline := commentLine_filter h fun content hcontent =>
      hlines content (Option.mem_toList.2 hcontent)
    by_cases hnil : written = []
    . subst hnil
      exact hline
    . rw [charLines_eq_singleton hwritten hnil]
      exact hline
  | @cons written ending rest line lines h hwritten hending hrest ih =>
    rw [List.forall_mem_append] at hlines
    obtain ⟨shown, hshown, heq⟩ := @charLines_ending written rest ending hwritten hending
    have hline := commentLine_filter h fun content hcontent =>
      hlines.1 content (Option.mem_toList.2 hcontent)
    rw [hshown, List.map_cons, heq, ← List.singleton_append, List.filter_append, hline,
      ih hlines.2, List.map_append]

/--
The description in a block comment is its content, the lines joined by single spaces, however the
comment is decorated and whatever comments follow it. A comment without content describes nothing.
-/
theorem description_of_decorated {text : String} (h : Decorated text.toList lines)
    (hlines : ∀ line ∈ lines, Presentable line) :
    cleanComment text true = " ".intercalate lines ∧
      ∀ more, resolveComments (⟨text, true⟩ :: more) =
        if lines = [] then none else some (" ".intercalate lines) := by
  have hclean : cleanComment text true = " ".intercalate lines := by
    unfold cleanComment
    rw [if_pos rfl, h.commentLines_eq hlines, List.map_map]
    simp
  refine ⟨hclean, ?_⟩
  intro more
  unfold resolveComments
  dsimp only
  rw [hclean]
  cases lines with
  | nil => rfl
  | cons line lines =>
    have hne := intercalate_ne_empty (hlines line List.mem_cons_self).1 " " lines
    simp [hne]

/--
Content behind one star, content that starts with a star itself behind two, and content without
stars, below a line without content.
-/
theorem description_of_decorated_mixed :
    ∃ lines, Decorated "*\n * Size.\r\n\t**\u3000* big\n plain\u00a0".toList lines ∧
      (∀ line ∈ lines, Presentable line) ∧
      resolveComments [⟨"*\n * Size.\r\n\t**\u3000* big\n plain\u00a0", true⟩, ⟨"other", false⟩] =
        some "Size. * big plain" := by
  have hplain : DecoratedLine ([' '] ++ "plain".toList ++ ['\u00a0']) (some "plain") :=
    .plain "plain" (by decide) (by decide) (by decide)
  have hbig : DecoratedLine (['\t'] ++ List.replicate 2 '*' ++ '\u3000' :: "* big".toList ++ [])
      (some "* big") :=
    .starred 1 "* big" (by decide) (by decide) (by decide)
  have hsize : DecoratedLine ([' '] ++ List.replicate 1 '*' ++ ' ' :: "Size.".toList ++ [])
      (some "Size.") :=
    .starred 0 "Size." (by decide) (by decide) (by decide)
  have hfiller : DecoratedLine ([] ++ List.replicate 1 '*' ++ []) none :=
    .filler 1 (by decide) (by decide)
  have htext : "*\n * Size.\r\n\t**\u3000* big\n plain\u00a0".toList =
      ([] ++ List.replicate 1 '*' ++ []) ++ ['\n'] ++
        (([' '] ++ List.replicate 1 '*' ++ ' ' :: "Size.".toList ++ []) ++ ['\r', '\n'] ++
          ((['\t'] ++ List.replicate 2 '*' ++ '\u3000' :: "* big".toList ++ []) ++ ['\n'] ++
            ([' '] ++ "plain".toList ++ ['\u00a0']))) := by
    decide
  have hdecorated : Decorated "*\n * Size.\r\n\t**\u3000* big\n plain\u00a0".toList
      ["Size.", "* big", "plain"] := by
    rw [htext]
    exact .cons hfiller (by decide) (.inl rfl) (.cons hsize (by decide) (.inr rfl)
      (.cons hbig (by decide) (.inl rfl) (.last hplain (by decide))))
  have hlines : ∀ line ∈ ["Size.", "* big", "plain"], Presentable line := by
    decide
  refine ⟨_, hdecorated, hlines, ?_⟩
  rw [(description_of_decorated hdecorated hlines).2]
  decide

end Comments

end ComponentDoc
