import ComponentDoc.Text.Blank

/-!
Trimmed texts, whose first and last characters are not blank. Trimming makes a text trimmed and
leaves a trimmed text alone.
-/

namespace ComponentDoc.Text

/--
Whether a text neither begins nor ends with a blank character.
-/
def Trimmed (cs : List Char) : Prop :=
  (∀ c, cs.head? = some c → isBlank c = false) ∧ (∀ c, cs.getLast? = some c → isBlank c = false)

instance : DecidablePred Trimmed := fun cs =>
  decidable_of_iff
    (cs.head?.all (fun c => !isBlank c) = true ∧ cs.getLast?.all (fun c => !isBlank c) = true)
    (by simp [Trimmed, Option.all_eq_true])

variable {cs : List Char}

theorem isBlank_of_head?_dropWhile {c : Char} (h : (cs.dropWhile isBlank).head? = some c) :
    isBlank c = false := by
  have hnot := List.head?_dropWhile_not isBlank cs
  rw [h] at hnot
  exact hnot

theorem dropEndWhile_prefix (p : Char → Bool) (cs : List Char) : dropEndWhile p cs <+: cs := by
  unfold dropEndWhile
  rw [← List.reverse_suffix, List.reverse_reverse]
  exact List.dropWhile_suffix p

theorem trimmed_trimChars (cs : List Char) : Trimmed (trimChars cs) := by
  unfold trimChars
  constructor
  . intro c hc
    -- Dropping blanks at the end leaves a prefix, which starts as the text did.
    obtain ⟨rest, hrest⟩ := dropEndWhile_prefix isBlank (cs.dropWhile isBlank)
    apply @isBlank_of_head?_dropWhile cs
    rw [← hrest, List.head?_append, hc]
    rfl
  . intro c hc
    unfold dropEndWhile at hc
    rw [List.getLast?_reverse] at hc
    exact isBlank_of_head?_dropWhile hc

theorem dropWhile_eq_self_of_head? {p : Char → Bool}
    (h : ∀ c, cs.head? = some c → p c = false) : cs.dropWhile p = cs := by
  cases cs with
  | nil => rfl
  | cons c rest =>
    rw [List.dropWhile_cons_of_neg]
    simp [h c rfl]

theorem trimmed_nil : Trimmed [] := by
  constructor
  . intro c h
    cases h
  . intro c h
    cases h

theorem exists_blank_split (cs : List Char) :
    ∃ before after, (∀ c ∈ before, isBlank c = true) ∧ (∀ c ∈ after, isBlank c = true) ∧
      cs = before ++ trimChars cs ++ after := by
  refine ⟨cs.takeWhile isBlank, ((cs.dropWhile isBlank).reverse.takeWhile isBlank).reverse,
    ?_, ?_, ?_⟩
  . intro c hc
    exact List.all_eq_true.1 List.all_takeWhile c hc
  . intro c hc
    exact List.all_eq_true.1 List.all_takeWhile c (List.mem_reverse.1 hc)
  . unfold trimChars dropEndWhile
    rw [List.append_assoc, ← List.reverse_append, List.takeWhile_append_dropWhile,
      List.reverse_reverse, List.takeWhile_append_dropWhile]

/--
Blanks around a trimmed text are exactly what trimming drops.
-/
theorem trimChars_of_blank_split {before mid after : List Char}
    (hbefore : ∀ c ∈ before, isBlank c = true) (hmid : Trimmed mid)
    (hafter : ∀ c ∈ after, isBlank c = true) : trimChars (before ++ mid ++ after) = mid := by
  unfold trimChars dropEndWhile
  rw [List.append_assoc, List.dropWhile_append_of_pos hbefore]
  by_cases h : mid = []
  . subst h
    rw [List.nil_append, ← List.append_nil after, List.dropWhile_append_of_pos hafter]
    rfl
  . have hstart : (mid ++ after).dropWhile isBlank = mid ++ after := by
      apply dropWhile_eq_self_of_head?
      intro c hc
      apply hmid.1
      rw [List.head?_append, List.head?_eq_some_head h] at hc
      rw [List.head?_eq_some_head h]
      exact hc
    have hafter' : ∀ c ∈ after.reverse, isBlank c = true := by
      intro c hc
      exact hafter c (List.mem_reverse.1 hc)
    rw [hstart, List.reverse_append, List.dropWhile_append_of_pos hafter',
      dropWhile_eq_self_of_head?, List.reverse_reverse]
    intro c hc
    apply hmid.2
    rw [← List.head?_reverse]
    exact hc

/--
A text that begins with a trimmed word and ends with one is trimmed.
-/
theorem trimmed_append {first last : List Char} (hfirst : Trimmed first) (hlast : Trimmed last)
    (hfirst' : first ≠ []) (hlast' : last ≠ []) (mid : List Char) :
    Trimmed (first ++ mid ++ last) := by
  constructor
  . intro c hc
    apply hfirst.1
    rw [List.append_assoc, List.head?_append, List.head?_eq_some_head hfirst'] at hc
    rw [List.head?_eq_some_head hfirst']
    exact hc
  . intro c hc
    apply hlast.2
    rw [List.getLast?_append, List.getLast?_eq_some_getLast hlast'] at hc
    rw [List.getLast?_eq_some_getLast hlast']
    exact hc

theorem trimmed_intercalate {separator : List Char} {words : List (List Char)}
    (hwords : ∀ word ∈ words, word ≠ [] ∧ Trimmed word) :
    Trimmed (separator.intercalate words) ∧ (words ≠ [] → separator.intercalate words ≠ []) := by
  induction words with
  | nil => exact ⟨trimmed_nil, fun h => absurd rfl h⟩
  | cons word words ih =>
    obtain ⟨hne, hword⟩ := hwords word List.mem_cons_self
    cases words with
    | nil =>
      rw [List.intercalate_singleton]
      exact ⟨hword, fun _ => hne⟩
    | cons next words =>
      obtain ⟨htrimmed, hne'⟩ := ih (fun w hw => hwords w (List.mem_cons_of_mem _ hw))
      rw [List.intercalate_cons_cons]
      refine ⟨trimmed_append hword htrimmed hne (hne' (List.cons_ne_nil _ _)) separator, ?_⟩
      intro _
      simp [hne]

end ComponentDoc.Text
