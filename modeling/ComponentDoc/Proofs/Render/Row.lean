import ComponentDoc.Render.Markdown
import ComponentDoc.Text.Lines
import ComponentDoc.Proofs.Text.Trim

/-!
Reading a line of a Markdown table back. A line is split at the bars that no backslash precedes;
the pieces between the outermost bars are trimmed and lose the backslashes in front of bars. What
is read this way are the cells that were written, trimmed and with `<br>` for line endings.
-/

namespace ComponentDoc.Markdown

open Text

/--
Split a line at each bar that no backslash precedes; `escaped` tells whether a backslash precedes
the line.
-/
def splitBars (escaped : Bool) : List Char → List (List Char)
  | [] => [[]]
  | c :: rest =>
    if c = '|' ∧ escaped = false then
      [] :: splitBars false rest
    else
      (splitBars (c == '\\') rest).modifyHead (c :: ·)

/--
Drop the backslash in front of every bar.
-/
def unescapeBars : List Char → List Char
  | [] => []
  | '\\' :: '|' :: rest => '|' :: unescapeBars rest
  | c :: rest => c :: unescapeBars rest

/--
The cells of a line of a table, if it begins and ends with a bar.
-/
def readRow (line : List Char) : Option (List String) :=
  match splitBars false line with
  | [] :: pieces =>
    if pieces.getLast? = some [] then
      some (pieces.dropLast.map fun piece => String.ofList (unescapeBars (trimChars piece)))
    else
      none
  | _ => none

/--
The text that a cell shows: trimmed, its lines joined by `<br>`.
-/
def cellText (text : String) : String :=
  String.ofList
    (['<', 'b', 'r', '>'].intercalate
      (((trimChars text.toList).splitOn '\n').map dropCarriageReturn))

section Escape

variable {c : Char} {cs : List Char}

theorem escapeBars_cons (h : c ≠ '|') (cs : List Char) :
    escapeBars (c :: cs) = c :: escapeBars cs := by
  rw [escapeBars]
  exact h

theorem escapeBars_append (cs ds : List Char) :
    escapeBars (cs ++ ds) = escapeBars cs ++ escapeBars ds := by
  induction cs with
  | nil => rfl
  | cons c cs ih =>
    by_cases h : c = '|'
    . subst h
      simp [escapeBars, ih]
    . rw [List.cons_append, escapeBars_cons h, escapeBars_cons h, ih, List.cons_append]

theorem escapeBars_of_not_mem (h : '|' ∉ cs) : escapeBars cs = cs := by
  induction cs with
  | nil => rfl
  | cons c cs ih =>
    rw [List.mem_cons, not_or] at h
    rw [escapeBars_cons (Ne.symm h.1), ih h.2]

theorem mem_escapeBars (h : c ∈ escapeBars cs) : c = '\\' ∨ c ∈ cs := by
  induction cs with
  | nil => cases h
  | cons d cs ih =>
    by_cases hd : d = '|'
    . subst hd
      simp only [escapeBars, List.mem_cons] at h ⊢
      grind
    . rw [escapeBars_cons hd] at h
      simp only [List.mem_cons] at h ⊢
      grind

theorem head?_escapeBars_eq_lineFeed (h : (escapeBars cs).head? = some '\n') :
    cs.head? = some '\n' := by
  cases cs with
  | nil => cases h
  | cons d cs =>
    by_cases hd : d = '|'
    . subst hd
      simp [escapeBars] at h
    . rw [escapeBars_cons hd] at h
      exact h

theorem getLast?_escapeBars (cs : List Char) : (escapeBars cs).getLast? = cs.getLast? := by
  induction cs with
  | nil => rfl
  | cons d cs ih =>
    by_cases hd : d = '|'
    . subst hd
      simp [escapeBars, List.getLast?_cons, ih]
    . rw [escapeBars_cons hd, List.getLast?_cons, List.getLast?_cons, ih]

theorem trimmed_escapeBars (h : Trimmed cs) : Trimmed (escapeBars cs) := by
  constructor
  . intro c hc
    cases cs with
    | nil => cases hc
    | cons d cs =>
      by_cases hd : d = '|'
      . subst hd
        simp only [escapeBars, List.head?_cons, Option.some.injEq] at hc
        subst hc
        decide
      . rw [escapeBars_cons hd] at hc
        exact h.1 c hc
  . intro c hc
    rw [getLast?_escapeBars] at hc
    exact h.2 c hc

theorem trimChars_escapeBars (cs : List Char) :
    trimChars (escapeBars cs) = escapeBars (trimChars cs) := by
  obtain ⟨before, after, hbefore, hafter, hcs⟩ := exists_blank_split cs
  have hblank : ∀ blanks : List Char, (∀ c ∈ blanks, isBlank c = true) → '|' ∉ blanks := by
    intro blanks h hmem
    exact absurd (h '|' hmem) (by decide)
  have hescape : escapeBars cs = before ++ escapeBars (trimChars cs) ++ after := by
    conv => lhs; rw [hcs]
    rw [escapeBars_append, escapeBars_append, escapeBars_of_not_mem (hblank before hbefore),
      escapeBars_of_not_mem (hblank after hafter)]
  rw [hescape]
  exact trimChars_of_blank_split hbefore (trimmed_escapeBars (trimmed_trimChars cs)) hafter

theorem unescapeBars_cons (h : c = '\\' → cs.head? ≠ some '|') :
    unescapeBars (c :: cs) = c :: unescapeBars cs := by
  rw [unescapeBars]
  intro rest hc hcs
  apply h hc
  rw [hcs]
  rfl

theorem head?_escapeBars_ne_bar (cs : List Char) : (escapeBars cs).head? ≠ some '|' := by
  cases cs with
  | nil => simp [escapeBars]
  | cons d cs =>
    by_cases hd : d = '|'
    . subst hd
      simp [escapeBars]
    . rw [escapeBars_cons hd]
      simpa using hd

theorem unescapeBars_escapeBars (cs : List Char) : unescapeBars (escapeBars cs) = cs := by
  induction cs with
  | nil => rfl
  | cons c cs ih =>
    by_cases h : c = '|'
    . subst h
      rw [escapeBars, unescapeBars, ih]
    . -- A backslash of the text itself is never in front of a bar that stands alone.
      rw [escapeBars_cons h, unescapeBars_cons, ih]
      intro _
      exact head?_escapeBars_ne_bar cs

theorem splitBars_escapeBars (escaped : Bool) (cs rest : List Char) :
    splitBars escaped (escapeBars cs ++ ' ' :: rest) =
      (splitBars false rest).modifyHead (fun piece => escapeBars cs ++ ' ' :: piece) := by
  induction cs generalizing escaped with
  | nil =>
    rw [escapeBars, List.nil_append, splitBars, if_neg (by simp)]
    rfl
  | cons c cs ih =>
    by_cases h : c = '|'
    . subst h
      rw [escapeBars, List.cons_append, List.cons_append, splitBars, if_neg (by simp), splitBars,
        if_neg (by simp), ih, List.modifyHead_modifyHead, List.modifyHead_modifyHead]
      rfl
    . rw [escapeBars_cons h, List.cons_append, splitBars, if_neg (by simp [h]), ih,
        List.modifyHead_modifyHead]
      rfl

end Escape

section Break

variable {c : Char} {cs : List Char}

theorem breakLines_cons (hc : c ≠ '\n') (hcs : c = '\r' → cs.head? ≠ some '\n') :
    breakLines (c :: cs) = c :: breakLines cs := by
  rw [breakLines]
  . intro rest hr hrest
    apply hcs hr
    rw [hrest]
    rfl
  . exact hc

theorem breakLines_escapeBars (cs : List Char) :
    breakLines (escapeBars cs) = escapeBars (breakLines cs) := by
  fun_induction breakLines cs with
  | case1 => rfl
  | case2 rest ih =>
    rw [escapeBars_cons (by decide), escapeBars_cons (by decide), breakLines, ih]
    simp [escapeBars]
  | case3 rest ih =>
    rw [escapeBars_cons (by decide), breakLines, ih]
    simp [escapeBars]
  | case4 c rest hcrlf hlf ih =>
    by_cases h : c = '|'
    . subst h
      rw [escapeBars, breakLines_cons (by decide) (by simp),
        breakLines_cons (by decide) (by simp), ih, escapeBars]
    . rw [escapeBars_cons h, escapeBars_cons h, breakLines_cons hlf, ih]
      intro hc hhead
      obtain ⟨more, hmore⟩ := List.head?_eq_some_iff.1 (head?_escapeBars_eq_lineFeed hhead)
      exact hcrlf more hc hmore

theorem lineFeed_not_mem_breakLines (cs : List Char) : '\n' ∉ breakLines cs := by
  fun_induction breakLines cs with
  | case1 => simp
  | case2 rest ih => simp [ih]
  | case3 rest ih => simp [ih]
  | case4 c rest hcrlf hlf ih =>
    rw [List.mem_cons, not_or]
    exact ⟨fun h => hlf h.symm, ih⟩

theorem getLast?_breakLines (h : cs.getLast? ≠ some '\n') :
    (breakLines cs).getLast? = cs.getLast? := by
  fun_induction breakLines cs with
  | case1 => rfl
  | case2 rest ih =>
    cases hrest : rest.getLast? with
    | none => simp [List.getLast?_cons, hrest] at h
    | some last =>
      simp only [List.getLast?_cons, hrest, Option.getD_some, ne_eq, Option.some.injEq] at h ih ⊢
      simp [ih h]
  | case3 rest ih =>
    cases hrest : rest.getLast? with
    | none => simp [List.getLast?_cons, hrest] at h
    | some last =>
      simp only [List.getLast?_cons, hrest, Option.getD_some, ne_eq, Option.some.injEq] at h ih ⊢
      simp [ih h]
  | case4 c rest hcrlf hlf ih =>
    cases hrest : rest.getLast? with
    | none =>
      rw [List.getLast?_eq_none_iff] at hrest
      subst hrest
      rfl
    | some last =>
      simp only [List.getLast?_cons, hrest, Option.getD_some, ne_eq, Option.some.injEq] at h ih ⊢
      simp [ih h]

theorem trimmed_breakLines (h : Trimmed cs) : Trimmed (breakLines cs) := by
  have hlast : cs.getLast? ≠ some '\n' := by
    intro hlf
    exact absurd (h.2 '\n' hlf) (by decide)
  constructor
  . intro c hc
    cases cs with
    | nil => cases hc
    | cons d cs =>
      have hd := h.1 d rfl
      have hlf : d ≠ '\n' := by
        intro heq
        rw [heq] at hd
        cases hd
      have hcr : d ≠ '\r' := by
        intro heq
        rw [heq] at hd
        cases hd
      rw [breakLines_cons hlf (fun heq => absurd heq hcr)] at hc
      cases hc
      exact hd
  . intro c hc
    rw [getLast?_breakLines hlast] at hc
    exact h.2 c hc

theorem getLast?_ne_of_cons {d x : Char} (h : (d :: cs).getLast? ≠ some x) :
    cs.getLast? ≠ some x := by
  intro hlast
  apply h
  rw [List.getLast?_cons, hlast]
  rfl

theorem dropCarriageReturn_cons (h : c = '\r' → cs ≠ []) :
    dropCarriageReturn (c :: cs) = c :: dropCarriageReturn cs := by
  unfold dropCarriageReturn
  rw [List.reverse_cons]
  cases hcs : cs.reverse with
  | nil =>
    rw [List.reverse_eq_nil_iff] at hcs
    subst hcs
    rw [List.nil_append]
    split
    . next heq =>
      cases heq
      exact absurd rfl (h rfl)
    . rfl
  | cons last init =>
    rw [List.cons_append]
    split
    . next heq =>
      cases heq
      rw [List.reverse_append]
      rfl
    . next hne =>
      split
      . next heq =>
        cases heq
        exact absurd rfl (hne _)
      . rfl

/--
Line endings are broken as the lines between them are joined.
-/
theorem breakLines_eq_intercalate (h : cs.getLast? ≠ some '\r') :
    breakLines cs =
      ['<', 'b', 'r', '>'].intercalate ((cs.splitOn '\n').map dropCarriageReturn) := by
  fun_induction breakLines cs with
  | case1 => rfl
  | case2 rest ih =>
    rw [List.splitOn_cons_eq_if_modifyHead, if_neg (by decide), List.splitOn_cons_eq_if_modifyHead,
      if_pos (by decide), List.modifyHead_cons, List.map_cons,
      ih (getLast?_ne_of_cons (getLast?_ne_of_cons h)), List.intercalate_cons_of_ne_nil (by simp)]
    rfl
  | case3 rest ih =>
    rw [List.splitOn_cons_eq_if_modifyHead, if_pos (by decide), List.map_cons,
      ih (getLast?_ne_of_cons h), List.intercalate_cons_of_ne_nil (by simp)]
    rfl
  | case4 c rest hcrlf hlf ih =>
    rw [List.splitOn_cons_eq_if_modifyHead, if_neg (by simpa using hlf),
      ih (getLast?_ne_of_cons h)]
    cases hlines : rest.splitOn '\n' with
    | nil => exact absurd hlines (List.splitOn_ne_nil '\n' rest)
    | cons line lines =>
      have hline : c = '\r' → line ≠ [] := by
        intro hc hline
        subst hc hline
        cases rest with
        | nil => exact h rfl
        | cons d more =>
          rw [List.splitOn_cons_eq_if_modifyHead] at hlines
          split at hlines
          . next hd => exact hcrlf more rfl (by rw [eq_of_beq hd])
          . cases hmore : more.splitOn '\n' with
            | nil => exact absurd hmore (List.splitOn_ne_nil '\n' more)
            | cons first others =>
              rw [hmore] at hlines
              cases hlines
      rw [List.modifyHead_cons, List.map_cons, List.map_cons, dropCarriageReturn_cons hline,
        List.intercalate_cons_cons_left]

end Break

section Cell

theorem toList_cellText (text : String) :
    (cellText text).toList = breakLines (trimChars text.toList) := by
  rw [cellText, String.toList_ofList, breakLines_eq_intercalate]
  intro hcr
  exact absurd ((trimmed_trimChars text.toList).2 '\r' hcr) (by decide)

theorem trimmed_cellText (text : String) : Trimmed (cellText text).toList := by
  rw [toList_cellText]
  exact trimmed_breakLines (trimmed_trimChars text.toList)

/--
A cell is written as what it shows, with its bars escaped.
-/
theorem toList_escapeCell (text : String) :
    (escapeCell text).toList = escapeBars (cellText text).toList := by
  rw [escapeCell, String.toList_ofList, trimChars_escapeBars, breakLines_escapeBars,
    toList_cellText]

theorem lineFeed_not_mem_escapeCell (text : String) : '\n' ∉ (escapeCell text).toList := by
  rw [toList_escapeCell, toList_cellText]
  intro h
  cases mem_escapeBars h with
  | inl h => exact absurd h (by decide)
  | inr h => exact lineFeed_not_mem_breakLines _ h

end Cell

section Row

theorem toList_row {cells : List String} (h : cells ≠ []) :
    (row cells).toList = '|' :: cells.flatMap fun cell => ' ' :: cell.toList ++ [' ', '|'] := by
  have hcells : ∀ cells : List String, cells ≠ [] →
      ' ' :: [' ', '|', ' '].intercalate (cells.map String.toList) ++ [' ', '|'] =
        cells.flatMap fun cell => ' ' :: cell.toList ++ [' ', '|'] := by
    intro cells h
    induction cells with
    | nil => exact absurd rfl h
    | cons cell cells ih =>
      cases cells with
      | nil => simp
      | cons next cells =>
        rw [List.flatMap_cons, ← ih (List.cons_ne_nil _ _)]
        simp
  unfold row
  rw [String.toList_append, String.toList_append, String.toList_intercalate, ← hcells cells h]
  rfl

theorem lineFeed_not_mem_row {cells : List String} (h : cells ≠ [])
    (hcells : ∀ cell ∈ cells, '\n' ∉ cell.toList) : '\n' ∉ (row cells).toList := by
  rw [toList_row h, List.mem_cons, List.mem_flatMap]
  rintro (hbar | ⟨cell, hcell, hmem⟩)
  . exact absurd hbar (by decide)
  . simp [hcells cell hcell] at hmem

theorem splitBars_cells (texts : List (List Char)) :
    splitBars false (texts.flatMap fun text => ' ' :: escapeBars text ++ [' ', '|']) =
      (texts.map fun text => ' ' :: escapeBars text ++ [' ']) ++ [[]] := by
  induction texts with
  | nil => rfl
  | cons text texts ih =>
    have hblank : escapeBars (' ' :: text) = ' ' :: escapeBars text :=
      escapeBars_cons (by decide) text
    rw [List.flatMap_cons, List.map_cons, ← hblank, List.append_assoc, List.cons_append,
      List.cons_append, List.nil_append, splitBars_escapeBars, splitBars, if_pos ⟨rfl, rfl⟩, ih]
    rfl

theorem unescapeBars_trimChars_cell (text : String) :
    unescapeBars (trimChars (' ' :: escapeBars (cellText text).toList ++ [' '])) =
      (cellText text).toList := by
  have hblank : ∀ c ∈ [' '], isBlank c := by
    intro c hc
    cases List.mem_singleton.1 hc
    rfl
  have htrim := @trimChars_of_blank_split [' '] (escapeBars (cellText text).toList) [' '] hblank
    (trimmed_escapeBars (trimmed_cellText text)) hblank
  rw [List.singleton_append] at htrim
  rw [htrim, unescapeBars_escapeBars]

theorem readRow_of_split {line : List Char} {pieces : List (List Char)}
    (h : splitBars false line = [] :: (pieces ++ [[]])) :
    readRow line =
      some (pieces.map fun piece => String.ofList (unescapeBars (trimChars piece))) := by
  unfold readRow
  rw [h]
  dsimp only
  rw [List.getLast?_concat, if_pos rfl, List.dropLast_concat]

/--
Reading undoes writing, whatever the cells hold: as many cells are read as were written, and each
is the text that the written one shows.
-/
theorem readRow_row {cells : List String} (h : cells ≠ []) :
    readRow (row (cells.map escapeCell)).toList = some (cells.map cellText) := by
  have hne : cells.map escapeCell ≠ [] := by simpa using h
  have hsplit : splitBars false (row (cells.map escapeCell)).toList =
      [] :: ((cells.map fun cell =>
        ' ' :: escapeBars (cellText cell).toList ++ [' ']) ++ [[]]) := by
    have hcells := splitBars_cells (cells.map fun cell => (cellText cell).toList)
    rw [List.flatMap_map, List.map_map] at hcells
    rw [toList_row hne, List.flatMap_map, splitBars, if_pos ⟨rfl, rfl⟩]
    simp only [toList_escapeCell]
    rw [hcells]
    rfl
  rw [readRow_of_split hsplit, List.map_map]
  apply congrArg some
  apply List.map_congr_left
  intro cell _
  rw [Function.comp_apply, unescapeBars_trimChars_cell, String.ofList_toList]

end Row

end ComponentDoc.Markdown
