import ComponentDoc.Proofs.Render.Row
import ComponentDoc.Proofs.Text.Lines

/-!
Reading a Markdown document back. Behind the heading with the component name a document consists
of its tables, each line of which can be read; what is read are the records in their order, as
far as the columns show them.
-/

namespace ComponentDoc.Markdown

open Text

/--
A table as a reader sees it.
-/
structure Table where
  title : String
  header : List String
  rows : List (List String)

/--
The table of a category, if there are records and columns.
-/
def tableOf {ρ : Type} [Columnar ρ] (title : String) (columns : Columns)
    (records : Option (OrderedMap String ρ)) : List Table :=
  match records with
  | none => []
  | some records =>
    if records.isEmpty || columns.isEmpty then
      []
    else
      [{ title
         header := columns.values.map cellText
         rows := records.values.map fun record =>
          columns.keys.map fun key => cellText ((Columnar.column record key).getD "") }]

/--
The tables of a component in the order of a document.
-/
def tables (info : ComponentInfo) (config : ColumnConfig) : List Table :=
  tableOf "Props" config.props info.props
    ++ tableOf "Slots" config.slots info.slots
    ++ tableOf "Data" config.data info.data
    ++ tableOf "Methods" config.methods info.methods

/--
Whether lines show a table: a title, an empty line, a header, a rule with one `---` per column,
and one line per row.
-/
def Table.ShownBy (table : Table) (lines : List (List Char)) : Prop :=
  ∃ header rule rows,
    lines = ("## " ++ table.title).toList :: [] :: header :: rule :: rows ∧
    readRow header = some table.header ∧
    rule = '|' :: table.header.flatMap (fun _ => " --- |".toList) ∧
    rows.map readRow = table.rows.map some

/--
A document with the component name, if there is one, as a heading in front of it.
-/
def withHeading (name : Option String) (body : String) : String :=
  match name with
  | none => body
  | some name => "# " ++ name ++ "\n" ++ (if body = "" then "" else "\n" ++ body)

section Lines

/--
The text whose lines, each ended by a line feed, are given.
-/
def unlines (lines : List (List Char)) : List Char :=
  lines.flatMap (· ++ ['\n'])

theorem splitOn_unlines {lines : List (List Char)} (h : ∀ line ∈ lines, '\n' ∉ line) :
    (unlines lines).splitOn '\n' = lines ++ [[]] := by
  induction lines with
  | nil => rfl
  | cons line lines ih =>
    have hline := h line List.mem_cons_self
    have hlines := ih (fun other hmem => h other (List.mem_cons_of_mem _ hmem))
    unfold unlines at hlines ⊢
    rw [List.flatMap_cons, List.append_assoc, List.singleton_append,
      List.splitOn_append_cons_self_of_not_mem hline, hlines, List.cons_append]

theorem unlines_eq_intercalate {lines : List (List Char)} (h : lines ≠ []) :
    unlines lines = ['\n'].intercalate lines ++ ['\n'] := by
  induction lines with
  | nil => exact absurd rfl h
  | cons line lines ih =>
    cases lines with
    | nil => simp [unlines]
    | cons next lines =>
      have hrest := ih (List.cons_ne_nil _ _)
      unfold unlines at hrest ⊢
      rw [List.flatMap_cons, hrest, List.intercalate_cons_cons]
      simp

theorem unlines_append (lines more : List (List Char)) :
    unlines (lines ++ more) = unlines lines ++ unlines more := by
  unfold unlines
  rw [List.flatMap_append]

/--
Joining blocks of lines by a line feed puts an empty line between them.
-/
theorem intercalate_unlines (blocks : List (List (List Char))) :
    ['\n'].intercalate (blocks.map unlines) = unlines ([[]].intercalate blocks) := by
  induction blocks with
  | nil => rfl
  | cons block blocks ih =>
    cases blocks with
    | nil => simp
    | cons next blocks =>
      rw [List.map_cons, List.map_cons, List.intercalate_cons_cons, ← List.map_cons, ih,
        List.intercalate_cons_cons, unlines_append, unlines_append]
      rfl

theorem lineFeed_not_mem_intercalate {blocks : List (List (List Char))}
    (h : ∀ block ∈ blocks, ∀ line ∈ block, '\n' ∉ line) :
    ∀ line ∈ [[]].intercalate blocks, '\n' ∉ line := by
  induction blocks with
  | nil => simp
  | cons block blocks ih =>
    have hblock := h block List.mem_cons_self
    cases blocks with
    | nil =>
      rw [List.intercalate_singleton]
      exact hblock
    | cons next blocks =>
      have hrest := ih (fun other hmem => h other (List.mem_cons_of_mem _ hmem))
      intro line hline
      rw [List.intercalate_cons_cons, List.mem_append, List.mem_append,
        List.mem_singleton] at hline
      rcases hline with (hline | hline) | hline
      . exact hblock line hline
      . simp [hline]
      . exact hrest line hline

end Lines

/--
Whether the sections of a document show tables, each on lines of its own.
-/
def SectionsShow (sections : List String) (tables : List Table) : Prop :=
  ∃ shown : List (Table × List (List Char)),
    shown.map Prod.fst = tables ∧
    (∀ s ∈ shown, s.1.ShownBy s.2 ∧ ∀ line ∈ s.2, '\n' ∉ line) ∧
    sections.map String.toList = shown.map fun s => unlines s.2

theorem SectionsShow.append {sections more : List String} {tables others : List Table}
    (h : SectionsShow sections tables) (hmore : SectionsShow more others) :
    SectionsShow (sections ++ more) (tables ++ others) := by
  obtain ⟨shown, htables, hshown, hsections⟩ := h
  obtain ⟨shown', htables', hshown', hsections'⟩ := hmore
  refine ⟨shown ++ shown', ?_, ?_, ?_⟩
  . rw [List.map_append, htables, htables']
  . intro s hs
    rw [List.mem_append] at hs
    cases hs with
    | inl hs => exact hshown s hs
    | inr hs => exact hshown' s hs
  . rw [List.map_append, List.map_append, hsections, hsections']

section Table

variable {ρ : Type} [Columnar ρ] {columns : Columns}

theorem map_entries_ne_nil {β : Type} (h : columns.isEmpty = false) (f : String × String → β) :
    columns.entries.map f ≠ [] := by
  intro hnil
  rw [List.map_eq_nil_iff] at hnil
  rw [OrderedMap.isEmpty, hnil] at h
  cases h

theorem values_ne_nil (h : columns.isEmpty = false) : columns.values ≠ [] := by
  apply map_entries_ne_nil h

theorem keys_ne_nil (h : columns.isEmpty = false) : columns.keys ≠ [] := by
  apply map_entries_ne_nil h

theorem cells_eq_map (columns : Columns) (record : ρ) :
    cells columns record =
      (columns.keys.map fun key => (Columnar.column record key).getD "").map escapeCell := by
  rw [List.map_map]
  rfl

theorem readRow_cells (h : columns.isEmpty = false) (record : ρ) :
    readRow (row (cells columns record)).toList =
      some (columns.keys.map fun key => cellText ((Columnar.column record key).getD "")) := by
  rw [cells_eq_map, readRow_row (by simpa using keys_ne_nil h), List.map_map]
  rfl

/--
The lines of the section of a category.
-/
def tableBlock (title : String) (columns : Columns) (records : List ρ) : List (List Char) :=
  ("## " ++ title).toList :: [] :: (tableLines columns records).map String.toList

theorem tableBlock_shows (title : String) (h : columns.isEmpty = false) (records : List ρ) :
    Table.ShownBy
      { title
        header := columns.values.map cellText
        rows := records.map fun record =>
          columns.keys.map fun key => cellText ((Columnar.column record key).getD "") }
      (tableBlock title columns records) := by
  refine ⟨_, _, _, rfl, readRow_row (values_ne_nil h), ?_, ?_⟩
  . rw [toList_row (by simpa using values_ne_nil h), List.flatMap_map, List.flatMap_map]
    rfl
  . rw [List.map_map, List.map_map, List.map_map]
    apply List.map_congr_left
    intro record _
    exact readRow_cells h record

theorem lineFeed_not_mem_tableLines (h : columns.isEmpty = false) (records : List ρ) :
    ∀ line ∈ tableLines columns records, '\n' ∉ line.toList := by
  intro line hline
  unfold tableLines at hline
  rw [List.mem_cons, List.mem_cons, List.mem_map] at hline
  rcases hline with rfl | rfl | ⟨record, _, rfl⟩
  . apply lineFeed_not_mem_row (by simpa using values_ne_nil h)
    intro cell hcell
    obtain ⟨label, _, rfl⟩ := List.mem_map.1 hcell
    exact lineFeed_not_mem_escapeCell label
  . apply lineFeed_not_mem_row (by simpa using values_ne_nil h)
    intro cell hcell
    obtain ⟨label, _, rfl⟩ := List.mem_map.1 hcell
    decide
  . rw [cells_eq_map]
    apply lineFeed_not_mem_row (by simpa using keys_ne_nil h)
    intro cell hcell
    obtain ⟨text, _, rfl⟩ := List.mem_map.1 hcell
    exact lineFeed_not_mem_escapeCell text

theorem lineFeed_not_mem_tableBlock {title : String} (htitle : '\n' ∉ title.toList)
    (h : columns.isEmpty = false) (records : List ρ) :
    ∀ line ∈ tableBlock title columns records, '\n' ∉ line := by
  intro line hline
  unfold tableBlock at hline
  rw [List.mem_cons, List.mem_cons, List.mem_map] at hline
  rcases hline with rfl | rfl | ⟨text, htext, rfl⟩
  . rw [String.toList_append, List.mem_append, not_or]
    exact ⟨by decide, htitle⟩
  . simp
  . exact lineFeed_not_mem_tableLines h records text htext

theorem unlines_tableBlock (title : String) (columns : Columns) (records : List ρ) :
    unlines (tableBlock title columns records) =
      (s!"## {title}\n\n" ++ "\n".intercalate (tableLines columns records) ++ "\n").toList := by
  have hlines : (tableLines columns records).map String.toList ≠ [] := by simp [tableLines]
  have hblock : unlines (tableBlock title columns records) =
      ("## " ++ title).toList ++ ['\n'] ++ ['\n'] ++
        unlines ((tableLines columns records).map String.toList) := by
    simp [tableBlock, unlines]
  rw [hblock, unlines_eq_intercalate hlines]
  simp [toString]

/--
The section of a category shows its table, if there is one, on lines of its own.
-/
theorem tableSection_shown {title : String} (htitle : '\n' ∉ title.toList) (columns : Columns)
    (records : Option (OrderedMap String ρ)) :
    SectionsShow (tableSection title columns records) (tableOf title columns records) := by
  unfold tableOf tableSection
  cases records with
  | none => exact ⟨[], rfl, by simp, rfl⟩
  | some records =>
    dsimp only
    split
    . exact ⟨[], rfl, by simp, rfl⟩
    . next h =>
      rw [Bool.or_eq_true, not_or, Bool.not_eq_true, Bool.not_eq_true] at h
      refine ⟨[(_, tableBlock title columns records.values)], rfl, ?_, ?_⟩
      . intro s hs
        rw [List.mem_singleton.1 hs]
        exact ⟨tableBlock_shows title h.2 records.values,
          lineFeed_not_mem_tableBlock htitle h.2 records.values⟩
      . rw [List.map_cons, List.map_cons, unlines_tableBlock]
        rfl

end Table

section Document

theorem sections_eq (info : ComponentInfo) (config : ColumnConfig) :
    sections info config =
      (info.name.map fun name => s!"# {name}\n").toList
        ++ sections { info with name := none } config := by
  simp [sections]

theorem sections_shown (info : ComponentInfo) (config : ColumnConfig) :
    SectionsShow (sections { info with name := none } config) (tables info config) := by
  apply SectionsShow.append
  . apply SectionsShow.append
    . apply SectionsShow.append
      . exact tableSection_shown (by decide) config.props info.props
      . exact tableSection_shown (by decide) config.slots info.slots
    . exact tableSection_shown (by decide) config.data info.data
  . exact tableSection_shown (by decide) config.methods info.methods

theorem SectionsShow.ne_empty {sections : List String} {tables : List Table}
    (h : SectionsShow sections tables) : ∀ text ∈ sections, text ≠ "" := by
  obtain ⟨shown, _, hshown, hsections⟩ := h
  intro text htext hempty
  have hmem : text.toList ∈ shown.map fun s => unlines s.2 := by
    rw [← hsections]
    exact List.mem_map_of_mem htext
  obtain ⟨s, hs, hunlines⟩ := List.mem_map.1 hmem
  obtain ⟨header, rule, rows, hlines, _⟩ := (hshown s hs).1
  rw [hempty, hlines] at hunlines
  simp [unlines] at hunlines

theorem render_eq_withHeading (info : ComponentInfo) (config : ColumnConfig) :
    render info config = withHeading info.name (render { info with name := none } config) := by
  have hne := (sections_shown info config).ne_empty
  unfold render withHeading
  rw [sections_eq info config]
  cases info.name with
  | none => rfl
  | some name =>
    change "\n".intercalate (s!"# {name}\n" :: sections { info with name := none } config) = _
    dsimp only
    cases hsections : sections { info with name := none } config with
    | nil =>
      rw [String.intercalate_singleton, String.intercalate_nil, if_pos rfl]
      simp [toString]
    | cons first rest =>
      rw [hsections] at hne
      rw [String.intercalate_cons_cons,
        if_neg (intercalate_ne_empty (hne first List.mem_cons_self) _ _), ← String.append_assoc]
      rfl

/--
A document is its tables behind the heading, and nothing else: split at line feeds, what follows
the heading is one block of lines per table, with an empty line between two blocks, and every
block can be read back.
-/
theorem render_reads_back (info : ComponentInfo) (config : ColumnConfig) :
    render info config = withHeading info.name (render { info with name := none } config) ∧
    ∃ shown : List (Table × List (List Char)),
      shown.map Prod.fst = tables info config ∧
      (∀ s ∈ shown, s.1.ShownBy s.2) ∧
      (render { info with name := none } config).toList.splitOn '\n' =
        [[]].intercalate (shown.map Prod.snd) ++ [[]] := by
  refine ⟨render_eq_withHeading info config, ?_⟩
  obtain ⟨shown, htables, hshown, hsections⟩ := sections_shown info config
  refine ⟨shown, htables, fun s hs => (hshown s hs).1, ?_⟩
  -- The sections are joined by line feeds, and each ends in one: hence the empty lines between.
  have hbody : (render { info with name := none } config).toList =
      unlines ([[]].intercalate (shown.map Prod.snd)) := by
    rw [render, String.toList_intercalate, hsections, ← intercalate_unlines, List.map_map]
    rfl
  rw [hbody, splitOn_unlines]
  apply lineFeed_not_mem_intercalate
  intro block hblock
  obtain ⟨s, hs, rfl⟩ := List.mem_map.1 hblock
  exact (hshown s hs).2

end Document

end ComponentDoc.Markdown
