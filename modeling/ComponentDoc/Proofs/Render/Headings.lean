import ComponentDoc.Proofs.Extract.Extraction
import ComponentDoc.Proofs.Render.Tables

/-!
The headings of a Markdown document. No cell of a table can start a line, so the lines that begin
with `#` are the heading with the component name and one title for each table. The name is put
into its heading as it is, and a name of several lines is no heading of one line.
-/

namespace ComponentDoc.Markdown

variable {text : String} {options : Options} {columns : ColumnConfig} {result : Document}

/--
The lines that begin with `#`.
-/
def headingLines (cs : List Char) : List (List Char) :=
  (cs.splitOn '\n').filter fun line => line.head? = some '#'

def headings (text : String) : List String :=
  (headingLines text.toList).map String.ofList

/--
The lines that begin with `#` in the heading with a component name.
-/
def nameHeadings (name : Option String) : List String :=
  match name with
  | none => []
  | some name => headings ("# " ++ name)

/--
The title of a category that is present, if it has columns.
-/
def categoryHeading {ρ : Type} (title : String) (columns : Columns)
    (records : Option (OrderedMap String ρ)) : List String :=
  if records.isSome && !columns.isEmpty then ["## " ++ title] else []

def categoryHeadings (info : ComponentInfo) (columns : ColumnConfig) : List String :=
  categoryHeading "Props" columns.props info.props
    ++ categoryHeading "Slots" columns.slots info.slots
    ++ categoryHeading "Data" columns.data info.data
    ++ categoryHeading "Methods" columns.methods info.methods

section Lines

theorem headingLines_append (front back : List Char) :
    headingLines (front ++ '\n' :: back) = headingLines front ++ headingLines back := by
  unfold headingLines
  rw [List.splitOn_append_cons_self, List.filter_append]

theorem headingLines_nil : headingLines [] = [] :=
  rfl

theorem headingLines_intercalate (texts : List (List Char)) :
    headingLines (['\n'].intercalate texts) = texts.flatMap headingLines := by
  induction texts with
  | nil => rfl
  | cons text texts ih =>
    cases texts with
    | nil => simp
    | cons next texts =>
      rw [List.intercalate_cons_cons, List.append_assoc, List.singleton_append,
        headingLines_append, ih, @List.flatMap_cons _ _ text]

theorem headingLines_unlines {lines : List (List Char)} (h : ∀ line ∈ lines, '\n' ∉ line) :
    headingLines (unlines lines) = lines.filter fun line => line.head? = some '#' := by
  unfold headingLines
  rw [splitOn_unlines h, List.filter_append]
  simp

theorem headings_intercalate (texts : List String) :
    headings ("\n".intercalate texts) = texts.flatMap headings := by
  unfold headings
  rw [String.toList_intercalate]
  change (headingLines (['\n'].intercalate (texts.map String.toList))).map String.ofList = _
  rw [headingLines_intercalate, List.flatMap_map, List.map_flatMap]

theorem lineFeed_not_mem_of_mem_splitOn {cs line : List Char} (h : line ∈ cs.splitOn '\n') :
    '\n' ∉ line := by
  induction cs generalizing line with
  | nil =>
    rw [List.splitOn_nil, List.mem_singleton] at h
    rw [h]
    exact List.not_mem_nil
  | cons c cs ih =>
    rw [List.splitOn_cons_eq_if_modifyHead] at h
    split at h
    . rcases List.mem_cons.1 h with rfl | h
      . exact List.not_mem_nil
      . exact ih h
    . next hne =>
      cases hlines : cs.splitOn '\n' with
      | nil => exact absurd hlines (List.splitOn_ne_nil _ _)
      | cons first rest =>
        rw [hlines, List.modifyHead_cons] at h
        rw [hlines] at ih
        rcases List.mem_cons.1 h with rfl | h
        . rw [List.mem_cons, not_or]
          refine ⟨?_, ih List.mem_cons_self⟩
          rintro rfl
          exact hne rfl
        . exact ih (List.mem_cons_of_mem first h)

theorem lineFeed_not_mem_of_mem_headings {line : String} (h : line ∈ headings text) :
    '\n' ∉ line.toList := by
  unfold headings headingLines at h
  obtain ⟨cs, hcs, rfl⟩ := List.mem_map.1 h
  rw [String.toList_ofList]
  exact lineFeed_not_mem_of_mem_splitOn (List.mem_filter.1 hcs).1

/--
A name of one line is a heading of one line.
-/
theorem headings_of_lineFeed_not_mem {name : String} (h : '\n' ∉ name.toList) :
    headings ("# " ++ name) = ["# " ++ name] := by
  have hline : '\n' ∉ ("# " ++ name).toList := by
    rw [String.toList_append, List.mem_append, not_or]
    exact ⟨by decide, h⟩
  have hhead : ("# " ++ name).toList.head? = some '#' := by
    rw [String.toList_append]
    rfl
  unfold headings headingLines
  rw [List.splitOn_eq_singleton hline, List.filter_cons, if_pos (decide_eq_true hhead),
    List.filter_nil, List.map_singleton, String.ofList_toList]

end Lines

section Sections

variable {ρ : Type} [Columnar ρ]

/--
Every line of a table begins with a bar.
-/
theorem head?_of_mem_tableLines {columns : Columns} {records : List ρ} {line : String}
    (h : line ∈ tableLines columns records) : line.toList.head? = some '|' := by
  have hrow : ∀ cells : List String, (row cells).toList.head? = some '|' := by
    intro cells
    unfold row
    rw [String.toList_append, String.toList_append]
    rfl
  unfold tableLines at h
  rw [List.mem_cons, List.mem_cons, List.mem_map] at h
  rcases h with rfl | rfl | ⟨record, _, rfl⟩
  . apply hrow
  . apply hrow
  . apply hrow

theorem filter_tableBlock (title : String) (columns : Columns) (records : List ρ) :
    ((tableBlock title columns records).filter fun line => line.head? = some '#') =
      [("## " ++ title).toList] := by
  have htitle : ("## " ++ title).toList.head? = some '#' := by
    rw [String.toList_append]
    rfl
  have hlines : ((tableLines columns records).map String.toList).filter
      (fun line => line.head? = some '#') = [] := by
    rw [List.filter_eq_nil_iff]
    intro line hline
    obtain ⟨text, htext, rfl⟩ := List.mem_map.1 hline
    rw [head?_of_mem_tableLines htext]
    decide
  unfold tableBlock
  rw [List.filter_cons, if_pos (decide_eq_true htitle), List.filter_cons, if_neg (by decide),
    hlines]

theorem headings_tableSection {title : String} (htitle : '\n' ∉ title.toList) (columns : Columns)
    {records : Option (OrderedMap String ρ)}
    (hrecords : ∀ found, records = some found → found.isEmpty = false) :
    (tableSection title columns records).flatMap headings =
      categoryHeading title columns records := by
  cases records with
  | none => rfl
  | some found =>
    unfold tableSection categoryHeading
    dsimp only
    rw [hrecords found rfl, Bool.false_or]
    cases hcolumns : columns.isEmpty with
    | true => rfl
    | false =>
      rw [if_neg Bool.false_ne_true, List.flatMap_singleton]
      unfold headings
      rw [← unlines_tableBlock,
        headingLines_unlines (lineFeed_not_mem_tableBlock htitle hcolumns _), filter_tableBlock,
        List.map_singleton, String.ofList_toList]
      rfl

theorem headings_nameSection (name : Option String) :
    (name.map fun name => s!"# {name}\n").toList.flatMap headings = nameHeadings name := by
  cases name with
  | none => rfl
  | some name =>
    have htext : (s!"# {name}\n").toList = ("# " ++ name).toList ++ ['\n'] := by
      simp [toString]
    rw [Option.map_some, Option.toList_some, List.flatMap_singleton]
    unfold nameHeadings headings
    rw [htext, headingLines_append, headingLines_nil, List.append_nil]

/--
The headings of a document with tables for all categories that are present.
-/
theorem headings_render {info : ComponentInfo} (h : info.Settled) (columns : ColumnConfig) :
    headings (render info columns) = nameHeadings info.name ++ categoryHeadings info columns := by
  unfold render sections categoryHeadings
  rw [headings_intercalate, List.flatMap_append, List.flatMap_append, List.flatMap_append,
    List.flatMap_append, headings_nameSection,
    headings_tableSection (by decide) columns.props h.props,
    headings_tableSection (by decide) columns.slots h.slots,
    headings_tableSection (by decide) columns.data h.data,
    headings_tableSection (by decide) columns.methods h.methods]
  simp only [List.append_assoc]

end Sections

/--
The headings of a document are those of its component: the lines that begin with `#` in the heading
with the name, then a title for each category that is present and has columns. The whole name is
one of them just if it is a name of one line.
-/
theorem document_headings (h : document text options columns .markdown = .ok result) :
    ∃ extraction, extract text options = .ok extraction ∧
      headings result.text =
        nameHeadings extraction.info.name ++ categoryHeadings extraction.info columns ∧
      ∀ name, extraction.info.name = some name →
        (headings result.text = ("# " ++ name) :: categoryHeadings extraction.info columns ↔
          '\n' ∉ name.toList) := by
  unfold document at h
  cases hextract : extract text options with
  | error problem =>
    rw [hextract] at h
    cases h
  | ok extraction =>
    rw [hextract] at h
    cases h
    have hheadings := headings_render (settled_of_extract hextract) columns
    refine ⟨extraction, rfl, hheadings, ?_⟩
    intro name hname
    constructor
    . intro hwhole hlineFeed
      have hline : '\n' ∉ ("# " ++ name).toList := by
        apply lineFeed_not_mem_of_mem_headings
        rw [hwhole]
        exact List.mem_cons_self
      apply hline
      rw [String.toList_append]
      exact List.mem_append_right _ hlineFeed
    . intro hlineFeed
      refine hheadings.trans ?_
      rw [hname]
      unfold nameHeadings
      dsimp only
      rw [headings_of_lineFeed_not_mem hlineFeed]
      rfl

/--
A component whose name, a template string, runs over two lines.
-/
def twoLineComponent : String :=
  "<script>export default \x7b name: `Foo\n# Bar` \x7d</script>"

theorem document_headings_two_lines :
    ∃ result extraction, document twoLineComponent {} {} .markdown = .ok result ∧
      extract twoLineComponent {} = .ok extraction ∧
      extraction.info.name = some "Foo\n# Bar" ∧
      headings result.text ≠ "# Foo\n# Bar" :: categoryHeadings extraction.info {} := by
  have hextracted : (extract twoLineComponent {}).toOption =
      some ⟨{ name := some "Foo\n# Bar" }, []⟩ := by
    decide +kernel
  have hextract : extract twoLineComponent {} = .ok ⟨{ name := some "Foo\n# Bar" }, []⟩ := by
    cases heq : extract twoLineComponent {} with
    | error problem =>
      rw [heq] at hextracted
      cases hextracted
    | ok extraction =>
      rw [heq] at hextracted
      cases hextracted
      rfl
  have hdocument : document twoLineComponent {} {} .markdown =
      .ok ⟨Format.markdown.render { name := some "Foo\n# Bar" } {}, []⟩ := by
    unfold document
    rw [hextract]
    rfl
  obtain ⟨extraction, hextraction, _, hwhole⟩ := document_headings hdocument
  rw [hextract] at hextraction
  cases hextraction
  refine ⟨_, _, hdocument, hextract, rfl, ?_⟩
  intro heq
  exact (hwhole "Foo\n# Bar" rfl).1 heq (by decide)

end ComponentDoc.Markdown
