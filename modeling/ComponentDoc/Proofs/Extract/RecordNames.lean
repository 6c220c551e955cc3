import ComponentDoc.Proofs.Extract.Extraction
import ComponentDoc.Proofs.Script.EntryNames

/-!
Names of records. What holds of the names of all entries in the default export holds of the names
of all props, data fields and methods; slots are named by their attributes. So a record without a
name comes from a key that is written as a string of no characters, and no slot is without one.
-/

namespace ComponentDoc

open Pass Script

variable {P : String → Prop} {options : Options} {log log' : List Problem}

section Fields

variable {noun : String} {entries : List (Entry Expr)} {value : Expr}

theorem names_extractRecords {records : OrderedMap String Record}
    (h : (extractRecords noun entries).exec options log = (.ok records, log'))
    (hnames : ∀ entry ∈ entries, P entry.key) : ∀ e ∈ records.entries, P e.1 := by
  unfold extractRecords at h
  apply exec_foldlM_eq_ok (I := fun records _ => ∀ e ∈ records.entries, P e.1) ?_ ?_ h
  . intro entry hmem records next log log' hrecords hnext
    obtain ⟨desc, mid, _, hrest⟩ := exec_bind_eq_ok hnext
    cases hrest
    intro e he
    cases OrderedMap.mem_entries_insert he with
    | inl he =>
      rw [he]
      exact hnames entry hmem
    | inr he => exact hrecords e he
  . exact List.forall_mem_nil _

theorem names_extractProps {props : OrderedMap String PropRecord}
    (h : (extractProps value).exec options log = (.ok props, log')) (hvalue : value.AllNames P) :
    ∀ e ∈ props.entries, P e.1 := by
  unfold extractProps at h
  split at h
  . next entries =>
    cases hvalue with
    | object _ hnames _ =>
      apply exec_foldlM_eq_ok (I := fun props _ => ∀ e ∈ OrderedMap.entries props, P e.1) ?_ ?_ h
      . intro entry hmem props next log log' hprops hnext
        obtain ⟨prop, mid, _, hrest⟩ := exec_bind_eq_ok hnext
        cases hrest
        intro e he
        cases OrderedMap.mem_entries_insert he with
        | inl he =>
          rw [he]
          exact hnames entry hmem
        | inr he => exact hprops e he
      . exact List.forall_mem_nil _
  . cases h

theorem names_extractMethods {records : OrderedMap String Record}
    (h : (extractMethods value).exec options log = (.ok records, log'))
    (hvalue : value.AllNames P) : ∀ e ∈ records.entries, P e.1 := by
  unfold extractMethods at h
  split at h
  . cases hvalue with
    | object _ hnames _ => exact names_extractRecords h hnames
  . cases h

theorem mem_values_of_returned {body : FunctionBody Expr} (h : body.returned = some value) :
    value ∈ body.values := by
  cases body with
  | expression result =>
    cases h
    exact List.mem_singleton.2 rfl
  | block statements =>
    induction statements with
    | nil => cases h
    | cons statement rest ih =>
      apply List.mem_append.2
      cases statement with
      | «return» result => exact .inl (Option.mem_toList.2 h)
      | other => exact .inr (ih h)

theorem names_extractData {records : OrderedMap String Record}
    (h : (extractData value).exec options log = (.ok records, log'))
    (hvalue : value.AllNames P) : ∀ e ∈ records.entries, P e.1 := by
  unfold extractData at h
  split at h
  . next body =>
    cases hvalue with
    | function _ hvalues =>
      split at h
      . cases h
      . next entries hreturned =>
        cases hvalues _ (mem_values_of_returned hreturned) with
        | object _ hnames _ => exact names_extractRecords h hnames
      . cases h
  . cases h

end Fields

section Driver

variable {defaultExport : Option Expr} {field : Entry Expr} {kind : FieldKind}
variable {info info' : ScriptInfo}

/--
Whether the names of all records of a script satisfy a property.
-/
structure ScriptInfo.AllNames (P : String → Prop) (info : ScriptInfo) : Prop where
  props : ∀ records, info.props = some records → ∀ e ∈ records.entries, P e.1
  data : ∀ records, info.data = some records → ∀ e ∈ records.entries, P e.1
  methods : ∀ records, info.methods = some records → ∀ e ∈ records.entries, P e.1

theorem ScriptInfo.allNames_empty : ScriptInfo.AllNames P {} where
  props := nofun
  data := nofun
  methods := nofun

theorem names_extractField (h : info.AllNames P) (hvalue : field.value.AllNames P)
    (hexec : (extractField kind field.value info).exec options log = (.ok info', log')) :
    info'.AllNames P := by
  cases kind with
  | name =>
    dsimp only [extractField] at hexec
    split at hexec
    . cases hexec
      exact ⟨h.props, h.data, h.methods⟩
    . cases hexec
  | props =>
    obtain ⟨records, mid, hrecords, hrest⟩ := exec_bind_eq_ok hexec
    cases hrest
    refine ⟨?_, h.data, h.methods⟩
    intro records' hrecords'
    obtain ⟨rfl, _⟩ := OrderedMap.nonEmpty?_eq_some hrecords'
    exact names_extractProps hrecords hvalue
  | methods =>
    obtain ⟨records, mid, hrecords, hrest⟩ := exec_bind_eq_ok hexec
    cases hrest
    refine ⟨h.props, h.data, ?_⟩
    intro records' hrecords'
    obtain ⟨rfl, _⟩ := OrderedMap.nonEmpty?_eq_some hrecords'
    exact names_extractMethods hrecords hvalue
  | data =>
    obtain ⟨records, mid, hrecords, hrest⟩ := exec_bind_eq_ok hexec
    cases hrest
    refine ⟨h.props, ?_, h.methods⟩
    intro records' hrecords'
    obtain ⟨rfl, _⟩ := OrderedMap.nonEmpty?_eq_some hrecords'
    exact names_extractData hrecords hvalue

theorem names_extractEntry (h : info.AllNames P) (hvalue : field.value.AllNames P)
    (hexec : (extractEntry info field).exec options log = (.ok info', log')) :
    info'.AllNames P := by
  cases hkind : FieldKind.ofKey? field.key with
  | none =>
    unfold extractEntry at hexec
    rw [hkind] at hexec
    cases hexec
    exact h
  | some kind =>
    rw [extractEntry_eq_orReport hkind, exec_orReport] at hexec
    split at hexec
    . next hfield =>
      cases hexec
      exact names_extractField h hvalue hfield
    . split at hexec
      . cases hexec
      . cases hexec
        exact h

theorem allNames_optionsObject {fields : List (Entry Expr)}
    (h : optionsObject defaultExport = .ok fields)
    (hexport : ∀ e, defaultExport = some e → e.AllNames P) :
    ∀ field ∈ fields, field.value.AllNames P := by
  unfold optionsObject at h
  split at h
  . cases h
  . cases h
    cases hexport _ rfl with
    | object _ _ hvalues => exact hvalues
  . cases h
    cases hexport _ rfl with
    | call _ _ _ hargs =>
      cases hargs _ List.mem_cons_self with
      | object _ _ hvalues => exact hvalues
  . cases h
  . cases h

theorem names_extractScript (hexport : ∀ e, defaultExport = some e → e.AllNames P)
    (h : (extractScript defaultExport).exec options log = (.ok info, log')) :
    info.AllNames P := by
  unfold extractScript at h
  split at h
  . next fields hfields =>
    apply exec_foldlM_eq_ok (I := fun info _ => info.AllNames P) ?_ ?_ h
    . intro field hmem info info' log log' hinfo hnext
      exact names_extractEntry hinfo (allNames_optionsObject hfields hexport field hmem) hnext
    . exact ScriptInfo.allNames_empty
  . cases h

end Driver

section Template

variable {nodes : List Markup.Node} {slots slots' : Slots}

theorem slotName_ne_empty (attributes : List Markup.Attribute) : slotName attributes ≠ "" := by
  unfold slotName
  dsimp only
  cases hfound : (slotNameAttributes.filterMap (Markup.attributeValue attributes)).find?
      (fun value => !Text.allBlank value) with
  | none =>
    rw [Option.getD_none]
    decide
  | some value =>
    rw [Option.getD_some]
    rintro rfl
    exact absurd (List.find?_some hfound) (by decide)

theorem names_extractSlots (h : (extractSlots nodes).exec options log = (.ok slots, log')) :
    ∀ records, slots = some records → ∀ e ∈ records.entries, e.1 ≠ "" := by
  rw [extractSlots_eq_foldlM] at h
  apply exec_foldlM_eq_ok
    (I := fun slots _ => ∀ records, slots = some records → ∀ e ∈ records.entries, e.1 ≠ "") ?_ ?_ h
  . intro occurrence _ slots slots' log log' hslots hnext
    obtain ⟨desc, mid, _, hrest⟩ := exec_bind_eq_ok hnext
    cases hrest
    intro records hrecords e he
    cases hrecords
    cases OrderedMap.mem_entries_insert he with
    | inl he =>
      rw [he]
      exact slotName_ne_empty _
    | inr he =>
      cases slots with
      | none => cases he
      | some found => exact hslots found rfl e he
  . nofun

end Template

section Records

variable {text : String} {extraction : Extraction} {category : Category}
variable {records : List (String × Record)} {key : String} {record : Record}
variable {info : ScriptInfo} {slots : Slots}

/--
Whether some entry of an object in the script of a component has a key written as a string of no
characters.
-/
def Sections.HasEmptyKey (sections : Sections) : Prop :=
  ∃ script, sections.script = some script ∧ Script.HasEmptyKey script.dialect script.text

theorem names_of_scriptGives {script : Option ScriptSection} (h : ScriptGives script options info) :
    info.AllNames fun name => name = "" →
      ∃ found, script = some found ∧ Script.HasEmptyKey found.dialect found.text := by
  rcases h with ⟨_, rfl⟩ | ⟨found, defaultExport, log, rfl, hparse, hexec⟩
  . exact ScriptInfo.allNames_empty
  . apply names_extractScript ?_ hexec
    rintro e rfl
    apply (allNames_parseModule hparse).mono
    intro name hname hempty
    exact ⟨found, rfl, hname hempty⟩

theorem names_of_templateGives (h : TemplateGives options slots) :
    ∀ records, slots = some records → ∀ e ∈ records.entries, e.1 ≠ "" := by
  rcases h with rfl | ⟨nodes, noted, log, hexec⟩
  . nofun
  . exact names_extractSlots hexec

theorem name_of_recordsOf (hscript : info.AllNames P)
    (hslots : ∀ records, slots = some records → ∀ e ∈ records.entries, e.1 ≠ "")
    (hrecords : (info.withSlots slots).recordsOf category = some records)
    (hmem : (key, record) ∈ records) : key ≠ "" ∨ category ≠ .slots ∧ P key := by
  cases category with
  | props =>
    obtain ⟨props, hprops, rfl⟩ := Option.map_eq_some_iff.1 hrecords
    obtain ⟨e, he, heq⟩ := List.mem_map.1 hmem
    cases heq
    exact .inr ⟨nofun, hscript.props props hprops e he⟩
  | slots =>
    obtain ⟨found, hfound, rfl⟩ := Option.map_eq_some_iff.1 hrecords
    exact .inl (hslots found hfound _ hmem)
  | data =>
    obtain ⟨found, hfound, rfl⟩ := Option.map_eq_some_iff.1 hrecords
    exact .inr ⟨nofun, hscript.data found hfound _ hmem⟩
  | methods =>
    obtain ⟨found, hfound, rfl⟩ := Option.map_eq_some_iff.1 hrecords
    exact .inr ⟨nofun, hscript.methods found hfound _ hmem⟩

theorem accounted_of_scriptGives {script : Option ScriptSection}
    (h : ScriptGives script options info) :
    ∃ defaultExport log, ScriptAccounted options defaultExport info log := by
  rcases h with ⟨_, rfl⟩ | ⟨found, defaultExport, log, _, _, hexec⟩
  . exact ⟨none, [], nofun, nofun, nofun⟩
  . exact ⟨defaultExport, log, extractScript_accounted hexec⟩

theorem accounted_of_templateGives (h : TemplateGives options slots) :
    ∃ nodes log, SlotsAccounted options nodes slots log := by
  rcases h with rfl | ⟨nodes, noted, log, hexec⟩
  . exact ⟨[], [], nofun⟩
  . exact ⟨nodes, log, extractSlots_accounted hexec⟩

theorem name_eq_key (h : extract text options = .ok extraction)
    (hrecords : extraction.info.recordsOf category = some records)
    (hmem : (key, record) ∈ records) : record.name = key := by
  obtain ⟨info, slots, hinfo, hscript, htemplate⟩ := extract_eq_ok h
  obtain ⟨defaultExport, scriptLog, hscript⟩ := accounted_of_scriptGives hscript
  obtain ⟨nodes, slotLog, hslots⟩ := accounted_of_templateGives htemplate
  rw [hinfo] at hrecords
  have haccounted := recordsOf_accounted
    (hscript.mono fun _ => List.mem_append_left slotLog)
    (hslots.mono fun _ => List.mem_append_right scriptLog) hrecords
  exact (haccounted.2.2 key record hmem).name_eq

/--
The name of every record is its key. It is empty only where the script has a key written as a
string of no characters, and never for a slot.
-/
theorem record_name_ne_empty_or_hasEmptyKey (h : extract text options = .ok extraction)
    (hrecords : extraction.info.recordsOf category = some records)
    (hmem : (key, record) ∈ records) :
    record.name = key ∧
      (record.name ≠ "" ∨ category ≠ .slots ∧ (Sections.ofSource text).HasEmptyKey) := by
  have hname := name_eq_key h hrecords hmem
  refine ⟨hname, ?_⟩
  rw [hname]
  by_cases hempty : key = ""
  . obtain ⟨info, slots, hinfo, hscript, htemplate⟩ := extract_eq_ok h
    rw [hinfo] at hrecords
    rcases name_of_recordsOf (names_of_scriptGives hscript) (names_of_templateGives htemplate)
      hrecords hmem with hne | ⟨hcategory, hkey⟩
    . exact absurd hempty hne
    . exact .inr ⟨hcategory, hkey hempty⟩
  . exact .inl hempty

def emptyKeyComponent : String :=
  "<script>export default \x7b props: \x7b '': String \x7d \x7d</script>"

theorem record_name_ne_empty_or_hasEmptyKey_string :
    ∃ extraction record, extract emptyKeyComponent {} = .ok extraction ∧
      extraction.info.recordsOf .props = some [("", record)] ∧ record.name = "" ∧
      (Sections.ofSource emptyKeyComponent).HasEmptyKey := by
  have hextracted : ((extract emptyKeyComponent {}).toOption.bind fun extraction =>
      extraction.info.recordsOf .props) = some [("", ⟨"", "no description"⟩)] := by
    decide +kernel
  cases hextract : extract emptyKeyComponent {} with
  | error problem =>
    rw [hextract] at hextracted
    cases hextracted
  | ok extraction =>
    rw [hextract] at hextracted
    have hrecords : extraction.info.recordsOf .props = some [("", ⟨"", "no description"⟩)] :=
      hextracted
    refine ⟨extraction, _, rfl, hrecords, rfl, ?_⟩
    obtain ⟨_, hne | hempty⟩ :=
      record_name_ne_empty_or_hasEmptyKey hextract hrecords (List.mem_singleton.2 rfl)
    . exact absurd rfl hne
    . exact hempty.2

end Records

end ComponentDoc
