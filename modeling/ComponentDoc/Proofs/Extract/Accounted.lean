import ComponentDoc.Columns
import ComponentDoc.Proofs.Extract.Description
import ComponentDoc.Proofs.Extract.Reporting
import ComponentDoc.Proofs.OrderedMap

/-!
No silent gaps: every record of an extraction is accounted for. Its description comes from a
comment on a declaration with its key, or the log says that there is none; a prop without a type
is in the log as well. A strict extraction has neither kind of gap.
-/

namespace ComponentDoc

open Pass Script Markup

/--
What a record of a category is called in warnings.
-/
def Category.noun : Category → String
  | .props => "prop"
  | .slots => "slot"
  | .data => "data"
  | .methods => "method"

/--
The entries that a documented field declares, given its value.
-/
def FieldKind.declarations : FieldKind → Expr → List (Entry Expr)
  | .props, .object entries => entries
  | .methods, .object entries => entries
  | .data, .function body =>
    match body.returned with
    | some (.object entries) => entries
    | _ => []
  | _, _ => []

/--
The entries that a script declares in all its fields of one kind.
-/
def declarations (defaultExport : Option Expr) (kind : FieldKind) : List (Entry Expr) :=
  match optionsObject defaultExport with
  | .ok fields =>
    (fields.filter fun field => FieldKind.ofKey? field.key = some kind).flatMap fun field =>
      kind.declarations field.value
  | .error _ => []

/--
Whether a description is what the first comment in front of an entry with a given key says.
-/
def CommentedEntry (entries : List (Entry Expr)) (key desc : String) : Prop :=
  ∃ entry ∈ entries, entry.key = key ∧
    ∃ comment rest, entry.comments = comment :: rest ∧
      desc = cleanComment comment.text comment.block

/--
Whether a description is what the comment directly before a slot with a given name says.
-/
def CommentedSlot (nodes : List Node) (name desc : String) : Prop :=
  ∃ occurrence ∈ SlotOccurrence.among none nodes, slotName occurrence.attributes = name ∧
    ∃ text, occurrence.before = some (.comment text) ∧ desc = cleanComment text false

/--
Whether a description is what a comment of the source says about a declaration of a category.
-/
def Category.Commented (defaultExport : Option Expr) (nodes : List Node) :
    Category → String → String → Prop
  | .props => CommentedEntry (declarations defaultExport .props)
  | .data => CommentedEntry (declarations defaultExport .data)
  | .methods => CommentedEntry (declarations defaultExport .methods)
  | .slots => CommentedSlot nodes

/--
The part of a prop that records of all categories have.
-/
def PropRecord.summary (r : PropRecord) : Record :=
  ⟨r.name, r.desc⟩

/--
The records of a category with their keys, if the category is present.
-/
def ComponentInfo.recordsOf (info : ComponentInfo) : Category → Option (List (String × Record))
  | .props => info.props.map fun props => props.entries.map fun e => (e.1, e.2.summary)
  | .slots => info.slots.map OrderedMap.entries
  | .data => info.data.map OrderedMap.entries
  | .methods => info.methods.map OrderedMap.entries

/--
Whether a record has its key as its name and a description that is accounted for.
-/
structure Accounted (options : Options) (log : List Problem) (noun : String)
    (commented : String → String → Prop) (key : String) (record : Record) : Prop where
  name_eq : record.name = key
  described : (Presentable record.desc ∧ commented key record.desc) ∨
    (record.desc = options.noDescription ∧ .missingDescription noun key ∈ log)

/--
Whether a problem says that something in the source is missing or cannot be used.
-/
def Problem.isGap : Problem → Bool
  | .malformed _ _ | .missingDescription _ _ | .missingType _ => true
  | _ => false

/--
A result without silent gaps.
-/
structure WellAccounted (options : Options) (defaultExport : Option Expr) (nodes : List Node)
    (info : ComponentInfo) (warnings : List Problem) : Prop where
  present : ∀ category records, info.recordsOf category = some records →
    records ≠ [] ∧ (records.map Prod.fst).Nodup
  accounted : ∀ category records, info.recordsOf category = some records →
    ∀ key record, (key, record) ∈ records →
      Accounted options warnings category.noun (category.Commented defaultExport nodes) key record
  typed : ∀ props, info.props = some props → ∀ key prop, (key, prop) ∈ props.entries →
    prop.type = none → .missingType key ∈ warnings
  strict_gapless : options.strict = true → ∀ problem ∈ warnings, problem.isGap = false
  strict_described : options.strict = true → ∀ category records,
    info.recordsOf category = some records → ∀ key record, (key, record) ∈ records →
      Presentable record.desc ∧ category.Commented defaultExport nodes key record.desc
  strict_typed : options.strict = true → ∀ props, info.props = some props →
    ∀ key prop, (key, prop) ∈ props.entries → prop.type.isSome

section Records

variable {options : Options} {log log' : List Problem} {noun key : String}
variable {commented commented' : String → String → Prop} {record : Record}

theorem Accounted.mono (h : Accounted options log noun commented key record)
    (hlog : ∀ problem ∈ log, problem ∈ log')
    (hcommented : ∀ key desc, commented key desc → commented' key desc) :
    Accounted options log' noun commented' key record where
  name_eq := h.name_eq
  described := by
    cases h.described with
    | inl h => exact .inl ⟨h.1, hcommented _ _ h.2⟩
    | inr h => exact .inr ⟨h.1, hlog _ h.2⟩

theorem accounted_of_describe {found : Option String} {desc : String}
    (h : (describe noun key found).exec options log = (.ok desc, log'))
    (hfound : ∀ text, found = some text → Presentable text ∧ commented key text) :
    Accounted options log' noun commented key ⟨key, desc⟩ where
  name_eq := rfl
  described := by
    cases exec_describe_eq_ok h with
    | inl h => exact .inl (hfound desc h.1)
    | inr h =>
      obtain ⟨_, hdesc, rfl⟩ := h
      exact .inr ⟨hdesc, List.mem_append_right _ (List.mem_singleton.2 rfl)⟩

theorem commentedEntry_of_resolve {entries : List (Entry Expr)} {entry : Entry Expr}
    (hmem : entry ∈ entries) {desc : String} (h : resolveComments entry.comments = some desc) :
    Presentable desc ∧ CommentedEntry entries entry.key desc := by
  obtain ⟨hpresentable, hcomment⟩ := resolveComments_eq_some h
  exact ⟨hpresentable, entry, hmem, rfl, hcomment⟩

theorem extractRecords_accounted {entries : List (Entry Expr)} {records : OrderedMap String Record}
    (h : (extractRecords noun entries).exec options log = (.ok records, log')) :
    ∀ e ∈ records.entries, Accounted options log' noun (CommentedEntry entries) e.1 e.2 := by
  unfold extractRecords at h
  apply exec_foldlM_eq_ok (I := fun records log =>
    ∀ e ∈ records.entries, Accounted options log noun (CommentedEntry entries) e.1 e.2) ?_ ?_ h
  . intro entry hmem records next log log' hrecords hnext
    obtain ⟨desc, mid, hdesc, hrest⟩ := exec_bind_eq_ok hnext
    cases hrest
    intro e he
    -- A record is the new one or was there before; one that is overwritten needs no account.
    cases OrderedMap.mem_entries_insert he with
    | inl he =>
      rw [he]
      exact accounted_of_describe hdesc (fun text => commentedEntry_of_resolve hmem)
    | inr he =>
      apply (hrecords e he).mono
      . intro problem
        exact (Reporting.describe _ _ _).mem_of_exec hdesc
      . intro key desc hcommented
        exact hcommented
  . intro e he
    cases he

theorem propRecord_accounted {entries : List (Entry Expr)} {entry : Entry Expr}
    (hmem : entry ∈ entries) {prop : PropRecord}
    (h : (propRecord entry).exec options log = (.ok prop, log')) :
    Accounted options log' "prop" (CommentedEntry entries) entry.key prop.summary ∧
      (prop.type = none → .missingType entry.key ∈ log') := by
  unfold propRecord at h
  obtain ⟨desc, mid, hdesc, h⟩ := exec_bind_eq_ok h
  have haccounted := accounted_of_describe hdesc (fun text => commentedEntry_of_resolve hmem)
  rw [exec_bind_of_ok exec_read] at h
  dsimp only at h
  split at h
  . next members _ =>
    split at h
    . obtain ⟨_, mid', hreport, h⟩ := exec_bind_eq_ok h
      cases h
      refine ⟨haccounted.mono ?_ (fun _ _ h => h), ?_⟩
      . intro problem
        exact (Reporting.report rfl).mem_of_exec hreport
      . intro _
        rw [exec_report] at hreport
        split at hreport
        . cases hreport
        . cases hreport
          exact List.mem_append_right _ (List.mem_singleton.2 rfl)
    . next htype =>
      cases h
      refine ⟨haccounted, ?_⟩
      intro hnone
      dsimp only at hnone
      rw [hnone] at htype
      exact absurd rfl htype
  . cases h
    refine ⟨haccounted, ?_⟩
    intro hnone
    cases hnone

theorem extractProps_accounted {value : Expr} {props : OrderedMap String PropRecord}
    (h : (extractProps value).exec options log = (.ok props, log')) :
    ∀ e ∈ props.entries,
      Accounted options log' "prop" (CommentedEntry (FieldKind.props.declarations value)) e.1
        e.2.summary ∧ (e.2.type = none → .missingType e.1 ∈ log') := by
  unfold extractProps at h
  split at h
  case h_2 => cases h
  case h_1 entries =>
  apply exec_foldlM_eq_ok (I := fun props log => ∀ e ∈ OrderedMap.entries props,
    Accounted options log "prop" (CommentedEntry entries) e.1 (PropRecord.summary e.2) ∧
      (PropRecord.type e.2 = none → .missingType e.1 ∈ log)) ?_ ?_ h
  . intro entry hmem props next log log' hprops hnext
    obtain ⟨prop, mid, hprop, hrest⟩ := exec_bind_eq_ok hnext
    cases hrest
    have hlog : ∀ problem ∈ log, problem ∈ log' := by
      intro problem
      exact (propRecord_reporting entry).mem_of_exec hprop
    intro e he
    cases OrderedMap.mem_entries_insert he with
    | inl he =>
      rw [he]
      exact propRecord_accounted hmem hprop
    | inr he =>
      obtain ⟨haccounted, htyped⟩ := hprops e he
      exact ⟨haccounted.mono hlog (fun _ _ h => h), fun hnone => hlog _ (htyped hnone)⟩
  . intro e he
    cases he

theorem extractMethods_accounted {value : Expr} {records : OrderedMap String Record}
    (h : (extractMethods value).exec options log = (.ok records, log')) :
    ∀ e ∈ records.entries,
      Accounted options log' "method" (CommentedEntry (FieldKind.methods.declarations value)) e.1
        e.2 := by
  unfold extractMethods at h
  split at h
  . exact extractRecords_accounted h
  . cases h

theorem extractData_accounted {value : Expr} {records : OrderedMap String Record}
    (h : (extractData value).exec options log = (.ok records, log')) :
    ∀ e ∈ records.entries,
      Accounted options log' "data" (CommentedEntry (FieldKind.data.declarations value)) e.1
        e.2 := by
  unfold extractData at h
  split at h
  . next body =>
    split at h
    . cases h
    . next entries hreturned =>
      dsimp only [FieldKind.declarations]
      rw [hreturned]
      exact extractRecords_accounted h
    . cases h
  . cases h

end Records

section Driver

variable {options : Options} {defaultExport : Option Expr} {fields : List (Entry Expr)}
variable {field : Entry Expr} {kind : FieldKind} {info info' : ScriptInfo}
variable {log log' : List Problem}

theorem commentedEntry_of_field (hfields : optionsObject defaultExport = .ok fields)
    (hmem : field ∈ fields) (hkind : FieldKind.ofKey? field.key = some kind) {key desc : String}
    (h : CommentedEntry (kind.declarations field.value) key desc) :
    CommentedEntry (declarations defaultExport kind) key desc := by
  obtain ⟨entry, hentry, hrest⟩ := h
  refine ⟨entry, ?_, hrest⟩
  unfold declarations
  rw [hfields]
  rw [List.mem_flatMap]
  refine ⟨field, ?_, hentry⟩
  rw [List.mem_filter]
  exact ⟨hmem, decide_eq_true hkind⟩

/--
The invariant of the loop over the options object.
-/
structure ScriptAccounted (options : Options) (defaultExport : Option Expr) (info : ScriptInfo)
    (log : List Problem) : Prop where
  props : ∀ records, info.props = some records → records.entries ≠ [] ∧
    ∀ e ∈ records.entries,
      Accounted options log "prop" (CommentedEntry (declarations defaultExport .props)) e.1
        e.2.summary ∧ (e.2.type = none → .missingType e.1 ∈ log)
  data : ∀ records, info.data = some records → records.entries ≠ [] ∧
    ∀ e ∈ records.entries,
      Accounted options log "data" (CommentedEntry (declarations defaultExport .data)) e.1 e.2
  methods : ∀ records, info.methods = some records → records.entries ≠ [] ∧
    ∀ e ∈ records.entries,
      Accounted options log "method" (CommentedEntry (declarations defaultExport .methods)) e.1 e.2

theorem ScriptAccounted.mono (h : ScriptAccounted options defaultExport info log)
    (hlog : ∀ problem ∈ log, problem ∈ log') : ScriptAccounted options defaultExport info log' where
  props records hrecords := by
    obtain ⟨hne, haccounted⟩ := h.props records hrecords
    refine ⟨hne, ?_⟩
    intro e he
    exact ⟨(haccounted e he).1.mono hlog (fun _ _ h => h),
      fun hnone => hlog _ ((haccounted e he).2 hnone)⟩
  data records hrecords := by
    obtain ⟨hne, haccounted⟩ := h.data records hrecords
    exact ⟨hne, fun e he => (haccounted e he).mono hlog (fun _ _ h => h)⟩
  methods records hrecords := by
    obtain ⟨hne, haccounted⟩ := h.methods records hrecords
    exact ⟨hne, fun e he => (haccounted e he).mono hlog (fun _ _ h => h)⟩

theorem extractField_accounted (hfields : optionsObject defaultExport = .ok fields)
    (hmem : field ∈ fields) (hkind : FieldKind.ofKey? field.key = some kind)
    (h : ScriptAccounted options defaultExport info log)
    (hexec : (extractField kind field.value info).exec options log = (.ok info', log')) :
    ScriptAccounted options defaultExport info' log' := by
  -- What is known of the other categories stays true, since the log only grows.
  have hmono := h.mono fun problem =>
    (extractField_reporting kind field.value info).mem_of_exec hexec
  have hcommented := @commentedEntry_of_field _ _ field kind hfields hmem hkind
  cases kind with
  | name =>
    dsimp only [extractField] at hexec
    split at hexec
    . cases hexec
      exact ⟨h.props, h.data, h.methods⟩
    . cases hexec
  | props =>
    obtain ⟨records, mid, hrecords, hrest⟩ := exec_bind_eq_ok hexec
    cases hrest
    refine ⟨?_, hmono.data, hmono.methods⟩
    intro records' hrecords'
    obtain ⟨rfl, hne⟩ := OrderedMap.nonEmpty?_eq_some hrecords'
    refine ⟨hne, ?_⟩
    intro e he
    obtain ⟨haccounted, htyped⟩ := extractProps_accounted hrecords e he
    exact ⟨haccounted.mono (fun _ h => h) (fun _ _ => hcommented), htyped⟩
  | methods =>
    obtain ⟨records, mid, hrecords, hrest⟩ := exec_bind_eq_ok hexec
    cases hrest
    refine ⟨hmono.props, hmono.data, ?_⟩
    intro records' hrecords'
    obtain ⟨rfl, hne⟩ := OrderedMap.nonEmpty?_eq_some hrecords'
    refine ⟨hne, ?_⟩
    intro e he
    exact (extractMethods_accounted hrecords e he).mono (fun _ h => h) (fun _ _ => hcommented)
  | data =>
    obtain ⟨records, mid, hrecords, hrest⟩ := exec_bind_eq_ok hexec
    cases hrest
    refine ⟨hmono.props, ?_, hmono.methods⟩
    intro records' hrecords'
    obtain ⟨rfl, hne⟩ := OrderedMap.nonEmpty?_eq_some hrecords'
    refine ⟨hne, ?_⟩
    intro e he
    exact (extractData_accounted hrecords e he).mono (fun _ h => h) (fun _ _ => hcommented)

theorem extractEntry_accounted (hfields : optionsObject defaultExport = .ok fields)
    (hmem : field ∈ fields) (h : ScriptAccounted options defaultExport info log)
    (hexec : (extractEntry info field).exec options log = (.ok info', log')) :
    ScriptAccounted options defaultExport info' log' := by
  cases hkind : FieldKind.ofKey? field.key with
  | none =>
    unfold extractEntry at hexec
    rw [hkind] at hexec
    cases hexec
    exact h
  | some kind =>
    rw [extractEntry_eq_orReport hkind, exec_orReport] at hexec
    split at hexec
    . next hfield =>
      cases hexec
      exact extractField_accounted hfields hmem hkind h hfield
    . next problem mid hfield =>
      split at hexec
      . cases hexec
      . cases hexec
        apply h.mono
        intro other hother
        apply List.mem_append_left
        exact (extractField_reporting kind field.value info).mem_of_exec hfield hother

theorem extractScript_accounted
    (h : (extractScript defaultExport).exec options [] = (.ok info, log)) :
    ScriptAccounted options defaultExport info log := by
  unfold extractScript at h
  split at h
  . next fields hfields =>
    apply exec_foldlM_eq_ok (I := ScriptAccounted options defaultExport) ?_ ?_ h
    . intro field hmem info info' log log' hinfo hnext
      exact extractEntry_accounted hfields hmem hinfo hnext
    . constructor
      . intro records hrecords
        cases hrecords
      . intro records hrecords
        cases hrecords
      . intro records hrecords
        cases hrecords
  . cases h

end Driver

section Template

variable {options : Options} {nodes : List Node} {slots slots' : Slots} {log log' : List Problem}

/--
The invariant of the loop over the slots of a template.
-/
def SlotsAccounted (options : Options) (nodes : List Node) (slots : Slots)
    (log : List Problem) : Prop :=
  ∀ records, slots = some records → records.entries ≠ [] ∧
    ∀ e ∈ records.entries, Accounted options log "slot" (CommentedSlot nodes) e.1 e.2

theorem addSlot_accounted {occurrence : SlotOccurrence}
    (hmem : occurrence ∈ SlotOccurrence.among none nodes)
    (h : SlotsAccounted options nodes slots log)
    (hexec : (occurrence.add slots).exec options log = (.ok slots', log')) :
    SlotsAccounted options nodes slots' log' := by
  obtain ⟨desc, mid, hdesc, hrest⟩ := exec_bind_eq_ok hexec
  cases hrest
  intro records hrecords
  cases hrecords
  refine ⟨OrderedMap.insertEntry_ne_nil _ _ _, ?_⟩
  intro e he
  cases OrderedMap.mem_entries_insert he with
  | inl he =>
    rw [he]
    apply accounted_of_describe hdesc
    intro text htext
    obtain ⟨hpresentable, hcomment⟩ := slotDescription_eq_some htext
    exact ⟨hpresentable, occurrence, hmem, rfl, hcomment⟩
  | inr he =>
    cases slots with
    | none => cases he
    | some found =>
      apply ((h found rfl).2 e he).mono
      . intro problem
        exact (Reporting.describe _ _ _).mem_of_exec hdesc
      . intro key desc hcommented
        exact hcommented

theorem extractSlots_accounted
    (h : (extractSlots nodes).exec options log = (.ok slots, log')) :
    SlotsAccounted options nodes slots log' := by
  rw [extractSlots_eq_foldlM] at h
  apply exec_foldlM_eq_ok (I := SlotsAccounted options nodes) ?_ ?_ h
  . intro occurrence hmem slots slots' log log' hslots hnext
    exact addSlot_accounted hmem hslots hnext
  . intro records hrecords
    cases hrecords

end Template

section Merge

variable {options : Options} {defaultExport : Option Expr} {nodes : List Node}
variable {info : ScriptInfo} {slots : Slots} {log : List Problem}

theorem recordsOf_accounted (hscript : ScriptAccounted options defaultExport info log)
    (hslots : SlotsAccounted options nodes slots log) {category : Category}
    {records : List (String × Record)}
    (h : (info.withSlots slots).recordsOf category = some records) :
    records ≠ [] ∧ (records.map Prod.fst).Nodup ∧
      ∀ key record, (key, record) ∈ records →
        Accounted options log category.noun (category.Commented defaultExport nodes) key
          record := by
  cases category with
  | props =>
    obtain ⟨props, hprops, rfl⟩ := Option.map_eq_some_iff.1 h
    obtain ⟨hne, haccounted⟩ := hscript.props props hprops
    refine ⟨by simpa using hne, ?_, ?_⟩
    . rw [List.map_map]
      exact props.nodup
    . intro key record hmem
      obtain ⟨e, he, heq⟩ := List.mem_map.1 hmem
      cases heq
      exact (haccounted e he).1
  | slots =>
    obtain ⟨found, hfound, rfl⟩ := Option.map_eq_some_iff.1 h
    obtain ⟨hne, haccounted⟩ := hslots found hfound
    exact ⟨hne, found.nodup, fun key record hmem => haccounted _ hmem⟩
  | data =>
    obtain ⟨data, hdata, rfl⟩ := Option.map_eq_some_iff.1 h
    obtain ⟨hne, haccounted⟩ := hscript.data data hdata
    exact ⟨hne, data.nodup, fun key record hmem => haccounted _ hmem⟩
  | methods =>
    obtain ⟨methods, hmethods, rfl⟩ := Option.map_eq_some_iff.1 h
    obtain ⟨hne, haccounted⟩ := hscript.methods methods hmethods
    exact ⟨hne, methods.nodup, fun key record hmem => haccounted _ hmem⟩

end Merge

theorem SlotsAccounted.mono {options : Options} {nodes : List Node} {slots : Slots}
    {log log' : List Problem} (h : SlotsAccounted options nodes slots log)
    (hlog : ∀ problem ∈ log, problem ∈ log') : SlotsAccounted options nodes slots log' := by
  intro records hrecords
  obtain ⟨hne, haccounted⟩ := h records hrecords
  exact ⟨hne, fun e he => (haccounted e he).mono hlog (fun _ _ h => h)⟩

theorem isGap_of_isTemplateParse {problem : Problem} (h : problem.isTemplateParse = true) :
    problem.isGap = false := by
  unfold Problem.isTemplateParse at h
  split at h
  . rfl
  . cases h

theorem strict_extraction_gapless {options : Options} (hstrict : options.strict = true)
    {defaultExport : Option Expr} {nodes : List Node} {info : ScriptInfo} {slots : Slots}
    {noted scriptLog templateLog : List Problem}
    (hscript : (extractScript defaultExport).exec options [] = (.ok info, scriptLog))
    (hnoted : ∀ problem ∈ noted, problem.isTemplateParse = true)
    (htemplate : (extractSlots nodes).exec options noted = (.ok slots, templateLog)) :
    ∀ problem ∈ scriptLog ++ templateLog, problem.isGap = false := by
  rw [(extractScript_reporting defaultExport).log_eq_of_strict hstrict hscript,
    (extractSlots_reporting nodes).log_eq_of_strict hstrict htemplate, List.nil_append]
  intro problem hmem
  exact isGap_of_isTemplateParse (hnoted problem hmem)

/--
Whatever the script and the template, if both passes succeed then what they declare is accounted
for. The template pass starts with what was noted while the template was read.
-/
theorem extraction_wellAccounted {options : Options} {defaultExport : Option Expr}
    {nodes : List Node} {info : ScriptInfo} {slots : Slots}
    {noted scriptLog templateLog : List Problem}
    (hscript : (extractScript defaultExport).complete options = .ok (info, scriptLog))
    (hnoted : ∀ problem ∈ noted, problem.isTemplateParse = true)
    (htemplate : (extractSlots nodes).exec options noted = (.ok slots, templateLog)) :
    WellAccounted options defaultExport nodes (info.withSlots slots)
      (scriptLog ++ templateLog) := by
  have hexec := exec_of_complete hscript
  have hinfo := (extractScript_accounted hexec).mono
    (fun problem => List.mem_append_left templateLog)
  have hslots := (extractSlots_accounted htemplate).mono
    (fun problem => List.mem_append_right scriptLog)
  have hgapless : options.strict = true →
      ∀ problem ∈ scriptLog ++ templateLog, problem.isGap = false := by
    intro hstrict
    exact strict_extraction_gapless hstrict hexec hnoted htemplate
  constructor
  case present =>
    intro category records hrecords
    obtain ⟨hne, hnodup, _⟩ := recordsOf_accounted hinfo hslots hrecords
    exact ⟨hne, hnodup⟩
  case accounted =>
    intro category records hrecords
    exact (recordsOf_accounted hinfo hslots hrecords).2.2
  case typed =>
    intro props hprops key prop hmem
    exact ((hinfo.props props hprops).2 _ hmem).2
  case strict_gapless => exact hgapless
  case strict_described =>
    intro hstrict category records hrecords key record hmem
    have haccounted := (recordsOf_accounted hinfo hslots hrecords).2.2 key record hmem
    cases haccounted.described with
    | inl h => exact h
    | inr h => cases hgapless hstrict _ h.2
  case strict_typed =>
    intro hstrict props hprops key prop hmem
    have htyped := ((hinfo.props props hprops).2 _ hmem).2
    cases htype : prop.type with
    | some type => rfl
    | none => cases hgapless hstrict _ (htyped htype)

/--
A prop without a type, a field of the wrong shape and a slot without a description, in a template
with a fault: each gap is in the log.
-/
theorem extraction_wellAccounted_gaps :
    WellAccounted {}
      (some (.object [
        ⟨"props", .object [⟨"size", .object [], "{}", [⟨"* size ", true⟩]⟩], "", []⟩,
        ⟨"data", .boolean true, "true", []⟩]))
      [.comment " icon ",
        .element "slot" [⟨"name", some "icon"⟩] [.element "slot" [] []]]
      { props := some ⟨[("size", ⟨"size", none, "size", none, none⟩)], by decide⟩
        slots := some ⟨[("icon", ⟨"icon", "icon"⟩), ("-", ⟨"-", "no description"⟩)], by decide⟩ }
      [.missingType "size", .malformed "data" "expected a function, found boolean",
        .parse .template 1 2, .missingDescription "slot" "-"] := by
  have hscript : (extractScript (some (.object [
        ⟨"props", .object [⟨"size", .object [], "{}", [⟨"* size ", true⟩]⟩], "", []⟩,
        ⟨"data", .boolean true, "true", []⟩]))).complete {} =
      .ok ({ props := some ⟨[("size", ⟨"size", none, "size", none, none⟩)], by decide⟩ },
        [.missingType "size", .malformed "data" "expected a function, found boolean"]) := by
    rfl
  have htemplate : (extractSlots [.comment " icon ",
        .element "slot" [⟨"name", some "icon"⟩] [.element "slot" [] []]]).exec {}
        [.parse .template 1 2] =
      (.ok (some ⟨[("icon", ⟨"icon", "icon"⟩), ("-", ⟨"-", "no description"⟩)], by decide⟩),
        [.parse .template 1 2, .missingDescription "slot" "-"]) := by
    rfl
  exact extraction_wellAccounted hscript (by decide) htemplate

end ComponentDoc
