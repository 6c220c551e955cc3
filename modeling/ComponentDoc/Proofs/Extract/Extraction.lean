import ComponentDoc.Document
import ComponentDoc.Proofs.Extract.Accounted

/-!
What a successful extraction is made of: the outcome of each section that is there. A category is
absent or has records.
-/

namespace ComponentDoc

open Pass

variable {text : String} {options : Options} {extraction : Extraction}

/--
Whether a script section gives some information: it is absent and gives none, or its default
export was extracted.
-/
def ScriptGives (script : Option ScriptSection) (options : Options) (info : ScriptInfo) : Prop :=
  script = none ∧ info = {} ∨
    ∃ source defaultExport log, script = some source ∧
      Script.parseModule source.dialect source.text = .ok defaultExport ∧
      (extractScript defaultExport).exec options [] = (.ok info, log)

/--
Whether slots are those of a template: there are none, or they were extracted from its nodes.
-/
def TemplateGives (options : Options) (slots : Slots) : Prop :=
  slots = none ∨ ∃ nodes noted log, (extractSlots nodes).exec options noted = (.ok slots, log)

theorem scriptGives_of_pass {script : Option ScriptSection} {info : ScriptInfo}
    {log : List Problem} (h : scriptPass script options = .ok (info, log)) :
    ScriptGives script options info := by
  cases script with
  | none =>
    cases h
    exact .inl ⟨rfl, rfl⟩
  | some source =>
    unfold scriptPass at h
    dsimp only at h
    cases hparse : Script.parseModule source.dialect source.text with
    | error problem =>
      rw [hparse] at h
      cases h
    | ok defaultExport =>
      rw [hparse] at h
      exact .inr ⟨source, defaultExport, log, rfl, hparse, exec_of_complete h⟩

theorem templateGives_of_pass {template : Option String} {slots : Slots} {log : List Problem}
    (h : templatePass template options = .ok (slots, log)) : TemplateGives options slots := by
  cases template with
  | none =>
    cases h
    exact .inl rfl
  | some source =>
    obtain ⟨nodes, noted, _, hslots⟩ := exec_bind_eq_ok (exec_of_complete h)
    exact .inr ⟨nodes, noted, log, hslots⟩

theorem extract_eq_ok (h : extract text options = .ok extraction) :
    ∃ info slots, extraction.info = info.withSlots slots ∧
      ScriptGives (Sections.ofSource text).script options info ∧ TemplateGives options slots := by
  unfold extract Sections.extract at h
  cases hscript : scriptPass (Sections.ofSource text).script options with
  | error problem =>
    rw [hscript] at h
    cases h
  | ok scriptOutcome =>
    cases htemplate : templatePass (Sections.ofSource text).template options with
    | error problem =>
      rw [hscript, htemplate] at h
      cases h
    | ok templateOutcome =>
      rw [hscript, htemplate] at h
      cases h
      exact ⟨_, _, rfl, scriptGives_of_pass hscript, templateGives_of_pass htemplate⟩

/--
The categories that are present have records.
-/
structure ComponentInfo.Settled (info : ComponentInfo) : Prop where
  props : ∀ records, info.props = some records → records.isEmpty = false
  data : ∀ records, info.data = some records → records.isEmpty = false
  slots : ∀ records, info.slots = some records → records.isEmpty = false
  methods : ∀ records, info.methods = some records → records.isEmpty = false

theorem isEmpty_eq_false {α β : Type} {records : OrderedMap α β} (h : records.entries ≠ []) :
    records.isEmpty = false := by
  unfold OrderedMap.isEmpty
  simpa using h

theorem settled_of_extract (h : extract text options = .ok extraction) :
    extraction.info.Settled := by
  obtain ⟨info, slots, hinfo, hscript, htemplate⟩ := extract_eq_ok h
  rw [hinfo]
  have hslots : ∀ records, slots = some records → records.isEmpty = false := by
    intro records hrecords
    rcases htemplate with rfl | ⟨nodes, noted, log, hexec⟩
    . cases hrecords
    . exact isEmpty_eq_false (extractSlots_accounted hexec records hrecords).1
  rcases hscript with ⟨_, rfl⟩ | ⟨source, defaultExport, log, _, _, hexec⟩
  . exact ⟨nofun, nofun, hslots, nofun⟩
  . have haccounted := extractScript_accounted hexec
    constructor
    . intro records hrecords
      exact isEmpty_eq_false (haccounted.props records hrecords).1
    . intro records hrecords
      exact isEmpty_eq_false (haccounted.data records hrecords).1
    . exact hslots
    . intro records hrecords
      exact isEmpty_eq_false (haccounted.methods records hrecords).1

end ComponentDoc
