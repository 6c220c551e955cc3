import ComponentDoc.Extract.Script
import ComponentDoc.Proofs.Extract.SlotOccurrence
import ComponentDoc.Proofs.Pass

/-!
The extractors only report: none of them notes a problem, and none of them looks at the mode.
-/

namespace ComponentDoc

open Pass Script Markup

theorem propRecord_reporting (entry : Entry Expr) : Reporting (propRecord entry) := by
  unfold propRecord
  apply Reporting.bind (Reporting.describe _ _ _)
  intro desc
  apply Reporting.read_bind
  . intro options
    cases entry.value with
    | object members =>
      dsimp only
      split
      . exact Reporting.bind (Reporting.report rfl) (fun _ => Reporting.pure _)
      . exact Reporting.pure _
    | _ => exact Reporting.pure _
  . intro options
    rfl

theorem extractProps_reporting (value : Expr) : Reporting (extractProps value) := by
  unfold extractProps
  split
  . apply Reporting.foldlM
    intro props entry
    exact Reporting.bind (propRecord_reporting entry) (fun _ => Reporting.pure _)
  . exact Reporting.throw rfl

theorem extractRecords_reporting (category : String) (entries : List (Entry Expr)) :
    Reporting (extractRecords category entries) := by
  apply Reporting.foldlM
  intro records entry
  exact Reporting.bind (Reporting.describe _ _ _) (fun _ => Reporting.pure _)

theorem extractMethods_reporting (value : Expr) : Reporting (extractMethods value) := by
  unfold extractMethods
  split
  . exact extractRecords_reporting _ _
  . exact Reporting.throw rfl

theorem extractData_reporting (value : Expr) : Reporting (extractData value) := by
  unfold extractData
  split
  . split
    . exact Reporting.throw rfl
    . exact extractRecords_reporting _ _
    . exact Reporting.throw rfl
  . exact Reporting.throw rfl

theorem extractName_error {value : Expr} {problem : Problem}
    (h : extractName value = .error problem) : problem.isTemplateParse = false := by
  unfold extractName at h
  split at h
  . cases h
  . cases h
    rfl

theorem extractField_reporting (kind : FieldKind) (value : Expr) (info : ScriptInfo) :
    Reporting (extractField kind value info) := by
  cases kind with
  | name =>
    dsimp only [extractField]
    split
    . exact Reporting.pure _
    . next problem h => exact Reporting.throw (extractName_error h)
  | props => exact Reporting.bind (extractProps_reporting value) (fun _ => Reporting.pure _)
  | methods => exact Reporting.bind (extractMethods_reporting value) (fun _ => Reporting.pure _)
  | data => exact Reporting.bind (extractData_reporting value) (fun _ => Reporting.pure _)

theorem extractEntry_eq_orReport {kind : FieldKind} {entry : Entry Expr}
    (h : FieldKind.ofKey? entry.key = some kind) (info : ScriptInfo) :
    extractEntry info entry = (extractField kind entry.value info).orReport info := by
  unfold extractEntry orReport
  rw [h]
  dsimp only
  congr 1
  funext outcome
  cases outcome with
  | ok => rfl
  | error => rfl

theorem extractEntry_reporting (info : ScriptInfo) (entry : Entry Expr) :
    Reporting (extractEntry info entry) := by
  cases h : FieldKind.ofKey? entry.key with
  | none =>
    unfold extractEntry
    rw [h]
    exact Reporting.pure info
  | some kind =>
    rw [extractEntry_eq_orReport h]
    exact Reporting.orReport (extractField_reporting kind entry.value info) info

theorem extractEntry_tolerant (info : ScriptInfo) (entry : Entry Expr) (options : Options) :
    ∃ info', ((extractEntry info entry).tolerant options).1 = .ok info' := by
  cases h : FieldKind.ofKey? entry.key with
  | none =>
    unfold extractEntry
    rw [h]
    exact ⟨info, rfl⟩
  | some kind =>
    rw [extractEntry_eq_orReport h, tolerant_orReport]
    split
    . exact ⟨_, rfl⟩
    . exact ⟨_, rfl⟩

theorem optionsObject_error {defaultExport : Option Expr} {problem : Problem}
    (h : optionsObject defaultExport = .error problem) : problem.isTemplateParse = false := by
  unfold optionsObject at h
  split at h
  . cases h
    rfl
  . cases h
  . cases h
  . cases h
    rfl
  . cases h
    rfl

theorem extractScript_reporting (defaultExport : Option Expr) :
    Reporting (extractScript defaultExport) := by
  unfold extractScript
  split
  . exact Reporting.foldlM extractEntry_reporting _ _
  . next problem h => exact Reporting.throw (optionsObject_error h)

/--
A script with an options object stops no tolerant pass: what stops the extractor of a field is
reported.
-/
theorem extractScript_tolerant {defaultExport : Option Expr} {entries : List (Entry Expr)}
    (h : optionsObject defaultExport = .ok entries) (options : Options) :
    ∃ info, ((extractScript defaultExport).tolerant options).1 = .ok info := by
  unfold extractScript
  rw [h]
  apply Reporting.foldlM_tolerant extractEntry_reporting
  intro info entry
  exact extractEntry_tolerant info entry options

theorem addSlot_reporting (before : Option Node) (attributes : List Attribute) (slots : Slots) :
    Reporting (addSlot before attributes slots) :=
  Reporting.bind (Reporting.describe _ _ _) (fun _ => Reporting.pure _)

theorem extractSlots_reporting (nodes : List Node) : Reporting (extractSlots nodes) := by
  rw [extractSlots_eq_foldlM]
  apply Reporting.foldlM
  intro slots occurrence
  exact addSlot_reporting _ _ slots

theorem addSlot_tolerant (before : Option Node) (attributes : List Attribute) (slots : Slots)
    (options : Options) : ∃ found, ((addSlot before attributes slots).tolerant options).1 =
      .ok found := by
  unfold addSlot
  rw [Reporting.tolerant_bind (fun _ => Reporting.pure _)]
  cases slotDescription before with
  | some text => exact ⟨_, rfl⟩
  | none => exact ⟨_, rfl⟩

/--
A template whose slots lack descriptions stops no tolerant pass.
-/
theorem extractSlots_tolerant (nodes : List Node) (options : Options) :
    ∃ slots, ((extractSlots nodes).tolerant options).1 = .ok slots := by
  rw [extractSlots_eq_foldlM]
  apply Reporting.foldlM_tolerant
  . intro slots occurrence
    exact addSlot_reporting _ _ slots
  . intro slots occurrence
    exact addSlot_tolerant _ _ slots options

end ComponentDoc
