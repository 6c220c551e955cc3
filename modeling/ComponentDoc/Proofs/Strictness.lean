import ComponentDoc.Document
import ComponentDoc.Proofs.Extract.Reporting
import ComponentDoc.Proofs.Faults

/-!
Strict mode is tolerant mode that stops at the first problem. A strict extraction is the tolerant
one, unless that has a warning which is not about the grammar of the template; then it is the
first such warning, as a failure.
-/

namespace ComponentDoc

open Pass Markup

variable {α : Type}

/--
A result with its log, unless a strict pass would have stopped at a problem of the log.
-/
def enforce (log : List Problem) (a : α) : Except Problem α :=
  match log.find? (fun problem => !problem.isTemplateParse) with
  | none => .ok a
  | some problem => .error problem

theorem enforce_of_noted {log : List Problem}
    (h : ∀ problem ∈ log, problem.isTemplateParse = true) (a : α) : enforce log a = .ok a := by
  have hnone : log.find? (fun problem => !problem.isTemplateParse) = none := by
    rw [List.find?_eq_none]
    intro problem hmem
    simp [h problem hmem]
  unfold enforce
  rw [hnone]

theorem enforce_append (log more : List Problem) (a : α) :
    enforce (log ++ more) a = (do enforce log (); enforce more a) := by
  unfold enforce
  rw [List.find?_append]
  cases log.find? (fun problem => !problem.isTemplateParse) with
  | none => rfl
  | some problem => rfl

theorem enforce_cons_of_reported {problem : Problem} (h : problem.isTemplateParse = false)
    (log : List Problem) (a : α) : enforce (problem :: log) a = .error problem := by
  unfold enforce
  rw [List.find?_cons_of_pos (by simp [h])]

namespace Pass

/--
The outcome of a run: the result with the log, or the problem that stopped it.
-/
def settle (outcome : Except Problem α × List Problem) : Except Problem (α × List Problem) :=
  match outcome with
  | (.ok a, log) => .ok (a, log)
  | (.error problem, _) => .error problem

theorem complete_eq_settle (p : Pass α) (options : Options) :
    p.complete options = settle (p.exec options []) :=
  rfl

/--
On a log of mere notes, a pass that only reports and does not fail in tolerant mode ends in
strict mode as its tolerant log says.
-/
theorem Reporting.settle_strict {p : Pass α} (hp : Reporting p) {options : Options}
    (hok : ∃ a, (p.tolerant options).1 = .ok a) {noted : List Problem}
    (hnoted : ∀ problem ∈ noted, problem.isTemplateParse = true) :
    settle (p.exec { options with strict := true } noted) =
      (do
        let outcome ← settle (p.exec { options with strict := false } noted)
        enforce outcome.2 outcome) := by
  obtain ⟨a, ha⟩ := hok
  have hlogged := hp.logged options
  have hstrict : p.exec { options with strict := true } noted =
      replay true noted (p.tolerant options) := hp.exec_eq _ _
  rw [hstrict, hp.exec_tolerant options noted]
  cases htol : p.tolerant options with
  | mk result problems =>
    rw [htol] at ha hlogged
    dsimp only at ha hlogged
    subst ha
    cases problems with
    | nil =>
      rw [replay_nil]
      change Except.ok (a, noted) = enforce (noted ++ []) (a, noted ++ [])
      rw [List.append_nil, enforce_of_noted hnoted]
    | cons problem problems =>
      have hproblem := hlogged problem List.mem_cons_self
      change Except.error problem = enforce (noted ++ problem :: problems) _
      rw [enforce_append, enforce_of_noted hnoted, enforce_cons_of_reported hproblem]
      rfl

end Pass

theorem parseTemplate_exec (text : String) :
    ∃ nodes noted, (∀ problem ∈ noted, Problem.isTemplateParse problem = true) ∧
      ∀ options log, (parseTemplate text).exec options log = (.ok nodes, log ++ noted) := by
  refine ⟨_, _, ?_, exec_parseTemplate text⟩
  intro problem h
  obtain ⟨u, -, rfl⟩ := Option.map_eq_some_iff.1 (Option.mem_toList.1 h)
  rfl

theorem templatePass_exec (text : String) :
    ∃ nodes noted, (∀ problem ∈ noted, Problem.isTemplateParse problem = true) ∧
      ∀ options, templatePass (some text) options =
        settle ((extractSlots nodes).exec options noted) := by
  obtain ⟨nodes, noted, hnoted, hexec⟩ := parseTemplate_exec text
  refine ⟨nodes, noted, hnoted, ?_⟩
  intro options
  unfold templatePass
  dsimp only
  rw [complete_eq_settle, exec_bind_of_ok (hexec options []), List.nil_append]

theorem extractScript_complete_strict (defaultExport : Option Script.Expr) (options : Options) :
    (extractScript defaultExport).complete { options with strict := true } =
      (do
        let outcome ← (extractScript defaultExport).complete { options with strict := false }
        enforce outcome.2 outcome) := by
  cases h : optionsObject defaultExport with
  | error problem =>
    -- Nothing was reported before this, so both modes stop here.
    unfold extractScript
    rw [h]
    rfl
  | ok entries =>
    apply (extractScript_reporting defaultExport).settle_strict
    . exact extractScript_tolerant h options
    . intro problem hmem
      cases hmem

theorem templatePass_strict (template : Option String) (options : Options) :
    templatePass template { options with strict := true } =
      (do
        let outcome ← templatePass template { options with strict := false }
        enforce outcome.2 outcome) := by
  cases template with
  | none => rfl
  | some text =>
    obtain ⟨nodes, noted, hnoted, htemplate⟩ := templatePass_exec text
    rw [htemplate, htemplate]
    exact (extractSlots_reporting nodes).settle_strict (extractSlots_tolerant nodes options) hnoted

theorem templatePass_tolerant (template : Option String) (options : Options) :
    ∃ outcome, templatePass template { options with strict := false } = .ok outcome := by
  cases template with
  | none => exact ⟨_, rfl⟩
  | some text =>
    obtain ⟨nodes, noted, _, htemplate⟩ := templatePass_exec text
    obtain ⟨slots, hslots⟩ := extractSlots_tolerant nodes options
    rw [htemplate, (extractSlots_reporting nodes).exec_tolerant, hslots]
    exact ⟨_, rfl⟩

theorem scriptPass_strict (script : Option ScriptSection) (options : Options) :
    scriptPass script { options with strict := true } =
      (do
        let outcome ← scriptPass script { options with strict := false }
        enforce outcome.2 outcome) := by
  cases script with
  | none => rfl
  | some script =>
    unfold scriptPass
    dsimp only
    cases Script.parseModule script.dialect script.text with
    | error problem => rfl
    | ok defaultExport => exact extractScript_complete_strict defaultExport options

theorem Sections.extract_strict (sections : Sections) (options : Options) :
    sections.extract { options with strict := true } =
      (do
        let extraction ← sections.extract { options with strict := false }
        enforce extraction.warnings extraction) := by
  unfold Sections.extract
  rw [scriptPass_strict, templatePass_strict]
  obtain ⟨template, htemplate⟩ := templatePass_tolerant sections.template options
  rw [htemplate]
  cases scriptPass sections.script { options with strict := false } with
  | error problem => rfl
  | ok script =>
    change _ = enforce (script.2 ++ template.2) (Extraction.mk _ _)
    rw [enforce_append]
    -- The strict run enforces the two logs one after the other, which is to enforce both joined.
    change (enforce script.2 script >>= fun script =>
      enforce template.2 template >>= fun template => Except.ok (Extraction.mk _ _)) = _
    unfold enforce
    cases script.2.find? (fun problem => !problem.isTemplateParse) with
    | some problem => rfl
    | none =>
      cases template.2.find? (fun problem => !problem.isTemplateParse) with
      | some problem => rfl
      | none => rfl

theorem Sections.extract_warnings (sections : Sections) (options : Options) :
    Extraction.warnings <$> sections.extract options =
      (do
        let script ← scriptPass sections.script options
        let template ← templatePass sections.template options
        return script.2 ++ template.2) := by
  unfold Sections.extract
  cases scriptPass sections.script options with
  | error problem => rfl
  | ok script =>
    cases templatePass sections.template options with
    | error problem => rfl
    | ok template => rfl

/--
A strict extraction of sections, and of a component file, is the tolerant extraction with its
warnings enforced, those about the script before those about the template. In particular a
failure in tolerant mode is the same failure in strict mode.
-/
theorem strict_extraction_eq_enforced (options : Options) :
    (∀ sections : Sections,
      sections.extract { options with strict := true } =
        (do
          let extraction ← sections.extract { options with strict := false }
          enforce extraction.warnings extraction) ∧
      Extraction.warnings <$> sections.extract { options with strict := false } =
        (do
          let script ← scriptPass sections.script { options with strict := false }
          let template ← templatePass sections.template { options with strict := false }
          return script.2 ++ template.2)) ∧
    (∀ text : String,
      extract text { options with strict := true } =
        (do
          let extraction ← extract text { options with strict := false }
          enforce extraction.warnings extraction)) := by
  constructor
  . intro sections
    exact ⟨sections.extract_strict options, sections.extract_warnings _⟩
  . intro text
    exact (Sections.ofSource text).extract_strict options

end ComponentDoc
