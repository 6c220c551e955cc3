import ComponentDoc.Proofs.Extract.Entries

/-!
Runs of operations on one pass, which goes on after an operation that failed. Every operation only
appends to the log, and one that fails leaves it as it was: an extractor that can fail looks at the
shape of what it is given before it reports anything. So the log of a strict pass holds what was
noted and nothing else, and a tolerant pass is stopped by a wrong shape only.
-/

namespace ComponentDoc

open Pass Script Markup

namespace Pass

variable {α : Type} {options : Options} {log : List Problem}

/--
A pass whose result is of no interest.
-/
def dropResult (p : Pass α) : Pass Unit := do
  let _ ← p

theorem exec_dropResult (p : Pass α) :
    p.dropResult.exec options log =
      ((p.exec options log).1.map fun _ => (), (p.exec options log).2) := by
  unfold dropResult
  rw [exec_bind]
  cases p.exec options log with
  | mk result log =>
    cases result with
    | ok => rfl
    | error => rfl

theorem tolerant_dropResult {p : Pass α} (h : ∃ a, (p.tolerant options).1 = .ok a) :
    (p.dropResult.tolerant options).1 = .ok () := by
  obtain ⟨a, ha⟩ := h
  unfold tolerant at ha ⊢
  rw [exec_dropResult, ha]
  rfl

namespace Reporting

theorem dropResult {p : Pass α} (hp : Reporting p) : Reporting p.dropResult :=
  bind hp (fun _ => pure ())

theorem log_strict {p : Pass α} (hp : Reporting p) (hstrict : options.strict = true)
    (log : List Problem) : (p.exec options log).2 = log := by
  rw [hp.exec_eq, hstrict]
  cases p.tolerant options with
  | mk result problems =>
    cases problems with
    | nil => rw [replay_nil]
    | cons problem problems => rfl

/--
A pass that a tolerant run completes fails in strict mode only, and then leaves the log alone.
-/
theorem log_eq_of_error {p : Pass α} (hp : Reporting p)
    (hok : ∃ a, (p.tolerant options).1 = .ok a) {problem : Problem}
    (h : (p.exec options log).1 = .error problem) : (p.exec options log).2 = log := by
  apply hp.log_strict
  obtain ⟨a, ha⟩ := hok
  rw [hp.exec_eq] at h
  cases hmode : options.strict with
  | true => rfl
  | false =>
    rw [hmode] at h
    dsimp only [replay] at h
    rw [ha] at h
    cases h

theorem describe_tolerant (category key : String) (found : Option String) (options : Options) :
    ∃ text, ((Pass.describe category key found).tolerant options).1 = .ok text := by
  cases found with
  | some text => exact ⟨text, rfl⟩
  | none => exact ⟨options.noDescription, rfl⟩

end Reporting

end Pass

theorem extractRecords_tolerant (category : String) (entries : List (Entry Expr))
    (options : Options) :
    ∃ records, ((extractRecords category entries).tolerant options).1 = .ok records := by
  unfold tolerant
  rw [exec_extractRecords rfl]
  exact ⟨_, rfl⟩

theorem extractProps_tolerant (entries : List (Entry Expr)) (options : Options) :
    ∃ props, ((extractProps (.object entries)).tolerant options).1 = .ok props := by
  unfold tolerant
  rw [exec_extractProps rfl]
  exact ⟨_, rfl⟩

/--
An operation on a pass, with its arguments.
-/
inductive Operation where
  | report (problem : Problem)
  | note (problem : Problem)
  | describe (category key : String) (found : Option String)
  | props (value : Expr)
  | data (value : Expr)
  | methods (value : Expr)
  | slots (nodes : List Node)
  | script (defaultExport : Option Expr)

namespace Operation

def run : Operation → Pass Unit
  | .report problem => Pass.report problem
  | .note problem => Pass.note problem
  | .describe category key found => (Pass.describe category key found).dropResult
  | .props value => (extractProps value).dropResult
  | .data value => (extractData value).dropResult
  | .methods value => (extractMethods value).dropResult
  | .slots nodes => (extractSlots nodes).dropResult
  | .script defaultExport => (extractScript defaultExport).dropResult

/--
Whether the argument of an operation has a shape that the operation takes.
-/
def Accepted : Operation → Prop
  | .props value => ∃ entries, value = .object entries
  | .methods value => ∃ entries, value = .object entries
  | .data value => ∃ body entries, value = .function body ∧ body.returned = some (.object entries)
  | .script defaultExport => ∃ entries, defaultExport = some (.object entries) ∨
      ∃ callee args, defaultExport = some (.call callee (.object entries :: args))
  | _ => True

/--
What the problem is about when the shape is wrong.
-/
def field? : Operation → Option String
  | .props _ => some "props"
  | .methods _ => some "methods"
  | .data _ => some "data"
  | .script _ => some "export default"
  | _ => none

def noted? : Operation → Option Problem
  | .note problem => some problem
  | _ => none

theorem accepted_or_throw (operation : Operation) :
    operation.Accepted ∨ ∃ field reason, operation.field? = some field ∧
      operation.run = (throw (.malformed field reason) : Pass Unit) := by
  cases operation with
  | report => exact Or.inl trivial
  | note => exact Or.inl trivial
  | describe => exact Or.inl trivial
  | slots => exact Or.inl trivial
  | props value =>
    cases value with
    | object entries => exact Or.inl ⟨entries, rfl⟩
    | _ => exact Or.inr ⟨_, _, rfl, rfl⟩
  | methods value =>
    cases value with
    | object entries => exact Or.inl ⟨entries, rfl⟩
    | _ => exact Or.inr ⟨_, _, rfl, rfl⟩
  | data value =>
    cases value with
    | function body =>
      dsimp only [Accepted, run, extractData]
      split
      . exact Or.inr ⟨_, _, rfl, rfl⟩
      . next entries hreturned => exact Or.inl ⟨body, entries, rfl, hreturned⟩
      . exact Or.inr ⟨_, _, rfl, rfl⟩
    | _ => exact Or.inr ⟨_, _, rfl, rfl⟩
  | script defaultExport =>
    dsimp only [Accepted, run, extractScript, optionsObject]
    split
    . next entries h =>
      split at h
      . cases h
      . next => exact Or.inl ⟨_, Or.inl rfl⟩
      . next => exact Or.inl ⟨_, Or.inr ⟨_, _, rfl⟩⟩
      . cases h
      . cases h
    . next problem h =>
      split at h
      . cases h
        exact Or.inr ⟨_, _, rfl, rfl⟩
      . cases h
      . cases h
      . cases h
        exact Or.inr ⟨_, _, rfl, rfl⟩
      . cases h
        exact Or.inr ⟨_, _, rfl, rfl⟩

/--
Whether an operation extracts or describes, and so only reports.
-/
def isExtraction : Operation → Bool
  | .report _ => false
  | .note _ => false
  | _ => true

theorem run_reporting {operation : Operation} (h : operation.isExtraction = true) :
    Reporting operation.run := by
  cases operation with
  | report => cases h
  | note => cases h
  | describe category key found => exact (Reporting.describe category key found).dropResult
  | props value => exact (extractProps_reporting value).dropResult
  | data value => exact (extractData_reporting value).dropResult
  | methods value => exact (extractMethods_reporting value).dropResult
  | slots nodes => exact (extractSlots_reporting nodes).dropResult
  | script defaultExport => exact (extractScript_reporting defaultExport).dropResult

theorem run_tolerant {operation : Operation} (h : operation.Accepted) (options : Options) :
    (operation.run.tolerant options).1 = .ok () := by
  cases operation with
  | report => rfl
  | note => rfl
  | describe category key found =>
    exact tolerant_dropResult (Reporting.describe_tolerant category key found options)
  | slots nodes => exact tolerant_dropResult (extractSlots_tolerant nodes options)
  | props value =>
    obtain ⟨entries, rfl⟩ := h
    exact tolerant_dropResult (extractProps_tolerant entries options)
  | methods value =>
    obtain ⟨entries, rfl⟩ := h
    exact tolerant_dropResult (extractRecords_tolerant "method" entries options)
  | data value =>
    obtain ⟨body, entries, rfl, hreturned⟩ := h
    apply tolerant_dropResult
    dsimp only [extractData]
    rw [hreturned]
    exact extractRecords_tolerant "data" entries options
  | script defaultExport =>
    obtain ⟨entries, hentries⟩ := h
    have hoptions : optionsObject defaultExport = .ok entries := by
      cases hentries with
      | inl h => rw [h, optionsObject]
      | inr h =>
        obtain ⟨callee, args, h⟩ := h
        rw [h, optionsObject]
    exact tolerant_dropResult (extractScript_tolerant hoptions options)

/--
What an operation does on a log.
-/
structure Settles (options : Options) (operation : Operation) (log : List Problem) : Prop where
  appends : log <+: (operation.run.exec options log).2
  atomic : ∀ problem, (operation.run.exec options log).1 = .error problem →
    (operation.run.exec options log).2 = log
  completes : options.strict = false → operation.Accepted →
    (operation.run.exec options log).1 = .ok ()
  refuses : options.strict = false → ∀ problem,
    (operation.run.exec options log).1 = .error problem →
      ∃ field reason, operation.field? = some field ∧ problem = .malformed field reason

theorem settles_of_throw {options : Options} {operation : Operation} {field reason : String}
    (hfield : operation.field? = some field)
    (hrun : operation.run = (throw (.malformed field reason) : Pass Unit)) (log : List Problem) :
    Settles options operation log where
  appends := by
    simp only [hrun, exec_throw, List.prefix_refl]
  atomic problem _ := by
    rw [hrun, exec_throw]
  completes _ haccepted := by
    have hok := run_tolerant haccepted options
    rw [hrun] at hok
    cases hok
  refuses _ problem h := by
    rw [hrun, exec_throw] at h
    cases h
    exact ⟨field, reason, hfield, rfl⟩

theorem settles_of_reporting {options : Options} {operation : Operation}
    (hreporting : Reporting operation.run) (haccepted : operation.Accepted)
    (log : List Problem) : Settles options operation log where
  appends := by
    obtain ⟨more, hmore⟩ := hreporting.exec_append options log
    rw [hmore]
    exact List.prefix_append log more
  atomic problem h := hreporting.log_eq_of_error ⟨(), run_tolerant haccepted options⟩ h
  completes hmode _ := by
    rw [hreporting.exec_eq, hmode]
    exact run_tolerant haccepted options
  refuses hmode problem h := by
    rw [hreporting.exec_eq, hmode] at h
    dsimp only [replay] at h
    rw [run_tolerant haccepted options] at h
    cases h

theorem settles_report (options : Options) (problem : Problem) (log : List Problem) :
    Settles options (.report problem) log := by
  cases hmode : options.strict with
  | true =>
    have hexec : (run (.report problem)).exec options log = (.error problem, log) := by
      rw [run, exec_report, if_pos hmode]
    refine ⟨?_, ?_, ?_, ?_⟩
    . simp only [hexec, List.prefix_refl]
    . intro _ _
      rw [hexec]
    . intro htolerant
      rw [hmode] at htolerant
      cases htolerant
    . intro htolerant
      rw [hmode] at htolerant
      cases htolerant
  | false =>
    have hexec : (run (.report problem)).exec options log = (.ok (), log ++ [problem]) := by
      rw [run, exec_report, hmode, if_neg Bool.false_ne_true]
    refine ⟨?_, ?_, ?_, ?_⟩
    . rw [hexec]
      exact List.prefix_append _ _
    . intro _ h
      rw [hexec] at h
      cases h
    . intro _ _
      rw [hexec]
    . intro _ _ h
      rw [hexec] at h
      cases h

theorem settles_note (options : Options) (problem : Problem) (log : List Problem) :
    Settles options (.note problem) log where
  appends := List.prefix_append log [problem]
  atomic _ h := by
    cases h
  completes _ _ := rfl
  refuses _ _ h := by
    cases h

theorem settles (options : Options) (operation : Operation) (log : List Problem) :
    Settles options operation log := by
  cases operation.accepted_or_throw with
  | inr h =>
    obtain ⟨field, reason, hfield, hrun⟩ := h
    exact settles_of_throw hfield hrun log
  | inl haccepted =>
    cases operation with
    | report problem => exact settles_report options problem log
    | note problem => exact settles_note options problem log
    | _ => exact settles_of_reporting (run_reporting rfl) haccepted log

theorem log_strict {options : Options} (hstrict : options.strict = true) (operation : Operation)
    (log : List Problem) :
    (operation.run.exec options log).2 = log ++ operation.noted?.toList := by
  cases operation with
  | note problem => rfl
  | report problem =>
    rw [run, exec_report, if_pos hstrict]
    exact (List.append_nil log).symm
  | _ =>
    rw [(run_reporting rfl).log_strict hstrict]
    exact (List.append_nil log).symm

/--
The log after a run of operations on one pass, whatever becomes of each of them.
-/
def logAfter (options : Options) (log : List Problem) (operations : List Operation) :
    List Problem :=
  operations.foldl (fun log operation => (operation.run.exec options log).2) log

theorem logAfter_concat (options : Options) (log : List Problem) (before : List Operation)
    (operation : Operation) :
    logAfter options log (before ++ [operation]) =
      (operation.run.exec options (logAfter options log before)).2 := by
  unfold logAfter
  rw [List.foldl_append]
  rfl

theorem logAfter_strict {options : Options} (hstrict : options.strict = true)
    (operations : List Operation) (log : List Problem) :
    logAfter options log operations = log ++ operations.filterMap noted? := by
  induction operations generalizing log with
  | nil => exact (List.append_nil log).symm
  | cons operation operations ih =>
    change logAfter options (operation.run.exec options log).2 operations = _
    rw [ih, log_strict hstrict, List.append_assoc]
    congr 1
    cases h : operation.noted? with
    | none =>
      rw [List.filterMap_cons_none h]
      rfl
    | some problem =>
      rw [List.filterMap_cons_some h]
      rfl

/--
In a run of operations each one settles on the log that those before it left, and the log that it
leaves is the one the next finds. At the end the log of a strict pass is what it was at the start
and what was noted since.
-/
theorem run_settles (options : Options) (log : List Problem) (operations : List Operation) :
    (∀ before operation after, operations = before ++ operation :: after →
      logAfter options log (before ++ [operation]) =
        (operation.run.exec options (logAfter options log before)).2 ∧
      Settles options operation (logAfter options log before)) ∧
    (options.strict = true →
      logAfter options log operations = log ++ operations.filterMap noted?) := by
  constructor
  . intro before operation after _
    exact ⟨logAfter_concat options log before operation, settles options operation _⟩
  . intro hstrict
    exact logAfter_strict hstrict operations log

/--
A strict pass that fails at a report and at a value of the wrong shape, with a note in between.
-/
theorem run_settles_strict :
    (∀ before operation after,
      [.report (.missingType "size"), .note (.parse .template 1 1), .props (.array [])] =
        before ++ operation :: after →
      logAfter { strict := true } [] (before ++ [operation]) =
        (operation.run.exec { strict := true } (logAfter { strict := true } [] before)).2 ∧
      Settles { strict := true } operation (logAfter { strict := true } [] before)) ∧
    logAfter { strict := true } []
      [.report (.missingType "size"), .note (.parse .template 1 1), .props (.array [])] =
        [.parse .template 1 1] := by
  have h := run_settles { strict := true } []
    [.report (.missingType "size"), .note (.parse .template 1 1), .props (.array [])]
  exact ⟨h.1, h.2 rfl⟩

end Operation

end ComponentDoc
