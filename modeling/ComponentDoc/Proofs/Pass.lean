import ComponentDoc.Pass

/-!
What a pass does under given options and on a given log, operation by operation, and the one
thing that all extractors have in common: they only ever *report*. A pass that only reports is
known from its tolerant run on the empty log (`Reporting`): on another log it appends the same
problems, and a strict run stops at the first of them with the log untouched.
-/

namespace ComponentDoc

namespace Pass

variable {α β γ : Type} {options : Options} {log : List Problem}

@[simp]
theorem exec_pure (a : α) : (pure a : Pass α).exec options log = (.ok a, log) :=
  rfl

@[simp]
theorem exec_throw (problem : Problem) :
    (throw problem : Pass α).exec options log = (.error problem, log) :=
  rfl

@[simp]
theorem exec_read : (read : Pass Options).exec options log = (.ok options, log) :=
  rfl

theorem exec_bind (p : Pass α) (f : α → Pass β) :
    (p >>= f).exec options log =
      match p.exec options log with
      | (.ok a, log) => (f a).exec options log
      | (.error problem, log) => (.error problem, log) := by
  unfold exec
  simp only [ReaderT.run_bind, ExceptT.run_bind, StateT.run_bind]
  generalize StateT.run (ReaderT.run p options).run log = outcome
  cases outcome with
  | mk result log =>
    cases result with
    | ok => rfl
    | error => rfl

theorem exec_bind_of_ok {p : Pass α} {f : α → Pass β} {a : α} {mid : List Problem}
    (h : p.exec options log = (.ok a, mid)) :
    (p >>= f).exec options log = (f a).exec options mid := by
  rw [exec_bind, h]

theorem exec_map (f : α → β) (p : Pass α) :
    (f <$> p).exec options log = ((p.exec options log).1.map f, (p.exec options log).2) := by
  rw [map_eq_pure_bind, exec_bind]
  cases p.exec options log with
  | mk result problems =>
    cases result with
    | ok a => rfl
    | error problem => rfl

theorem exec_bind_eq_ok {p : Pass α} {f : α → Pass β} {b : β} {log' : List Problem}
    (h : (p >>= f).exec options log = (.ok b, log')) :
    ∃ a mid, p.exec options log = (.ok a, mid) ∧ (f a).exec options mid = (.ok b, log') := by
  rw [exec_bind] at h
  split at h
  . next a mid hp => exact ⟨a, mid, hp, h⟩
  . cases h

theorem exec_of_complete {p : Pass α} {a : α} (h : p.complete options = .ok (a, log)) :
    p.exec options [] = (.ok a, log) := by
  unfold complete at h
  split at h
  . next hexec =>
    cases h
    exact hexec
  . cases h

/--
An invariant of the loop variable and the log that every successful round keeps holds after a
successful loop.
-/
theorem exec_foldlM_eq_ok {step : β → α → Pass β} {I : β → List Problem → Prop} {items : List α}
    (hstep : ∀ item ∈ items, ∀ b b' log log', I b log →
      (step b item).exec options log = (.ok b', log') → I b' log')
    {start b : β} {log' : List Problem} (hstart : I start log)
    (h : (items.foldlM step start).exec options log = (.ok b, log')) : I b log' := by
  induction items generalizing start log with
  | nil =>
    rw [List.foldlM_nil, exec_pure] at h
    cases h
    exact hstart
  | cons item items ih =>
    rw [List.foldlM_cons] at h
    obtain ⟨next, mid, hnext, hrest⟩ := exec_bind_eq_ok h
    apply ih (fun other hmem => hstep other (List.mem_cons_of_mem _ hmem)) ?_ hrest
    exact hstep item List.mem_cons_self start next log mid hstart hnext

/--
A loop none of whose rounds fails: each gives the next value of the loop variable and reports the
same problems whatever was reported before it.
-/
theorem exec_foldlM_of_step {step : β → α → Pass β} {next : β → α → β}
    {problems : α → List Problem}
    (hstep : ∀ b item log,
      (step b item).exec options log = (.ok (next b item), log ++ problems item))
    (items : List α) (start : β) (log : List Problem) :
    (items.foldlM step start).exec options log =
      (.ok (items.foldl next start), log ++ items.flatMap problems) := by
  induction items generalizing start log with
  | nil => rw [List.foldlM_nil, exec_pure, List.flatMap_nil, List.append_nil, List.foldl_nil]
  | cons item items ih =>
    rw [List.foldlM_cons, exec_bind_of_ok (hstep start item log), ih, List.foldl_cons,
      List.flatMap_cons, List.append_assoc]

/--
A loop over changed items, with each round changed alike, is the changed loop.
-/
theorem foldlM_map {α' β' : Type} {f : α → α'} {g : β → β'} {step : β → α → Pass β}
    {step' : β' → α' → Pass β'} (hstep : ∀ b item, step' (g b) (f item) = g <$> step b item)
    (items : List α) (start : β) :
    (items.map f).foldlM step' (g start) = g <$> items.foldlM step start := by
  induction items generalizing start with
  | nil => rw [List.map_nil, List.foldlM_nil, List.foldlM_nil, map_pure]
  | cons item items ih =>
    rw [List.map_cons, List.foldlM_cons, List.foldlM_cons, hstep, bind_map_left, map_bind]
    simp only [ih]

theorem exec_attempt (p : Pass α) :
    p.attempt.exec options log = (.ok (p.exec options log).1, (p.exec options log).2) := by
  simp only [attempt, exec, bind, ReaderT.bind, ReaderT.run, ExceptT.bind, ExceptT.run,
    ExceptT.mk, StateT.run, StateT.bind, tryCatch, tryCatchThe, MonadExceptOf.tryCatch,
    ExceptT.tryCatch, EarlyReturnT.return, EarlyReturn.runK]
  cases p options log with
  | mk result log =>
    cases result with
    | ok => rfl
    | error => rfl

theorem exec_report (problem : Problem) :
    (report problem).exec options log =
      if options.strict then (.error problem, log) else (.ok (), log ++ [problem]) := by
  unfold report
  rw [exec_bind_of_ok exec_read]
  split
  . rfl
  . rfl

@[simp]
theorem exec_describe_some (category key text : String) :
    (describe category key (some text)).exec options log = (.ok text, log) :=
  rfl

theorem exec_describe_none (category key : String) :
    (describe category key none).exec options log =
      if options.strict then (.error (.missingDescription category key), log)
      else (.ok options.noDescription, log ++ [.missingDescription category key]) := by
  unfold describe
  by_cases h : options.strict = true
  . rw [exec_bind, exec_report, if_pos h, if_pos h]
  . rw [exec_bind, exec_report, if_neg h, if_neg h]
    rfl

/--
What a tolerant pass reports about a description.
-/
def descriptionGaps (category key : String) (found : Option String) : List Problem :=
  if found.isNone then [.missingDescription category key] else []

theorem exec_describe (h : options.strict = false) (category key : String)
    (found : Option String) :
    (describe category key found).exec options log =
      (.ok (found.getD options.noDescription), log ++ descriptionGaps category key found) := by
  cases found with
  | some text =>
    rw [exec_describe_some]
    simp [descriptionGaps]
  | none =>
    rw [exec_describe_none, h]
    rfl

/--
Report the problem that stops a pass, and go on with something else.
-/
def orReport (p : Pass α) (other : α) : Pass α := do
  match ← p.attempt with
  | .ok a => return a
  | .error problem =>
    report problem
    return other

theorem exec_orReport (p : Pass α) (other : α) :
    (p.orReport other).exec options log =
      match p.exec options log with
      | (.ok a, log) => (.ok a, log)
      | (.error problem, log) =>
        if options.strict then (.error problem, log) else (.ok other, log ++ [problem]) := by
  unfold orReport
  rw [exec_bind_of_ok (exec_attempt p)]
  cases p.exec options log with
  | mk result mid =>
    cases result with
    | ok a => rfl
    | error problem =>
      dsimp only
      rw [exec_bind, exec_report]
      cases options.strict
      . rfl
      . rfl

theorem orReport_map (f : α → β) (p : Pass α) (other : α) :
    (f <$> p).orReport (f other) = f <$> p.orReport other := by
  funext options log
  change ((f <$> p).orReport (f other)).exec options log = (f <$> p.orReport other).exec options log
  rw [exec_map, exec_orReport, exec_orReport, exec_map]
  cases p.exec options log with
  | mk result problems =>
    cases result with
    | ok a => rfl
    | error problem =>
      dsimp only [Except.map]
      split
      . rfl
      . rfl

/--
The outcome of a pass in tolerant mode on the empty log.
-/
def tolerant (p : Pass α) (options : Options) : Except Problem α × List Problem :=
  p.exec { options with strict := false } []

theorem tolerant_eq_exec (p : Pass α) (h : options.strict = false) :
    p.tolerant options = p.exec options [] := by
  unfold tolerant
  rw [← h]

theorem tolerant_map (f : α → β) (p : Pass α) :
    (f <$> p).tolerant options = ((p.tolerant options).1.map f, (p.tolerant options).2) := by
  unfold tolerant
  rw [exec_map]

theorem tolerant_orReport (p : Pass α) (other : α) :
    (p.orReport other).tolerant options =
      match p.tolerant options with
      | (.ok a, problems) => (.ok a, problems)
      | (.error problem, problems) => (.ok other, problems ++ [problem]) := by
  unfold tolerant
  rw [exec_orReport]
  rfl

/--
What a pass that only reports does on a log, in a mode, given its tolerant outcome.
-/
def replay (strict : Bool) (log : List Problem) (outcome : Except Problem α × List Problem) :
    Except Problem α × List Problem :=
  match strict, outcome.2 with
  | true, problem :: _ => (.error problem, log)
  | _, problems => (outcome.1, log ++ problems)

/--
A pass that only reports, and no problem that is a matter of the template grammar.
-/
structure Reporting (p : Pass α) : Prop where
  exec_eq : ∀ (options : Options) (log : List Problem),
    p.exec options log = replay options.strict log (p.tolerant options)
  logged : ∀ (options : Options) (problem : Problem), problem ∈ (p.tolerant options).2 →
    problem.isTemplateParse = false
  thrown : ∀ (options : Options) (problem : Problem), (p.tolerant options).1 = .error problem →
    problem.isTemplateParse = false

theorem replay_nil (strict : Bool) (result : Except Problem α) :
    replay strict log (result, []) = (result, log) := by
  cases strict
  . simp [replay]
  . simp [replay]

namespace Reporting

theorem exec_tolerant {p : Pass α} (hp : Reporting p) (options : Options) (log : List Problem) :
    p.exec { options with strict := false } log =
      ((p.tolerant options).1, log ++ (p.tolerant options).2) := by
  rw [hp.exec_eq]
  rfl

theorem exec_append {p : Pass α} (hp : Reporting p) (options : Options) (log : List Problem) :
    ∃ more, (p.exec options log).2 = log ++ more := by
  rw [hp.exec_eq]
  unfold replay
  split
  . exact ⟨[], (List.append_nil log).symm⟩
  . exact ⟨_, rfl⟩

theorem mem_of_exec {p : Pass α} (hp : Reporting p) {options : Options} {log log' : List Problem}
    {result : Except Problem α} (h : p.exec options log = (result, log')) {problem : Problem}
    (hmem : problem ∈ log) : problem ∈ log' := by
  obtain ⟨more, hmore⟩ := hp.exec_append options log
  rw [h] at hmore
  dsimp only at hmore
  rw [hmore]
  exact List.mem_append_left more hmem

theorem log_eq_of_strict {p : Pass α} (hp : Reporting p) {options : Options}
    (hstrict : options.strict = true) {log log' : List Problem} {a : α}
    (h : p.exec options log = (.ok a, log')) : log' = log := by
  rw [hp.exec_eq, hstrict] at h
  cases htol : p.tolerant options with
  | mk result problems =>
    rw [htol] at h
    cases problems with
    | nil =>
      rw [replay_nil] at h
      cases h
      rfl
    | cons problem problems => cases h

theorem pure (a : α) : Reporting (Pure.pure a : Pass α) where
  exec_eq options log := by
    rw [tolerant, exec_pure, exec_pure, replay_nil]
  logged options problem h := by
    cases h
  thrown options problem h := by
    cases h

theorem throw {problem : Problem} (h : problem.isTemplateParse = false) :
    Reporting (MonadExcept.throw problem : Pass α) where
  exec_eq options log := by
    rw [tolerant, exec_throw, exec_throw, replay_nil]
  logged options problem h := by
    cases h
  thrown options other hthrown := by
    cases hthrown
    exact h

theorem report {problem : Problem} (h : problem.isTemplateParse = false) :
    Reporting (Pass.report problem) where
  exec_eq options log := by
    rw [tolerant, exec_report, exec_report]
    cases options.strict
    . rfl
    . rfl
  logged options other hlogged := by
    rw [List.mem_singleton.1 hlogged]
    exact h
  thrown options other hthrown := by
    cases hthrown

theorem tolerant_bind {p : Pass α} {f : α → Pass β} (hf : ∀ a, Reporting (f a))
    (options : Options) :
    (p >>= f).tolerant options =
      match p.tolerant options with
      | (.ok a, problems) =>
        (((f a).tolerant options).1, problems ++ ((f a).tolerant options).2)
      | (.error problem, problems) => (.error problem, problems) := by
  unfold tolerant
  rw [exec_bind]
  split
  . next a problems _ => exact (hf a).exec_tolerant options problems
  . rfl

theorem bind {p : Pass α} {f : α → Pass β} (hp : Reporting p) (hf : ∀ a, Reporting (f a)) :
    Reporting (p >>= f) where
  exec_eq options log := by
    rw [exec_bind, hp.exec_eq options log, tolerant_bind hf]
    cases p.tolerant options with
    | mk result problems =>
      cases result with
      | error problem =>
        -- The second part does not run, whatever the mode.
        cases options.strict
        . rfl
        . cases problems
          . rfl
          . rfl
      | ok a =>
        cases hmode : options.strict with
        | false =>
          dsimp only [replay]
          rw [(hf a).exec_eq, hmode, ← List.append_assoc]
          rfl
        | true =>
          cases problems with
          | nil =>
            dsimp only [replay]
            rw [(hf a).exec_eq, hmode, List.append_nil]
            rfl
          | cons problem problems => rfl
  logged options problem h := by
    rw [tolerant_bind hf] at h
    split at h
    . next a problems htol =>
      rw [List.mem_append] at h
      cases h with
      | inl h =>
        apply hp.logged options
        rw [htol]
        exact h
      | inr h => exact (hf a).logged options problem h
    . next htol =>
      apply hp.logged options
      rw [htol]
      exact h
  thrown options problem h := by
    rw [tolerant_bind hf] at h
    split at h
    . next a problems htol => exact (hf a).thrown options problem h
    . next htol =>
      cases h
      apply hp.thrown options
      rw [htol]

/--
Options may be read as long as what is done with them is the same in both modes.
-/
theorem read_bind {f : Options → Pass α} (hf : ∀ options, Reporting (f options))
    (hmode : ∀ options, f options = f { options with strict := false }) :
    Reporting (read >>= f) where
  exec_eq options log := by
    rw [tolerant, exec_bind_of_ok exec_read, exec_bind_of_ok exec_read, (hf options).exec_eq,
      ← hmode]
    rfl
  logged options problem h := by
    apply (hf { options with strict := false }).logged options
    exact h
  thrown options problem h := by
    apply (hf { options with strict := false }).thrown options
    exact h

theorem describe (category key : String) (found : Option String) :
    Reporting (Pass.describe category key found) := by
  cases found with
  | some text => exact pure text
  | none =>
    apply bind (report rfl)
    intro _
    exact read_bind (fun options => pure options.noDescription) (fun _ => rfl)

theorem foldlM {step : β → α → Pass β} (hstep : ∀ b a, Reporting (step b a)) (items : List α)
    (start : β) : Reporting (items.foldlM step start) := by
  induction items generalizing start with
  | nil => exact pure start
  | cons item items ih =>
    rw [List.foldlM_cons]
    exact bind (hstep start item) ih

theorem foldlM_tolerant {step : β → α → Pass β} (hstep : ∀ b a, Reporting (step b a))
    (hok : ∀ b a, ∃ c, ((step b a).tolerant options).1 = .ok c) (items : List α) (start : β) :
    ∃ c, ((items.foldlM step start).tolerant options).1 = .ok c := by
  induction items generalizing start with
  | nil => exact ⟨start, rfl⟩
  | cons item items ih =>
    obtain ⟨b, hb⟩ := hok start item
    rw [List.foldlM_cons, tolerant_bind (foldlM hstep items)]
    split
    . next c _ _ => exact ih c
    . next htol =>
      rw [htol] at hb
      cases hb

/--
Reporting the problem that stopped a pass, and going on with something else, is reporting too:
whichever problem stops the pass in strict mode is the one that would have been reported first.
-/
theorem orReport {p : Pass α} (hp : Reporting p) (other : α) :
    Reporting (p.orReport other) where
  exec_eq options log := by
    rw [tolerant_orReport, exec_orReport, hp.exec_eq options log]
    cases p.tolerant options with
    | mk result problems =>
      cases hmode : options.strict with
      | false =>
        cases result with
        | ok a => rfl
        | error problem =>
          dsimp only [replay]
          rw [if_neg Bool.false_ne_true, List.append_assoc]
      | true =>
        cases problems with
        | nil =>
          cases result with
          | ok a => rfl
          | error problem =>
            dsimp only [replay]
            rw [if_pos rfl, List.append_nil]
            rfl
        | cons problem problems =>
          cases result with
          | ok a => rfl
          | error problem => rfl
  logged options problem h := by
    rw [tolerant_orReport] at h
    split at h
    . next a problems htol =>
      apply hp.logged options
      rw [htol]
      exact h
    . next stopped problems htol =>
      rw [List.mem_append, List.mem_singleton] at h
      cases h with
      | inl h =>
        apply hp.logged options
        rw [htol]
        exact h
      | inr h =>
        apply hp.thrown options
        rw [htol, h]
  thrown options problem h := by
    rw [tolerant_orReport] at h
    split at h
    . cases h
    . cases h

end Reporting

end Pass

end ComponentDoc
