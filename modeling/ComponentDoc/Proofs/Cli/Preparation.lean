import ComponentDoc.Proofs.Files.Looking
import ComponentDoc.Proofs.Cli.FileMode

/-!
What a run does before it documents files. It reads the columns, makes the output directory and
expands its inputs; whatever comes of this, it touches no file. Which files the inputs stand for is
told by the view of the world alone.
-/

namespace ComponentDoc.Run

open FileSystem

variable {α β : Type} {log : List Warning} {world made : World}

theorem exec_bind_eq_ok {part : Run (StateM World) α} {next : α → Run (StateM World) β} {b : β}
    {final : List Warning} :
    exec (part >>= next) log world = ((.ok b, final), made) ↔
      ∃ a middle between, exec part log world = ((.ok a, middle), between) ∧
        exec (next a) middle between = ((.ok b, final), made) := by
  rw [exec_bind]
  rcases exec part log world with ⟨⟨result, middle⟩, between⟩
  cases result with
  | ok a => simp
  | error failure => simp

section Looking

/--
A part of a run that leaves the world as it is.
-/
def LooksOnly (part : Run (StateM World) α) : Prop :=
  ∀ log world, (exec part log world).2 = world

namespace LooksOnly

theorem pure (a : α) : LooksOnly (Pure.pure a : Run (StateM World) α) :=
  fun _ _ => rfl

theorem throw (failure : Failure) : LooksOnly (throw failure : Run (StateM World) α) :=
  fun _ _ => rfl

theorem bind {part : Run (StateM World) α} {next : α → Run (StateM World) β}
    (h : LooksOnly part) (hnext : ∀ a, LooksOnly (next a)) : LooksOnly (part >>= next) := by
  intro log world
  have hworld := h log world
  rw [exec_bind]
  generalize exec part log world = outcome at hworld ⊢
  obtain ⟨⟨result, middle⟩, between⟩ := outcome
  cases result with
  | ok a => exact (hnext a middle between).trans hworld
  | error failure => exact hworld

theorem ask {operation : StateM World α} (h : World.LooksOnly operation) :
    LooksOnly (ask operation) := by
  intro log world
  rw [exec_ask]
  exact h world

theorem orFail {operation : StateM World (Except FileError α)} (h : World.LooksOnly operation)
    (message : String) : LooksOnly (orFail message operation) := by
  apply bind (ask h)
  intro outcome
  cases outcome with
  | ok a => apply pure
  | error e => apply throw

end LooksOnly

theorem looksOnly_orProblem (result : Except Problem α) :
    LooksOnly (orProblem result : Run (StateM World) α) := by
  cases result with
  | ok a => apply LooksOnly.pure
  | error problem => apply LooksOnly.throw

theorem looksOnly_loadColumns (file : Option String) :
    LooksOnly (loadColumns file : Run (StateM World) ColumnConfig) := by
  cases file with
  | none => apply LooksOnly.pure
  | some file =>
    apply LooksOnly.bind (.ask (World.looksOnly_readText _))
    intro text
    cases text with
    | ok text => apply looksOnly_orProblem
    | error e => apply looksOnly_orProblem

end Looking

section Showing

/--
A part of a run that leaves the world as it is, and whose result and log are seen in the view of the
world.
-/
def Shows (part : Run (StateM World) α) (seen : Run (ReaderM FileView) α) : Prop :=
  ∀ log world, exec part log world = (world.view.answer (seen.run.run log), world)

namespace Shows

variable {part : Run (StateM World) α} {seen : Run (ReaderM FileView) α}

theorem looksOnly (h : Shows part seen) : LooksOnly part := by
  intro log world
  rw [h]

theorem pure (a : α) : Shows (Pure.pure a) (Pure.pure a) :=
  fun _ _ => rfl

theorem throw (failure : Failure) :
    Shows (throw failure : Run (StateM World) α) (MonadExcept.throw failure) :=
  fun _ _ => rfl

theorem warn (message : String) (file : Option Path) :
    Shows (warn message file) (Run.warn message file) :=
  fun _ _ => rfl

theorem bind {next : α → Run (StateM World) β} {seenNext : α → Run (ReaderM FileView) β}
    (h : Shows part seen) (hnext : ∀ a, Shows (next a) (seenNext a)) :
    Shows (part >>= next) (seen >>= seenNext) := by
  intro log world
  rw [exec_bind, h, ExceptT.run_bind, StateT.run_bind, FileView.answer_bind]
  generalize world.view.answer (seen.run.run log) = outcome
  obtain ⟨result, middle⟩ := outcome
  cases result with
  | ok a => exact hnext a middle world
  | error failure => rfl

theorem ask {operation : StateM World α} {look : ReaderM FileView α}
    (h : World.Shows operation look) : Shows (ask operation) (Run.ask look) := by
  intro log world
  rw [exec_ask, h]
  rfl

theorem orFail {operation : StateM World (Except FileError α)}
    {look : ReaderM FileView (Except FileError α)} (h : World.Shows operation look)
    (message : String) : Shows (orFail message operation) (Run.orFail message look) := by
  apply bind (ask h)
  intro outcome
  cases outcome with
  | ok a => apply pure
  | error e => apply throw

theorem flatMapM {f : α → Run (StateM World) (List β)} {g : α → Run (ReaderM FileView) (List β)}
    (h : ∀ a, Shows (f a) (g a)) (as : List α) : Shows (as.flatMapM f) (as.flatMapM g) := by
  induction as with
  | nil => apply pure
  | cons a as ih =>
    rw [List.flatMapM_cons, List.flatMapM_cons]
    apply bind (h a)
    intro found
    apply bind ih
    intro rest
    apply pure

end Shows

theorem shows_componentsIn (directory : Path) :
    Shows (componentsIn directory) (componentsIn directory) := by
  apply Shows.bind (.orFail (World.shows_list directory) _)
  intro names
  apply Shows.ask
  apply World.Shows.filterM
  apply World.shows_isFile

theorem shows_filesMatching (text : String) : Shows (filesMatching text) (filesMatching text) := by
  unfold filesMatching
  cases Glob.parse text with
  | error e => apply Shows.throw
  | ok glob =>
    apply Shows.bind (.ask (Glob.shows_matching glob))
    intro found
    apply Shows.bind (.ask (World.Shows.filterM World.shows_isFile found))
    intro files
    dsimp only
    split
    . apply Shows.bind (.warn _ _)
      intro _
      apply Shows.pure
    . apply Shows.pure

theorem shows_expandInput (text : String) : Shows (expandInput text) (expandInput text) := by
  apply Shows.bind (.ask (World.shows_isFile _))
  intro isFile
  split
  . apply Shows.pure
  . apply Shows.bind (.ask (World.shows_isDirectory _))
    intro isDirectory
    split
    . apply shows_componentsIn
    . apply shows_filesMatching

theorem shows_expandInputs (inputs : List String) :
    Shows (expandInputs inputs) (expandInputs inputs) := by
  apply Shows.bind (.flatMapM shows_expandInput inputs)
  intro found
  apply Shows.pure

end Showing

/--
What is left to do once a run is prepared: files that are to be documented, and the directory for
their documents.
-/
structure Work where
  settings : Settings
  output : Path
  files : List Path

section Stages

variable {m : Type → Type} [Monad m] [FileAccess m]

def prepare (arguments : Arguments) : Run m Work := do
  let columns ← loadColumns arguments.columns
  let format ← orProblem (Format.ofName (arguments.format.getD "markdown"))
  match arguments.output with
  | none => throw ⟨"--output is required when files are given", none⟩
  | some output =>
    orFail ("failed to create output directory: " ++ output)
      (FileAccess.makeDirectories (output.length + 1) ⟨output⟩)
    let files ← expandInputs arguments.inputs
    return ⟨⟨arguments.options, columns, format⟩, ⟨output⟩, files⟩

def Work.perform (work : Work) : Run m Unit := do
  let documented ← work.files.mapM (documentFile work.settings work.output)
  if !work.files.isEmpty && !documented.contains true then
    throw ⟨"no component could be documented", none⟩

/--
With inputs, a run is its preparation and then the work on the files.
-/
theorem perform_eq_prepare [LawfulMonad m] {arguments : Arguments} (h : arguments.inputs ≠ []) :
    (Run.perform arguments : Run m String) = do
      (← prepare arguments).perform
      return "" := by
  have hempty : arguments.inputs.isEmpty = false := by simpa using h
  unfold Run.perform prepare documentFiles
  cases arguments.output with
  | none => simp [hempty]
  | some output => simp [hempty, Work.perform]

end Stages

section Prepared

variable {arguments : Arguments} {work : Work} {final : List Warning}

/--
A part of a run that may make directories, but touches no file.
-/
def KeepsFiles (part : Run (StateM World) α) : Prop :=
  ∀ log world, SameFiles world.files (exec part log world).2.files

theorem LooksOnly.keepsFiles {part : Run (StateM World) α} (h : LooksOnly part) :
    KeepsFiles part := by
  intro log world
  rw [h log world]
  apply SameFiles.refl

theorem KeepsFiles.bind {part : Run (StateM World) α} {next : α → Run (StateM World) β}
    (h : KeepsFiles part) (hnext : ∀ a, KeepsFiles (next a)) : KeepsFiles (part >>= next) := by
  intro log world
  have hpart := h log world
  rw [exec_bind]
  generalize exec part log world = outcome at hpart ⊢
  obtain ⟨⟨result, middle⟩, between⟩ := outcome
  cases result with
  | ok a => exact hpart.trans (hnext a middle between)
  | error failure => exact hpart

theorem keepsFiles_orFail_makeDirectories (message : String) (depth : Nat) (path : Path) :
    KeepsFiles (orFail message (FileAccess.makeDirectories depth path)) := by
  intro log world
  have hmake := (World.addsDirectories_makeDirectories depth path world).sameFiles
  rw [exec_orFail]
  generalize (FileAccess.makeDirectories depth path : StateM World _).run world = outcome at hmake ⊢
  obtain ⟨result, made⟩ := outcome
  cases result with
  | ok => exact hmake
  | error e => exact hmake

theorem keepsFiles_prepare (arguments : Arguments) :
    KeepsFiles (prepare arguments : Run (StateM World) Work) := by
  apply (looksOnly_loadColumns arguments.columns).keepsFiles.bind
  intro columns
  apply (looksOnly_orProblem _).keepsFiles.bind
  intro format
  cases arguments.output with
  | none => exact (LooksOnly.throw _).keepsFiles
  | some output =>
    apply (keepsFiles_orFail_makeDirectories _ _ _).bind
    intro _
    apply (shows_expandInputs arguments.inputs).looksOnly.keepsFiles.bind
    intro files
    exact (LooksOnly.pure _).keepsFiles

/--
Once a run is prepared, its output directory is made and its files are in order.
-/
theorem prepare_eq_ok (h : exec (prepare arguments) log world = ((.ok work, final), made)) :
    ∃ output, work.output = ⟨output⟩ ∧
      (FileAccess.makeDirectories (output.length + 1) ⟨output⟩ : StateM World _).run world =
        (.ok (), made) ∧
      ∃ files, work.files = Path.sorted files := by
  unfold prepare at h
  obtain ⟨columns, log₁, world₁, hcolumns, hbehind⟩ := exec_bind_eq_ok.1 h
  obtain ⟨format, log₂, world₂, hformat, hrest⟩ := exec_bind_eq_ok.1 hbehind
  have hworld₁ : world₁ = world := by
    rw [← looksOnly_loadColumns arguments.columns log world, hcolumns]
  have hworld₂ : world₂ = world := by
    rw [← hworld₁, ← looksOnly_orProblem _ log₁ world₁, hformat]
  rw [hworld₂] at hrest
  cases houtput : arguments.output with
  | none =>
    rw [houtput] at hrest
    cases hrest
  | some output =>
    rw [houtput] at hrest
    dsimp only at hrest
    obtain ⟨_, log₃, world₃, hmake, hfound⟩ := exec_bind_eq_ok.1 hrest
    obtain ⟨files, log₄, world₄, hexpand, hend⟩ := exec_bind_eq_ok.1 hfound
    have hworld₄ : world₄ = world₃ := by
      rw [← (shows_expandInputs arguments.inputs).looksOnly log₃ world₃, hexpand]
    obtain ⟨found, log₅, world₅, _, hfiles⟩ := exec_bind_eq_ok.1 hexpand
    cases hfiles
    cases hend
    refine ⟨output, rfl, ?_, found, rfl⟩
    rw [exec_orFail] at hmake
    rw [hworld₄]
    generalize (FileAccess.makeDirectories (output.length + 1) ⟨output⟩ : StateM World _).run
      world = outcome at hmake ⊢
    obtain ⟨result, after⟩ := outcome
    cases result with
    | ok =>
      cases hmake
      rfl
    | error e => cases hmake

/--
Without options for columns and format, and with inputs that are files, the files are prepared in
their order.
-/
theorem exec_prepare_of_found {output : String} (hcolumns : arguments.columns = none)
    (hformat : arguments.format = none) (houtput : arguments.output = some output)
    (hopened : (FileAccess.makeDirectories (output.length + 1) ⟨output⟩ : StateM World _).run world =
      (.ok (), made))
    (hfound : ∀ input ∈ arguments.inputs, ∃ content,
      made.files.find ⟨input⟩ = .ok (.file content)) :
    exec (prepare arguments) log world =
      ((.ok ⟨⟨arguments.options, {}, .markdown⟩, ⟨output⟩,
        Path.sorted (arguments.inputs.map Path.mk)⟩, log), made) := by
  unfold prepare
  rw [hcolumns, hformat, houtput, exec_bind_of_ok rfl, exec_bind_of_ok rfl,
    exec_bind_of_ok (exec_orFail_of_ok hopened _), exec_bind_of_ok (exec_expandInputs hfound)]
  rfl

end Prepared

end ComponentDoc.Run
