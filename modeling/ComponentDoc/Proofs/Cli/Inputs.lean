import ComponentDoc.Proofs.Cli.Preparation
import ComponentDoc.Proofs.Files.Path

/-!
What the inputs of a run stand for. Whatever the files look like, the paths that some inputs stand
for come in strict order, and neither the order of the inputs nor that of the names in directories
matters, nor how often they are given.
-/

namespace ComponentDoc

namespace FileView

open Run

variable {α β : Type} (view : FileView)

section Giving

/--
The result of a part of a run that only looks at files, on a given log.
-/
def result (log : List Warning) (part : Run (ReaderM FileView) α) : Except Failure α :=
  (view.answer (part.run.run log)).1

/--
Whether a part of a run has a given result, whatever was logged before.
-/
def Gives (part : Run (ReaderM FileView) α) (outcome : Except Failure α) : Prop :=
  ∀ log, view.result log part = outcome

variable {view} {part : Run (ReaderM FileView) α} {next : α → Run (ReaderM FileView) β}

theorem gives_pure (a : α) : view.Gives (pure a) (.ok a) :=
  fun _ => rfl

theorem gives_throw (failure : Failure) :
    view.Gives (throw failure : Run (ReaderM FileView) α) (.error failure) :=
  fun _ => rfl

theorem gives_ask (operation : ReaderM FileView α) :
    view.Gives (ask operation) (.ok (view.answer operation)) :=
  fun _ => rfl

theorem gives_warn (message : String) (file : Option Path) :
    view.Gives (warn message file) (.ok ()) :=
  fun _ => rfl

theorem result_bind (log : List Warning) :
    view.result log (part >>= next) =
      match view.answer (part.run.run log) with
      | (.ok a, log) => view.result log (next a)
      | (.error failure, _) => .error failure := by
  unfold result
  rw [ExceptT.run_bind, StateT.run_bind, answer_bind]
  generalize view.answer (part.run.run log) = outcome
  obtain ⟨outcome, log⟩ := outcome
  cases outcome with
  | ok a => rfl
  | error failure => rfl

theorem Gives.bind {a : α} {outcome : Except Failure β} (h : view.Gives part (.ok a))
    (hnext : view.Gives (next a) outcome) : view.Gives (part >>= next) outcome := by
  intro log
  have hpart := h log
  unfold result at hpart
  rw [result_bind]
  generalize view.answer (part.run.run log) = run at hpart ⊢
  obtain ⟨outcome, log⟩ := run
  cases hpart
  exact hnext log

theorem Gives.bind_error {failure : Failure} (h : view.Gives part (.error failure)) :
    view.Gives (part >>= next) (.error failure) := by
  intro log
  have hpart := h log
  unfold result at hpart
  rw [result_bind]
  generalize view.answer (part.run.run log) = run at hpart ⊢
  obtain ⟨outcome, log⟩ := run
  cases hpart
  rfl

theorem gives_orFail (message : String) (operation : ReaderM FileView (Except FileError α)) :
    view.Gives (orFail message operation)
      (match view.answer operation with
      | .ok a => .ok a
      | .error e => .error ⟨message, some e.message⟩) := by
  apply (gives_ask operation).bind
  cases view.answer operation with
  | ok a => apply gives_pure
  | error e => apply gives_throw

theorem gives_flatMapM {f : α → Run (ReaderM FileView) (List β)}
    {outcomes : α → Except Failure (List β)} (h : ∀ a, view.Gives (f a) (outcomes a))
    (as : List α) : view.Gives (as.flatMapM f) (as.flatMapM outcomes) := by
  induction as with
  | nil => apply gives_pure
  | cons a as ih =>
    have ha := h a
    rw [List.flatMapM_cons, List.flatMapM_cons]
    cases houtcome : outcomes a with
    | error failure =>
      rw [houtcome] at ha
      exact ha.bind_error
    | ok bs =>
      rw [houtcome] at ha
      apply ha.bind
      cases hrest : as.flatMapM outcomes with
      | error failure =>
        rw [hrest] at ih
        exact ih.bind_error
      | ok cs =>
        rw [hrest] at ih
        exact ih.bind (gives_pure _)

end Giving

section Given

/--
The files that an input stands for, or why it stands for none.
-/
def given (view : FileView) (input : String) : Except Failure (List Path) :=
  if view.isFile ⟨input⟩ then .ok [⟨input⟩]
  else if view.isDirectory ⟨input⟩ then
    match view.list ⟨input⟩ with
    | .ok names => .ok (((names.map (Path.join ⟨input⟩)).filter isComponent).filter view.isFile)
    | .error e => .error ⟨"failed to read directory: " ++ input, some e.message⟩
  else
    match Glob.parse input with
    | .ok glob => .ok ((view.found glob).filter view.isFile)
    | .error e => .error ⟨"invalid glob pattern: " ++ input, some e.message⟩

variable {view}

theorem gives_componentsIn (directory : Path) :
    view.Gives (componentsIn directory)
      (match view.list directory with
      | .ok names => .ok (((names.map directory.join).filter isComponent).filter view.isFile)
      | .error e =>
        .error ⟨"failed to read directory: " ++ directory.text, some e.message⟩) := by
  have hlist := @gives_orFail _ view ("failed to read directory: " ++ directory.text)
    (FileAccess.list directory)
  rw [answer_list] at hlist
  cases hnames : view.list directory with
  | error e =>
    rw [hnames] at hlist
    exact hlist.bind_error
  | ok names =>
    rw [hnames] at hlist
    apply hlist.bind
    have hfilter := @gives_ask _ view
      (((names.map directory.join).filter isComponent).filterM FileAccess.isFile)
    rw [answer_filterM] at hfilter
    exact hfilter

theorem gives_filesMatching (input : String) :
    view.Gives (filesMatching input)
      (match Glob.parse input with
      | .ok glob => .ok ((view.found glob).filter view.isFile)
      | .error e => .error ⟨"invalid glob pattern: " ++ input, some e.message⟩) := by
  unfold filesMatching
  cases Glob.parse input with
  | error e => apply gives_throw
  | ok glob =>
    dsimp only
    apply (gives_ask glob.matching).bind
    have hfilter := @gives_ask _ view ((view.found glob).filterM FileAccess.isFile)
    rw [answer_filterM] at hfilter
    apply hfilter.bind
    split
    . exact (gives_warn _ _).bind (gives_pure _)
    . apply gives_pure

theorem gives_expandInput (input : String) :
    view.Gives (expandInput input) (view.given input) := by
  unfold expandInput given
  dsimp only
  apply (gives_ask (FileAccess.isFile ⟨input⟩)).bind
  rw [answer_isFile]
  cases view.isFile ⟨input⟩ with
  | true => apply gives_pure
  | false =>
    apply (gives_ask (FileAccess.isDirectory ⟨input⟩)).bind
    rw [answer_isDirectory]
    cases view.isDirectory ⟨input⟩ with
    | true => apply gives_componentsIn
    | false => apply gives_filesMatching

/--
The files that inputs stand for, on a given log.
-/
def expand (view : FileView) (log : List Warning) (inputs : List String) :
    Except Failure (List Path) :=
  view.result log (expandInputs inputs)

theorem expand_eq (log : List Warning) (inputs : List String) :
    view.expand log inputs = (inputs.flatMapM view.given).map Path.sorted := by
  have hfound := gives_flatMapM (@gives_expandInput view) inputs
  unfold expand expandInputs
  cases houtcome : inputs.flatMapM view.given with
  | error failure =>
    rw [houtcome] at hfound
    exact hfound.bind_error log
  | ok found =>
    rw [houtcome] at hfound
    have hsorted : view.Gives (pure (Path.sorted found)) (.ok (Path.sorted found)) := gives_pure _
    exact hfound.bind hsorted log

end Given

section Meaning

variable {view other : FileView} {input : String} {paths : List Path} {path : Path}

/--
The paths that an input stands for: itself if it is a file, the components among the names in it if
it is a directory, and else the files that it describes.
-/
inductive StandsFor (view : FileView) (input : String) : Path → Prop where
  | file (hfile : view.isFile ⟨input⟩ = true) : StandsFor view input ⟨input⟩
  | entry {names : List String} {name : String} (hfile : view.isFile ⟨input⟩ = false)
    (hdirectory : view.isDirectory ⟨input⟩ = true) (hlist : view.list ⟨input⟩ = .ok names)
    (hname : name ∈ names) (hentry : view.isFile (Path.join ⟨input⟩ name) = true)
    (hextension : (Path.join ⟨input⟩ name).fileExtension? = some "vue") :
    StandsFor view input (Path.join ⟨input⟩ name)
  | described {glob : Glob} {path : Path} (hfile : view.isFile ⟨input⟩ = false)
    (hdirectory : view.isDirectory ⟨input⟩ = false) (hglob : Glob.parse input = .ok glob)
    (hfound : path ∈ view.found glob) (hpath : view.isFile path = true) :
    StandsFor view input path

/--
Whether an input is a directory that cannot be listed, or no file, no directory and no pattern.
-/
def Refused (view : FileView) (input : String) : Prop :=
  view.isFile ⟨input⟩ = false ∧
    (view.isDirectory ⟨input⟩ = true ∧ (∃ e, view.list ⟨input⟩ = .error e) ∨
      view.isDirectory ⟨input⟩ = false ∧ ∃ e, Glob.parse input = .error e)

theorem isComponent_iff : isComponent path = true ↔ path.fileExtension? = some "vue" := by
  unfold isComponent componentExtensions
  cases path.fileExtension? with
  | none => simp
  | some extension => simp

theorem mem_given (h : view.given input = .ok paths) :
    path ∈ paths ↔ StandsFor view input path := by
  unfold given at h
  cases hfile : view.isFile ⟨input⟩ with
  | true =>
    rw [if_pos hfile] at h
    cases h
    rw [List.mem_singleton]
    constructor
    . rintro rfl
      exact .file hfile
    . intro h
      cases h with
      | file => rfl
      | entry hfile' => cases hfile.symm.trans hfile'
      | described hfile' => cases hfile.symm.trans hfile'
  | false =>
    rw [if_neg (by simp [hfile])] at h
    cases hdirectory : view.isDirectory ⟨input⟩ with
    | true =>
      rw [if_pos hdirectory] at h
      cases hlist : view.list ⟨input⟩ with
      | error e =>
        rw [hlist] at h
        cases h
      | ok names =>
        rw [hlist] at h
        cases h
        rw [List.mem_filter, List.mem_filter, List.mem_map, isComponent_iff]
        constructor
        . rintro ⟨⟨⟨name, hname, rfl⟩, hextension⟩, hentry⟩
          exact .entry hfile hdirectory hlist hname hentry hextension
        . intro h
          cases h with
          | file hfile' => cases hfile.symm.trans hfile'
          | entry _ _ hlist' hname hentry hextension =>
            cases hlist.symm.trans hlist'
            exact ⟨⟨⟨_, hname, rfl⟩, hextension⟩, hentry⟩
          | described _ hdirectory' => cases hdirectory.symm.trans hdirectory'
    | false =>
      rw [if_neg (by simp [hdirectory])] at h
      cases hglob : Glob.parse input with
      | error e =>
        rw [hglob] at h
        cases h
      | ok glob =>
        rw [hglob] at h
        cases h
        rw [List.mem_filter]
        constructor
        . rintro ⟨hfound, hpath⟩
          exact .described hfile hdirectory hglob hfound hpath
        . intro h
          cases h with
          | file hfile' => cases hfile.symm.trans hfile'
          | entry _ hdirectory' => cases hdirectory.symm.trans hdirectory'
          | described _ _ hglob' hfound hpath =>
            cases hglob.symm.trans hglob'
            exact ⟨hfound, hpath⟩

theorem given_eq_error :
    (∃ failure, view.given input = .error failure) ↔ Refused view input := by
  unfold given Refused
  cases hfile : view.isFile ⟨input⟩ with
  | true => simp
  | false =>
    cases hdirectory : view.isDirectory ⟨input⟩ with
    | true =>
      cases hlist : view.list ⟨input⟩ with
      | ok names => simp
      | error e => simp
    | false =>
      cases hglob : Glob.parse input with
      | ok glob => simp
      | error e => simp

theorem StandsFor.alike (h : view.Alike other) (hpath : StandsFor view input path) :
    StandsFor other input path := by
  cases hpath with
  | file hfile => exact .file ((h.isFile_eq _).trans hfile)
  | entry hfile hdirectory hlist hname hentry hextension =>
    obtain ⟨names', hlist'⟩ := (h.list_ok _).2 ⟨_, hlist⟩
    exact .entry ((h.isFile_eq _).trans hfile) ((h.isDirectory_eq _).trans hdirectory) hlist'
      ((h.mem_list _ _ names' hlist hlist' _).2 hname) ((h.isFile_eq _).trans hentry) hextension
  | described hfile hdirectory hglob hfound hpath =>
    exact .described ((h.isFile_eq _).trans hfile) ((h.isDirectory_eq _).trans hdirectory) hglob
      (h.mem_found.2 hfound) ((h.isFile_eq _).trans hpath)

theorem Refused.alike (h : view.Alike other) (hinput : Refused view input) :
    Refused other input := by
  unfold Refused at hinput ⊢
  rw [h.isFile_eq, h.isDirectory_eq]
  refine ⟨hinput.1, ?_⟩
  rcases hinput.2 with ⟨hdirectory, e, hlist⟩ | hglob
  . left
    refine ⟨hdirectory, ?_⟩
    cases hother : other.list ⟨input⟩ with
    | error e' => exact ⟨e', rfl⟩
    | ok names' =>
      obtain ⟨names, hnames⟩ := (h.list_ok _).1 ⟨names', hother⟩
      cases hlist.symm.trans hnames
  . exact .inr hglob

end Meaning

section Order

variable {view other : FileView} {inputs : List String} {files : List Path}

theorem expand_eq_ok {log : List Warning} (h : view.expand log inputs = .ok files) :
    ∃ paths, inputs.flatMapM view.given = .ok paths ∧ Path.sorted paths = files := by
  rw [expand_eq] at h
  cases hpaths : inputs.flatMapM view.given with
  | error failure =>
    rw [hpaths] at h
    cases h
  | ok paths =>
    rw [hpaths] at h
    cases h
    exact ⟨paths, rfl, rfl⟩

theorem mem_of_flatMapM_given {paths : List Path} (h : inputs.flatMapM view.given = .ok paths)
    (path : Path) : path ∈ paths ↔ ∃ input ∈ inputs, StandsFor view input path := by
  induction inputs generalizing paths with
  | nil =>
    cases h
    simp
  | cons input inputs ih =>
    rw [List.flatMapM_cons] at h
    cases hinput : view.given input with
    | error failure =>
      rw [hinput] at h
      cases h
    | ok front =>
      cases hinputs : inputs.flatMapM view.given with
      | error failure =>
        rw [hinput, hinputs] at h
        cases h
      | ok back =>
        rw [hinput, hinputs] at h
        cases h
        rw [List.mem_append, mem_given hinput, ih hinputs]
        simp only [List.mem_cons, exists_eq_or_imp]

theorem flatMapM_given_eq_error :
    (∃ failure, inputs.flatMapM view.given = .error failure) ↔
      ∃ input ∈ inputs, Refused view input := by
  induction inputs with
  | nil =>
    constructor
    . rintro ⟨failure, h⟩
      cases h
    . rintro ⟨input, h, _⟩
      cases h
  | cons input inputs ih =>
    simp only [List.mem_cons, exists_eq_or_imp]
    rw [List.flatMapM_cons, ← ih, ← given_eq_error]
    cases view.given input with
    | error failure => exact iff_of_true ⟨failure, rfl⟩ (.inl ⟨failure, rfl⟩)
    | ok front =>
      cases inputs.flatMapM view.given with
      | error failure => exact iff_of_true ⟨failure, rfl⟩ (.inr ⟨failure, rfl⟩)
      | ok back =>
        constructor
        . rintro ⟨failure, h⟩
          cases h
        . rintro (⟨failure, h⟩ | ⟨failure, h⟩)
          . cases h
          . cases h

theorem expand_eq_error (log : List Warning) :
    (∃ failure, view.expand log inputs = .error failure) ↔
      ∃ input ∈ inputs, Refused view input := by
  rw [← flatMapM_given_eq_error, expand_eq]
  cases inputs.flatMapM view.given with
  | ok paths => simp [Except.map]
  | error failure => simp [Except.map]

theorem mem_of_expand {log : List Warning} (h : view.expand log inputs = .ok files) (path : Path) :
    (∃ p ∈ files, p.same path) ↔
      ∃ input ∈ inputs, ∃ p, StandsFor view input p ∧ p.same path := by
  obtain ⟨paths, hpaths, rfl⟩ := expand_eq_ok h
  rw [Path.exists_mem_sorted_iff]
  constructor
  . rintro ⟨p, hp, hsame⟩
    obtain ⟨input, hinput, hp⟩ := (mem_of_flatMapM_given hpaths p).1 hp
    exact ⟨input, hinput, p, hp, hsame⟩
  . rintro ⟨input, hinput, p, hp, hsame⟩
    exact ⟨p, (mem_of_flatMapM_given hpaths p).2 ⟨input, hinput, hp⟩, hsame⟩

theorem pairwise_of_expand {log : List Warning} (h : view.expand log inputs = .ok files) :
    files.Pairwise fun p q => p.le q ∧ ¬ p.same q := by
  obtain ⟨paths, _, rfl⟩ := expand_eq_ok h
  apply Path.pairwise_sorted

theorem exists_expand_eq_ok {log : List Warning} {inputs' : List String}
    (h : view.expand log inputs = .ok files) (log' : List Warning) (halike : view.Alike other)
    (hinputs : ∀ input, input ∈ inputs' ↔ input ∈ inputs) :
    ∃ files', other.expand log' inputs' = .ok files' := by
  cases hother : other.expand log' inputs' with
  | ok files' => exact ⟨files', rfl⟩
  | error failure =>
    -- What the other view refuses is refused here too.
    obtain ⟨input, hinput, hrefused⟩ := (expand_eq_error log').1 ⟨failure, hother⟩
    obtain ⟨failure', herror⟩ :=
      (expand_eq_error log).2 ⟨input, (hinputs input).1 hinput, hrefused.alike halike.symm⟩
    cases h.symm.trans herror

end Order

theorem exec_expandInputs_eq (log : List Warning) (world : World) (inputs : List String) :
    ∃ final, exec (expandInputs inputs) log world =
      ((world.view.expand log inputs, final), world) :=
  ⟨_, shows_expandInputs inputs log world⟩

/--
The files that inputs stand for depend on the view of the world alone. They come in strict order,
and they are, up to their spelling, the paths that some input stands for. They stay the same when
inputs are given in another order or more often, or when directories list their names, and so
patterns find their matches, in another order. There are none exactly if an input is refused; where
every directory can be listed, this is one that is neither a file nor a directory nor a pattern.
-/
theorem expand_insensitive_to_order (view : FileView) (log : List Warning) (inputs : List String) :
    (∀ world : World, ∃ final, exec (expandInputs inputs) log world =
      ((world.view.expand log inputs, final), world)) ∧
    (∀ files, view.expand log inputs = .ok files →
      (files.Pairwise fun p q => p.le q ∧ ¬ p.same q) ∧
      (∀ path, (∃ p ∈ files, p.same path) ↔
        ∃ input ∈ inputs, ∃ p, StandsFor view input p ∧ p.same path) ∧
      ∀ other log' inputs', view.Alike other → (∀ input, input ∈ inputs' ↔ input ∈ inputs) →
        ∃ files', other.expand log' inputs' = .ok files' ∧
          files'.map Path.components = files.map Path.components) ∧
    ((∃ failure, view.expand log inputs = .error failure) ↔
      ∃ input ∈ inputs, Refused view input) ∧
    ((∀ directory, view.isDirectory directory = true →
        ∃ names, view.list directory = .ok names) →
      ((∃ failure, view.expand log inputs = .error failure) ↔
        ∃ input ∈ inputs, view.isFile ⟨input⟩ = false ∧ view.isDirectory ⟨input⟩ = false ∧
          ∃ e, Glob.parse input = .error e)) := by
  refine ⟨fun world => exec_expandInputs_eq log world inputs, ?_, expand_eq_error log, ?_⟩
  . intro files h
    refine ⟨pairwise_of_expand h, mem_of_expand h, ?_⟩
    intro other log' inputs' halike hinputs
    obtain ⟨files', h'⟩ := exists_expand_eq_ok h log' halike hinputs
    refine ⟨files', h', ?_⟩
    apply Path.map_components_eq (pairwise_of_expand h) (pairwise_of_expand h')
    intro path
    rw [mem_of_expand h, mem_of_expand h']
    constructor
    . rintro ⟨input, hinput, p, hp, hsame⟩
      exact ⟨input, (hinputs input).1 hinput, p, hp.alike halike.symm, hsame⟩
    . rintro ⟨input, hinput, p, hp, hsame⟩
      exact ⟨input, (hinputs input).2 hinput, p, hp.alike halike, hsame⟩
  . intro hreadable
    rw [expand_eq_error]
    apply exists_congr
    intro input
    apply and_congr_right
    intro _
    apply and_congr_right
    intro _
    constructor
    . rintro (⟨hdirectory, e, hlist⟩ | hglob)
      . obtain ⟨names, hnames⟩ := hreadable _ hdirectory
        cases hlist.symm.trans hnames
      . exact hglob
    . exact .inr

/--
Two components and a text in one directory, listed in some order.
-/
def shelf (names : List String) : FileView where
  isFile path := path.text ∈ ["d/a.vue", "d/b.vue", "d/notes.txt"]
  isDirectory path := path.text = "d"
  list _ := .ok names

theorem alike_shelf {names names' : List String} (h : ∀ name, name ∈ names' ↔ name ∈ names) :
    (shelf names).Alike (shelf names') where
  isFile_eq _ := rfl
  isDirectory_eq _ := rfl
  list_ok _ := iff_of_true ⟨names', rfl⟩ ⟨names, rfl⟩
  mem_list _ _ _ hnames hnames' name := by
    cases hnames
    cases hnames'
    exact h name

theorem expand_shelf :
    (shelf ["a.vue", "notes.txt", "b.vue"]).expand [] ["d/a*", "d"] =
      .ok [⟨"d/a.vue"⟩, ⟨"d/b.vue"⟩] := by
  have hfound : ["d/a*", "d"].flatMapM (shelf ["a.vue", "notes.txt", "b.vue"]).given =
      .ok [⟨"d/a.vue"⟩, ⟨"d/a.vue"⟩, ⟨"d/b.vue"⟩] := rfl
  rw [expand_eq, hfound, Except.map, Path.sorted, List.mergeSort_of_pairwise (by decide)]
  rfl

theorem expand_insensitive_to_order_shelf :
    (∃ files,
      (shelf ["notes.txt", "b.vue", "a.vue"]).expand [] ["d", "d/a*", "d"] = .ok files ∧
      files.map Path.components =
        [[.name "d", .name "a.vue"], [.name "d", .name "b.vue"]]) ∧
    ∃ failure, (shelf []).expand [] ["d", "***"] = .error failure := by
  constructor
  . have hfiles := (expand_insensitive_to_order _ [] _).2.1 _ expand_shelf
    apply hfiles.2.2
    . apply alike_shelf
      intro name
      simp only [List.mem_cons, List.not_mem_nil, or_false]
      tauto
    . intro input
      simp only [List.mem_cons, List.not_mem_nil, or_false]
      tauto
  . apply ((expand_insensitive_to_order (shelf []) [] ["d", "***"]).2.2.2 _).2
    . exact ⟨"***", List.mem_cons_of_mem _ List.mem_cons_self, rfl, rfl, _, rfl⟩
    . intro directory _
      exact ⟨[], rfl⟩

end FileView

end ComponentDoc
