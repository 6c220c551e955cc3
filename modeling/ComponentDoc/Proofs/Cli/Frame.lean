import ComponentDoc.Proofs.Cli.Preparation

/-!
What a run leaves alone. The files that a run is to document take their turns, each with the files
as it finds them, until one of them fails. Whatever happens, no file is lost, and only the places of
documents change. If all turns go well, the last document that goes to a place stays there.
-/

namespace ComponentDoc.Run

open FileSystem

variable {settings : Settings} {output file : Path} {files : List Path} {location : Location}
  {log log' : List Warning} {world made final : World}

section Turns

/--
The files that get their turn, each with the world that it finds. A failure ends the run.
-/
def turns (settings : Settings) (output : Path) : List Path → World → List (Path × World)
  | [], _ => []
  | file :: rest, world =>
    (file, world) ::
      match exec (documentFile settings output file) [] world with
      | ((.ok _, _), next) => turns settings output rest next
      | ((.error _, _), _) => []

/--
Whether a place is that of the document of a file which, at its turn, can be documented.
-/
def IsDocumentPlace (settings : Settings) (output : Path) (files : List Path) (world : World)
    (location : Location) : Prop :=
  ∃ file found, (file, found) ∈ turns settings output files world ∧
    (Fate.of settings found.files file).isDocumented ∧
    found.files.locate (documentPath settings.format output file) = .ok location

/--
The places of the files that come later are places of the whole run.
-/
theorem IsDocumentPlace.tail {rest : List Path} {documented : Bool} {next : World}
    (hturn : exec (documentFile settings output file) [] world = ((.ok documented, log), next))
    (h : IsDocumentPlace settings output rest next location) :
    IsDocumentPlace settings output (file :: rest) world location := by
  obtain ⟨other, found, hmem, hplace⟩ := h
  refine ⟨other, found, ?_, hplace⟩
  unfold turns
  rw [hturn]
  exact List.mem_cons_of_mem _ hmem

/--
What was logged before has no influence on a turn.
-/
theorem exec_documentFile_log (settings : Settings) (output file : Path) (log : List Warning)
    (world : World) :
    exec (documentFile settings output file) log world =
      (((exec (documentFile settings output file) [] world).1.1,
        log ++ (exec (documentFile settings output file) [] world).1.2),
        (exec (documentFile settings output file) [] world).2) := by
  cases hfate : Fate.of settings world.files file with
  | unreadable e =>
    rw [exec_documentFile_unreadable hfate, exec_documentFile_unreadable hfate, List.append_nil]
  | skipped problem =>
    rw [exec_documentFile_skipped hfate, exec_documentFile_skipped hfate, List.nil_append]
  | documented result =>
    rw [exec_documentFile_write hfate, exec_documentFile_write hfate]
    cases world.files.write (documentPath settings.format output file) result.text.toUTF8 with
    | ok files => rw [List.nil_append]
    | error e => rw [List.nil_append]

/--
One turn changes at most the place of the document.
-/
theorem changesOnly_documentFile (settings : Settings) (output file : Path) (world : World) :
    ChangesOnly
      (fun location => (Fate.of settings world.files file).isDocumented ∧
        world.files.locate (documentPath settings.format output file) = .ok location)
      world.files (exec (documentFile settings output file) [] world).2.files := by
  cases hfate : Fate.of settings world.files file with
  | unreadable e =>
    rw [exec_documentFile_unreadable hfate]
    exact (SameFiles.refl _).changesOnly
  | skipped problem =>
    rw [exec_documentFile_skipped hfate]
    exact (SameFiles.refl _).changesOnly
  | documented result =>
    rw [exec_documentFile_write hfate]
    cases hwrite : world.files.write (documentPath settings.format output file)
        result.text.toUTF8 with
    | error e => exact (SameFiles.refl _).changesOnly
    | ok after =>
      obtain ⟨place, hlocate, hentry, rfl⟩ := exists_of_write_eq_ok hwrite
      apply (changesOnly_put_file hentry).mono
      rintro location rfl
      exact ⟨rfl, hlocate⟩

/--
All turns together change at most the places of documents.
-/
theorem changesOnly_mapM_documentFile (settings : Settings) (output : Path) (files : List Path)
    (log : List Warning) (world : World) :
    ChangesOnly (IsDocumentPlace settings output files world) world.files
      (exec (files.mapM (documentFile settings output)) log world).2.files := by
  induction files generalizing log world with
  | nil => exact (SameFiles.refl _).changesOnly
  | cons file rest ih =>
    have hturn : ChangesOnly (IsDocumentPlace settings output (file :: rest) world) world.files
        (exec (documentFile settings output file) [] world).2.files := by
      apply (changesOnly_documentFile settings output file world).mono
      intro location hplace
      exact ⟨file, world, List.mem_cons_self, hplace⟩
    rw [List.mapM_cons, exec_bind, exec_documentFile_log]
    cases hexec : exec (documentFile settings output file) [] world with
    | mk outcome next =>
      obtain ⟨result, warnings⟩ := outcome
      rw [hexec] at hturn
      cases result with
      | error failure => exact hturn
      | ok documented =>
        have hrest := (ih (log ++ warnings) next).mono fun location hplace =>
          (IsDocumentPlace.tail hexec hplace)
        apply hturn.trans
        dsimp only
        rw [exec_bind]
        generalize exec (rest.mapM (documentFile settings output)) (log ++ warnings) next =
          outcome at hrest ⊢
        obtain ⟨⟨result, log'⟩, last⟩ := outcome
        cases result with
        | ok marks => exact hrest
        | error failure => exact hrest

end Turns

section Work

variable {arguments : Arguments} {work : Work}

theorem exec_perform_world (work : Work) (log : List Warning) (world : World) :
    (exec work.perform log world).2 =
      (exec (work.files.mapM (documentFile work.settings work.output)) log world).2 := by
  unfold Work.perform
  rw [exec_bind]
  generalize exec (work.files.mapM (documentFile work.settings work.output)) log world = outcome
  obtain ⟨⟨result, middle⟩, last⟩ := outcome
  cases result with
  | error failure => rfl
  | ok documented =>
    dsimp only
    split
    . rfl
    . rfl

/--
Work that nothing gets in the way of: every file can be read, every document can be written, no
document goes to the place of a file that is to be documented, and documents with different names go
to different places.
-/
structure Work.Undisturbed (work : Work) (made : World) : Prop where
  readable : ∀ file ∈ work.files, ∃ text, made.files.readText file = .ok text
  writable : ∀ file ∈ work.files, ∀ result,
    Fate.of work.settings made.files file = .documented result →
      ∃ fs, made.files.write (documentPath work.settings.format work.output file)
        result.text.toUTF8 = .ok fs
  apart : ∀ file ∈ work.files, ∀ other ∈ work.files,
    (Fate.of work.settings made.files other).isDocumented →
      made.files.locate file ≠
        made.files.locate (documentPath work.settings.format work.output other)
  distinct : ∀ file ∈ work.files, ∀ other ∈ work.files,
    (Fate.of work.settings made.files file).isDocumented →
    (Fate.of work.settings made.files other).isDocumented → file.stem ≠ other.stem →
      made.files.locate (documentPath work.settings.format work.output file) ≠
        made.files.locate (documentPath work.settings.format work.output other)

namespace Work.Undisturbed

theorem isReadable (h : work.Undisturbed made) :
    ∀ file ∈ work.files, (Fate.of work.settings made.files file).isReadable := by
  intro file hfile
  obtain ⟨text, htext⟩ := h.readable file hfile
  rcases (Fate.of work.settings made.files file).isReadable_or_unreadable with hfate | ⟨e, hfate⟩
  . exact hfate
  . rw [Fate.of_eq_unreadable.1 hfate] at htext
    cases htext

theorem find_file (h : work.Undisturbed made) (hfile : file ∈ work.files) :
    ∃ content, made.files.find file = .ok (.file content) := by
  obtain ⟨text, htext⟩ := h.readable file hfile
  exact exists_find_of_readText htext

theorem exists_locate (h : work.Undisturbed made) (hfile : file ∈ work.files)
    (hdocumented : (Fate.of work.settings made.files file).isDocumented) :
    ∃ location, made.files.locate (documentPath work.settings.format work.output file) =
      .ok location ∧ made.files.entry? location ≠ some .directory := by
  obtain ⟨result, hfate⟩ := Fate.isDocumented_iff.1 hdocumented
  obtain ⟨fs, hwrite⟩ := h.writable file hfile result hfate
  obtain ⟨location, hlocate, hfree, _⟩ := exists_of_write_eq_ok hwrite
  exact ⟨location, hlocate, hfree⟩

theorem clear (h : work.Undisturbed made) :
    Clear work.settings work.output (documentPlace work.settings work.output made.files)
      work.files (Fate.of work.settings made.files) made.files := by
  constructor
  . intro file hfile hdocumented
    obtain ⟨location, hlocate, _⟩ := h.exists_locate hfile hdocumented
    rw [documentPlace_eq hlocate, hlocate]
  . intro file hfile
    obtain ⟨content, hfind⟩ := h.find_file hfile
    obtain ⟨place, hplace, hcontent⟩ := find_eq_ok.1 hfind
    refine ⟨place, content, hplace, hcontent, ?_⟩
    rintro other hother hdocumented rfl
    obtain ⟨location, hlocate, _⟩ := h.exists_locate hother hdocumented
    apply h.apart file hfile other hother hdocumented
    rw [hplace, hlocate, documentPlace_eq hlocate]
  . intro file hfile hdocumented
    obtain ⟨location, hlocate, hfree⟩ := h.exists_locate hfile hdocumented
    rw [documentPlace_eq hlocate]
    exact hfree
  . exact fun _ _ => rfl

theorem documentPlace_ne (h : work.Undisturbed made) {other : Path} (hfile : file ∈ work.files)
    (hother : other ∈ work.files)
    (hdocumented : (Fate.of work.settings made.files file).isDocumented)
    (hdocumented' : (Fate.of work.settings made.files other).isDocumented)
    (hstem : file.stem ≠ other.stem) :
    documentPlace work.settings work.output made.files file ≠
      documentPlace work.settings work.output made.files other := by
  obtain ⟨location, hlocate, _⟩ := h.exists_locate hfile hdocumented
  obtain ⟨location', hlocate', _⟩ := h.exists_locate hother hdocumented'
  rw [documentPlace_eq hlocate, documentPlace_eq hlocate']
  rintro rfl
  apply h.distinct file hfile other hother hdocumented hdocumented' hstem
  rw [hlocate, hlocate']

/--
Of the files with one stem, the document of the last one that can be documented stays.
-/
theorem find_last_document (h : work.Undisturbed made) {front back : List Path} {result : Document}
    (hfiles : work.files = front ++ file :: back)
    (hfate : Fate.of work.settings made.files file = .documented result)
    (hlast : ∀ other ∈ back, other.stem = file.stem →
      ¬ (Fate.of work.settings made.files other).isDocumented) :
    (deliverAll (documentPlace work.settings work.output made.files)
      (Fate.of work.settings made.files) work.files made).files.find
        (documentPath work.settings.format work.output file) =
          .ok (.file result.text.toUTF8) := by
  have hsubset : front ++ file :: back ⊆ work.files := by
    rw [hfiles]
    apply List.Subset.refl
  have hdocumented := Fate.isDocumented_iff.2 ⟨result, hfate⟩
  rw [hfiles]
  apply h.clear.find_last_documentPath hsubset hfate
  intro other hother hdocumented'
  apply h.documentPlace_ne (hsubset (by simp [hother])) (hsubset (by simp)) hdocumented' hdocumented
  intro hstem
  exact hlast other hother hstem hdocumented'

/--
Undisturbed work leaves the documents in their places, and fails if there was work but none of it
could be done.
-/
theorem exec_perform (h : work.Undisturbed made) (log : List Warning) :
    ∃ log', exec work.perform log made =
      ((if work.files.isEmpty ||
            work.files.any fun file => (Fate.of work.settings made.files file).isDocumented then
          .ok ()
        else
          .error ⟨"no component could be documented", none⟩,
        log'),
        deliverAll (documentPlace work.settings work.output made.files)
          (Fate.of work.settings made.files) work.files made) := by
  have hany : (work.files.map fun file =>
      (Fate.of work.settings made.files file).isDocumented).contains true =
        work.files.any fun file => (Fate.of work.settings made.files file).isDocumented := by
    rw [List.contains_eq_any_beq, List.any_map]
    simp [Function.comp_def]
  unfold Work.perform
  rw [exec_bind_of_ok (exec_mapM_documentFile h.clear (List.Subset.refl _) h.isReadable log), hany]
  cases work.files.isEmpty with
  | true => exact ⟨_, rfl⟩
  | false =>
    cases work.files.any fun file => (Fate.of work.settings made.files file).isDocumented with
    | true => exact ⟨_, rfl⟩
    | false => exact ⟨_, rfl⟩

end Work.Undisturbed

end Work

section Whole

variable {texts : List String} {filter : Option String} {arguments : Arguments} {work : Work}
  {outcome : Outcome}

theorem run_of_arguments (h : Arguments.ofList texts = .ok arguments) (filter : Option String)
    (world : World) :
    ((run texts filter : StateM World Outcome).run world).2 =
        (exec (perform arguments) [] world).2 ∧
      (((run texts filter : StateM World Outcome).run world).1.exitCode = 0 ↔
        ∃ stdout, (exec (perform arguments) [] world).1.1 = .ok stdout) := by
  unfold run
  rw [h]
  dsimp only
  rw [World.run_bind]
  unfold exec
  generalize (((perform arguments).run).run [] : StateM World _).run world = outcome
  obtain ⟨⟨result, log⟩, last⟩ := outcome
  cases result with
  | ok stdout => exact ⟨rfl, fun _ => ⟨stdout, rfl⟩, fun _ => rfl⟩
  | error failure => exact ⟨rfl, nofun, nofun⟩

/--
The places of documents in a run with given arguments.
-/
def IsOutputPlace (texts : List String) (world : World) (location : Location) : Prop :=
  ∃ arguments work log made, Arguments.ofList texts = .ok arguments ∧
    exec (prepare arguments) [] world = ((.ok work, log), made) ∧
    IsDocumentPlace work.settings work.output work.files made location

theorem looksOnly_documentInput (settings : Settings) :
    LooksOnly (documentInput settings : Run (StateM World) String) := by
  apply LooksOnly.bind
  . apply LooksOnly.orFail
    exact fun _ => rfl
  . intro text
    apply LooksOnly.bind (looksOnly_orProblem _)
    intro result
    apply LooksOnly.bind
    . intro log world
      rw [exec_forM_warn]
    . intro _
      apply LooksOnly.pure

theorem looksOnly_perform (h : arguments.inputs = []) :
    LooksOnly (perform arguments : Run (StateM World) String) := by
  apply LooksOnly.bind (looksOnly_loadColumns _)
  intro columns
  apply LooksOnly.bind (looksOnly_orProblem _)
  intro format
  dsimp only
  rw [h]
  apply looksOnly_documentInput

theorem exec_perform_of_prepared (hinputs : arguments.inputs ≠ [])
    (hprepared : exec (prepare arguments) [] world = ((.ok work, log), made)) :
    (exec (perform arguments) [] world).2 = (exec work.perform log made).2 ∧
      ((∃ stdout, (exec (perform arguments) [] world).1.1 = .ok stdout) ↔
        (exec work.perform log made).1.1 = .ok ()) := by
  rw [perform_eq_prepare hinputs, exec_bind_of_ok hprepared, exec_bind]
  generalize exec work.perform log made = outcome
  obtain ⟨⟨result, middle⟩, last⟩ := outcome
  cases result with
  | ok => exact ⟨rfl, fun _ => rfl, fun _ => ⟨"", rfl⟩⟩
  | error failure => exact ⟨rfl, nofun, nofun⟩

/--
However a run ends, it changes no files but documents, and loses none.
-/
theorem changesOnly_run (texts : List String) (filter : Option String) (world : World) :
    ChangesOnly (IsOutputPlace texts world) world.files
      ((run texts filter : StateM World Outcome).run world).2.files := by
  cases harguments : Arguments.ofList texts with
  | error usage =>
    unfold run
    rw [harguments]
    cases usage with
    | help => exact (SameFiles.refl _).changesOnly
    | invalid => exact (SameFiles.refl _).changesOnly
  | ok arguments =>
    rw [(run_of_arguments harguments filter world).1]
    by_cases hinputs : arguments.inputs = []
    . rw [looksOnly_perform hinputs]
      exact (SameFiles.refl _).changesOnly
    . have hprepare := keepsFiles_prepare arguments [] world
      cases hexec : exec (prepare arguments) [] world with
      | mk outcome made =>
        obtain ⟨result, log⟩ := outcome
        rw [hexec] at hprepare
        cases result with
        | error failure =>
          rw [perform_eq_prepare hinputs, exec_bind_of_error hexec]
          exact hprepare.changesOnly
        | ok work =>
          rw [(exec_perform_of_prepared hinputs hexec).1, exec_perform_world]
          apply hprepare.changesOnly.trans
          apply (changesOnly_mapM_documentFile _ _ _ _ _).mono
          intro location hplace
          exact ⟨arguments, work, log, made, harguments, hexec, hplace⟩

/--
A run whose work is undisturbed leaves the documents in their places, and succeeds if there was
nothing to do or something was done.
-/
theorem run_of_undisturbed (harguments : Arguments.ofList texts = .ok arguments)
    (hinputs : arguments.inputs ≠ [])
    (hprepared : exec (prepare arguments) [] world = ((.ok work, log), made))
    (hundisturbed : work.Undisturbed made) (filter : Option String) :
    ((run texts filter : StateM World Outcome).run world).2 =
        deliverAll (documentPlace work.settings work.output made.files)
          (Fate.of work.settings made.files) work.files made ∧
      (((run texts filter : StateM World Outcome).run world).1.exitCode = 0 ↔ work.files = [] ∨
        ∃ file ∈ work.files, (Fate.of work.settings made.files file).isDocumented) := by
  obtain ⟨log', hperform⟩ := hundisturbed.exec_perform log
  obtain ⟨hworld, hexit⟩ := run_of_arguments harguments filter world
  obtain ⟨hworld', hok⟩ := exec_perform_of_prepared hinputs hprepared
  rw [hworld, hworld', hexit, hok, hperform]
  refine ⟨rfl, ?_⟩
  rw [or_iff_not_imp_left]
  simp

/--
The frame of a run. However it ends, every file stays as it was unless its place is that of a
document, and no file is lost. Where nothing gets in the way of the work, each document has in the
end the text of the last file, in the order of paths, that goes to its place, and the run succeeds
if there was nothing to do or something was done.
-/
theorem run_frame (texts : List String) (filter : Option String) (world : World)
    (hrun : (run texts filter : StateM World Outcome).run world = (outcome, final)) :
    (∀ location, ¬ IsOutputPlace texts world location →
      final.files.fileAt? location = world.files.fileAt? location) ∧
    (∀ location, (world.files.fileAt? location).isSome →
      (final.files.fileAt? location).isSome) ∧
    ∀ arguments work log made, Arguments.ofList texts = .ok arguments → arguments.inputs ≠ [] →
      exec (prepare arguments) [] world = ((.ok work, log), made) → work.Undisturbed made →
      work.files.Pairwise (fun p q => p.le q ∧ ¬ p.same q) ∧
      (∀ front file back result, work.files = front ++ file :: back →
        Fate.of work.settings made.files file = .documented result →
        (∀ other ∈ back, other.stem = file.stem →
          ¬ (Fate.of work.settings made.files other).isDocumented) →
        final.files.find (documentPath work.settings.format work.output file) =
          .ok (.file result.text.toUTF8)) ∧
      (outcome.exitCode = 0 ↔ work.files = [] ∨
        ∃ file ∈ work.files, (Fate.of work.settings made.files file).isDocumented) := by
  have hframe := changesOnly_run texts filter world
  rw [hrun] at hframe
  refine ⟨?_, ?_, ?_⟩
  . intro location hplace
    exact (hframe location).resolve_right fun h => hplace h.1
  . intro location hfile
    rcases hframe location with heq | hchanged
    . rw [heq]
      exact hfile
    . exact hchanged.2
  . intro arguments work log made harguments hinputs hprepared hundisturbed
    obtain ⟨hfinal, hexit⟩ :=
      run_of_undisturbed harguments hinputs hprepared hundisturbed filter
    rw [hrun] at hfinal hexit
    dsimp only at hfinal hexit
    refine ⟨?_, ?_, hexit⟩
    . obtain ⟨_, _, _, found, hfound⟩ := prepare_eq_ok hprepared
      rw [hfound]
      apply Path.pairwise_sorted
    . intro front file back result hfiles hfate hlast
      rw [hfinal]
      exact hundisturbed.find_last_document hfiles hfate hlast

end Whole

section SameStems

def componentNamed (name : String) : String :=
  "<script>export default \x7b name: '" ++ name ++ "' \x7d</script>"

/--
Two components with the same stem in different directories.
-/
def sameStems : World where
  files := (({} : FileSystem).place ["a", "Foo.vue"] (.file (componentNamed "A").toUTF8)).place
    ["b", "Foo.vue"] (.file (componentNamed "B").toUTF8)
  input := ⟨#[]⟩

def sameStemsWork : Work :=
  ⟨⟨{}, {}, .markdown⟩, ⟨"out"⟩, [⟨"a/Foo.vue"⟩, ⟨"b/Foo.vue"⟩]⟩

def sameStemsMade : World :=
  { sameStems with files := sameStems.files.place ["out"] .directory }

def sameStemsArguments : Arguments :=
  { inputs := ["a/Foo.vue", "b/Foo.vue"], output := "out" }

theorem ofList_sameStems :
    Arguments.ofList ["-o", "out", "a/Foo.vue", "b/Foo.vue"] = .ok sameStemsArguments := by
  cbv

theorem sorted_sameStems :
    Path.sorted [⟨"a/Foo.vue"⟩, ⟨"b/Foo.vue"⟩] = [⟨"a/Foo.vue"⟩, ⟨"b/Foo.vue"⟩] := by
  unfold Path.sorted
  rw [List.mergeSort_of_pairwise (by decide)]
  decide

theorem prepare_sameStems :
    exec (prepare sameStemsArguments) [] sameStems = ((.ok sameStemsWork, []), sameStemsMade) := by
  have hfound : ∀ input ∈ sameStemsArguments.inputs, ∃ content,
      sameStemsMade.files.find ⟨input⟩ = .ok (.file content) := by
    unfold sameStemsArguments
    simp only [List.mem_cons, List.not_mem_nil, or_false, forall_eq_or_imp, forall_eq]
    exact ⟨⟨_, rfl⟩, ⟨_, rfl⟩⟩
  rw [exec_prepare_of_found rfl rfl rfl rfl hfound]
  exact congrArg (fun files => ((Except.ok (Work.mk _ _ files), []), sameStemsMade))
    sorted_sameStems

theorem fate_componentNamed (name text : String)
    (h : (document (componentNamed name) {} {} .markdown).toOption = some ⟨text, []⟩)
    {fs : FileSystem} {file : Path} (hread : fs.readText file = .ok (componentNamed name)) :
    Fate.of ⟨{}, {}, .markdown⟩ fs file = .documented ⟨text, []⟩ := by
  apply Fate.of_eq_documented.2
  refine ⟨_, hread, ?_⟩
  cases heq : document (componentNamed name) {} {} .markdown with
  | error problem =>
    rw [heq] at h
    cases h
  | ok result =>
    rw [heq] at h
    cases h
    rfl

theorem fate_componentA {fs : FileSystem} (hread : fs.readText file = .ok (componentNamed "A")) :
    Fate.of ⟨{}, {}, .markdown⟩ fs file = .documented ⟨"# A\n", []⟩ :=
  fate_componentNamed "A" _ (by decide +kernel) hread

theorem fates_sameStems :
    Fate.of ⟨{}, {}, .markdown⟩ sameStemsMade.files ⟨"a/Foo.vue"⟩ = .documented ⟨"# A\n", []⟩ ∧
      Fate.of ⟨{}, {}, .markdown⟩ sameStemsMade.files ⟨"b/Foo.vue"⟩ = .documented ⟨"# B\n", []⟩ := by
  constructor
  . exact fate_componentA rfl
  . exact fate_componentNamed "B" _ (by decide +kernel) rfl

theorem forall_mem_sameStems {P : Path → Prop} (ha : P ⟨"a/Foo.vue"⟩) (hb : P ⟨"b/Foo.vue"⟩) :
    ∀ file ∈ sameStemsWork.files, P file := by
  unfold sameStemsWork
  simp [ha, hb]

theorem stem_eq_sameStems : ∀ file ∈ sameStemsWork.files, file.stem = "Foo" :=
  forall_mem_sameStems (by decide) (by decide)

theorem undisturbed_sameStems : sameStemsWork.Undisturbed sameStemsMade := by
  constructor
  . exact forall_mem_sameStems ⟨componentNamed "A", rfl⟩ ⟨componentNamed "B", rfl⟩
  . exact forall_mem_sameStems (fun _ _ => ⟨_, rfl⟩) (fun _ _ => ⟨_, rfl⟩)
  . apply forall_mem_sameStems
    . exact forall_mem_sameStems (fun _ => nofun) (fun _ => nofun)
    . exact forall_mem_sameStems (fun _ => nofun) (fun _ => nofun)
  . intro file hfile other hother _ _ hstem
    apply absurd _ hstem
    rw [stem_eq_sameStems file hfile, stem_eq_sameStems other hother]

theorem run_frame_sameStems :
    ∃ outcome final,
      (run ["-o", "out", "a/Foo.vue", "b/Foo.vue"] none : StateM World Outcome).run sameStems =
        (outcome, final) ∧
      outcome.exitCode = 0 ∧
      final.files.find ⟨"out/Foo.md"⟩ = .ok (.file "# B\n".toUTF8) ∧
      (final.files.fileAt? ["work", "a", "Foo.vue"]).isSome := by
  obtain ⟨_, hkept, hwork⟩ :=
    run_frame ["-o", "out", "a/Foo.vue", "b/Foo.vue"] none sameStems rfl
  obtain ⟨hfirst, hsecond⟩ := fates_sameStems
  obtain ⟨_, hlast, hexit⟩ := hwork _ _ _ _ ofList_sameStems (by decide) prepare_sameStems
    undisturbed_sameStems
  refine ⟨_, _, rfl, ?_, ?_, ?_⟩
  . rw [hexit]
    refine .inr ⟨⟨"b/Foo.vue"⟩, by decide, ?_⟩
    exact Fate.isDocumented_iff.2 ⟨_, hsecond⟩
  . exact hlast [⟨"a/Foo.vue"⟩] ⟨"b/Foo.vue"⟩ [] _ rfl hsecond (by simp)
  . apply hkept
    rfl

end SameStems

section Elsewhere

/--
A run over two files that ends at the second one, behind the document of the first one.
-/
theorem run_of_second_unreadable {texts : List String} {arguments : Arguments}
    {first second : Path} {result : Document} {e : FileError} {after : FileSystem}
    (harguments : Arguments.ofList texts = .ok arguments) (hinputs : arguments.inputs ≠ [])
    (hprepared : exec (prepare arguments) [] world =
      ((.ok ⟨settings, output, [first, second]⟩, log), made))
    (hfirst : Fate.of settings made.files first = .documented result)
    (hwrite : made.files.write (documentPath settings.format output first) result.text.toUTF8 =
      .ok after)
    (hsecond : Fate.of settings after second = .unreadable e) (filter : Option String) :
    ∃ outcome, (run texts filter : StateM World Outcome).run world =
      (outcome, { made with files := after }) ∧ outcome.exitCode ≠ 0 := by
  have hturn : exec (documentFile settings output first) log made =
      ((.ok true, log ++ (Fate.documented result).warnings first),
        { made with files := after }) := by
    rw [exec_documentFile_write hfirst, hwrite]
  have hstop := fun log => @exec_documentFile_unreadable _ output _ log { made with files := after }
    _ hsecond
  have hperform : exec (Work.perform ⟨settings, output, [first, second]⟩) log made =
      ((.error ⟨"failed to read " ++ second.text, some e.message⟩,
        log ++ (Fate.documented result).warnings first), { made with files := after }) := by
    apply exec_bind_of_error
    rw [List.mapM_cons, exec_bind_of_ok hturn]
    apply exec_bind_of_error
    rw [List.mapM_cons, exec_bind_of_error (hstop _)]
  obtain ⟨hworld, hexit⟩ := run_of_arguments harguments filter world
  obtain ⟨hworld', hok⟩ := exec_perform_of_prepared hinputs hprepared
  rw [hperform] at hworld' hok
  refine ⟨_, Prod.ext rfl (hworld.trans hworld'), ?_⟩
  rw [ne_eq, hexit, hok]
  exact nofun

/--
A component and a file that is no text, with an old document and an empty directory beside them. In
a further directory a link to the old document stands under its name.
-/
def elsewhere : World where
  files := ((((({} : FileSystem).place ["a.vue"] (.file (componentNamed "A").toUTF8)).place
    ["b.vue"] (.file ⟨#[0xff]⟩)).place ["out", "a.md"] (.file "old".toUTF8)).place
    ["x"] .directory).place ["links", "a.md"] (.link ⟨"../out/a.md"⟩)
  input := ⟨#[]⟩

theorem sorted_elsewhere : Path.sorted [⟨"a.vue"⟩, ⟨"b.vue"⟩] = [⟨"a.vue"⟩, ⟨"b.vue"⟩] := by
  unfold Path.sorted
  rw [List.mergeSort_of_pairwise (by decide)]
  decide

theorem run_elsewhere {output : String} {texts : List String}
    (harguments : Arguments.ofList texts =
      .ok { inputs := ["a.vue", "b.vue"], output := some output })
    (hopened : (FileAccess.makeDirectories (output.length + 1) ⟨output⟩ : StateM World _).run
      elsewhere = (.ok (), elsewhere))
    (hwrite : elsewhere.files.write (documentPath .markdown ⟨output⟩ ⟨"a.vue"⟩) "# A\n".toUTF8 =
      .ok (elsewhere.files.put ["work", "out", "a.md"] (.file "# A\n".toUTF8))) :
    ∃ outcome final, (run texts none : StateM World Outcome).run elsewhere = (outcome, final) ∧
      outcome.exitCode ≠ 0 ∧ final.files.find ⟨"out/a.md"⟩ = .ok (.file "# A\n".toUTF8) := by
  have hfound : ∀ input ∈ ["a.vue", "b.vue"], ∃ content,
      elsewhere.files.find ⟨input⟩ = .ok (.file content) := by
    simp only [List.mem_cons, List.not_mem_nil, or_false, forall_eq_or_imp, forall_eq]
    exact ⟨⟨_, rfl⟩, ⟨_, rfl⟩⟩
  have hprepared := @exec_prepare_of_found []
    elsewhere elsewhere { inputs := ["a.vue", "b.vue"], output := some output } output rfl rfl rfl
    hopened hfound
  rw [List.map_cons, List.map_singleton, sorted_elsewhere] at hprepared
  have hread : elsewhere.files.readText ⟨"a.vue"⟩ = .ok (componentNamed "A") := rfl
  obtain ⟨outcome, hrun, hexit⟩ := run_of_second_unreadable harguments (by simp) hprepared
    (fate_componentA hread) hwrite (Fate.of_eq_unreadable.2 rfl) none
  exact ⟨outcome, _, hrun, hexit, rfl⟩

/--
Paths as they are written do not tell which files a run changes: the path of a document may lead to
a file by a detour, or through a link.
-/
theorem run_changes_file_elsewhere :
    elsewhere.files.find ⟨"out/a.md"⟩ = .ok (.file "old".toUTF8) ∧
    (∃ outcome final,
      (run ["-o", "x/../out", "a.vue", "b.vue"] none : StateM World Outcome).run elsewhere =
        (outcome, final) ∧
      outcome.exitCode ≠ 0 ∧
      (∀ input ∈ ["a.vue", "b.vue"],
        ¬ (documentPath .markdown ⟨"x/../out"⟩ ⟨input⟩).same ⟨"out/a.md"⟩) ∧
      final.files.find ⟨"out/a.md"⟩ = .ok (.file "# A\n".toUTF8)) ∧
    ∃ outcome final,
      (run ["-o", "links", "a.vue", "b.vue"] none : StateM World Outcome).run elsewhere =
        (outcome, final) ∧
      outcome.exitCode ≠ 0 ∧
      (∀ input ∈ ["a.vue", "b.vue"],
        ¬ (documentPath .markdown ⟨"links"⟩ ⟨input⟩).same ⟨"out/a.md"⟩) ∧
      final.files.find ⟨"out/a.md"⟩ = .ok (.file "# A\n".toUTF8) := by
  have hdetour : Arguments.ofList ["-o", "x/../out", "a.vue", "b.vue"] =
      .ok { inputs := ["a.vue", "b.vue"], output := some "x/../out" } := by
    cbv
  have hlinks : Arguments.ofList ["-o", "links", "a.vue", "b.vue"] =
      .ok { inputs := ["a.vue", "b.vue"], output := some "links" } := by
    cbv
  refine ⟨rfl, ?_, ?_⟩
  . obtain ⟨outcome, final, hrun, hexit, hchanged⟩ := run_elsewhere hdetour rfl rfl
    exact ⟨outcome, final, hrun, hexit, by decide, hchanged⟩
  . obtain ⟨outcome, final, hrun, hexit, hchanged⟩ := run_elsewhere hlinks rfl rfl
    exact ⟨outcome, final, hrun, hexit, by decide, hchanged⟩

end Elsewhere

end ComponentDoc.Run
