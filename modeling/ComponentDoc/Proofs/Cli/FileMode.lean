import ComponentDoc.Proofs.Cli.Run

/-!
Documenting files. As long as no input is written over, what a run over readable files leaves is
known from their fates: the documents of those that could be documented, each in its own place.
-/

namespace ComponentDoc.Run

open FileSystem

variable {settings : Settings} {output file path : Path} {files rest : List Path}
  {fs : FileSystem} {location : Location} {log : List Warning} {world : World}
  {place : Path → Location} {fate : Path → Fate}

section Names

def targetName (settings : Settings) (file : Path) : String :=
  file.stem ++ "." ++ settings.format.fileExtension

theorem not_mem_targetName {name : String} (h : file.fileName? = some name) :
    '/' ∉ (targetName settings file).toList := by
  have hstem := Path.not_mem_stem h
  have hextension : '/' ∉ settings.format.fileExtension.toList := by
    cases settings.format with
    | markdown => decide
    | json => decide
  unfold targetName
  simp [hstem, hextension]

theorem componentOf?_targetName :
    Path.componentOf? (targetName settings file) = some (.name (targetName settings file)) := by
  have hlength : 2 < (targetName settings file).length := by
    unfold targetName
    rw [String.length_append, String.length_append]
    have hextension : 2 ≤ settings.format.fileExtension.length := by
      cases settings.format with
      | markdown => decide
      | json => decide
    have hpoint : ".".length = 1 := rfl
    omega
  have hne : ∀ other : String, other.length ≤ 2 → targetName settings file ≠ other := by
    rintro other hother rfl
    omega
  unfold Path.componentOf?
  simp [hne "" (by decide), hne "." (by decide), hne ".." (by decide)]

theorem stem_eq_of_targetName_eq {other : Path}
    (h : targetName settings file = targetName settings other) : file.stem = other.stem := by
  unfold targetName at h
  have hlists := congrArg String.toList h
  simp only [String.toList_append, List.append_assoc] at hlists
  exact String.toList_injective (List.append_cancel_right hlists)

/--
Where no link stands under the name of a document, the document goes into the output directory.
-/
theorem locate_documentPath {directory : Location} (hfile : file.fileName?.isSome)
    (hlead : fs.lead output output.parts = .ok directory)
    (hdirectory : fs.entry? directory = some .directory)
    (hlink : fs.linkAt? (directory ++ [targetName settings file]) = none) :
    fs.locate (documentPath settings.format output file) =
      .ok (directory ++ [targetName settings file]) := by
  obtain ⟨name, hname⟩ := Option.isSome_iff_exists.1 hfile
  exact locate_join (not_mem_targetName hname) componentOf?_targetName hlead hdirectory hlink

theorem stem_eq_of_locate_eq {other : Path} {directory : Location}
    (h : fs.locate (documentPath settings.format output file) =
      .ok (directory ++ [targetName settings file]))
    (h' : fs.locate (documentPath settings.format output other) =
      .ok (directory ++ [targetName settings other]))
    (heq : fs.locate (documentPath settings.format output file) =
      fs.locate (documentPath settings.format output other)) : file.stem = other.stem := by
  rw [h, h', Except.ok.injEq, List.append_cancel_left_eq, List.singleton_inj] at heq
  exact stem_eq_of_targetName_eq heq

/--
An output directory that was made is found by following its path, also if the path is empty.
-/
theorem exists_lead_of_makeDirectories {depth : Nat} {made : World}
    (h : (FileAccess.makeDirectories depth output : StateM World _).run world = (.ok (), made)) :
    ∃ directory, made.files.lead output output.parts = .ok directory ∧
      made.files.entry? directory = some .directory := by
  rcases World.makeDirectories_eq_ok h with hempty | hfind
  . have houtput : output = ⟨""⟩ := congrArg Path.mk hempty
    rw [houtput]
    refine ⟨made.files.workingDirectory, ?_, entry?_above (List.prefix_refl _)⟩
    apply follow_eq_ok.2
    apply Follows.place
    apply walk_blanks (entry?_above (List.prefix_refl _))
    simp [Path.parts, splitSlashes]
  . obtain ⟨directory, hlocate, hentry⟩ := find_eq_ok.1 hfind
    exact ⟨directory, follow_eq_ok.2 (locate_eq_ok.1 hlocate).2, hentry⟩

end Names

/--
The place to which the path of the document of a file leads, if it leads anywhere.
-/
def documentPlace (settings : Settings) (output : Path) (fs : FileSystem) (file : Path) :
    Location :=
  (fs.locate (documentPath settings.format output file)).toOption.getD []

theorem documentPlace_eq
    (h : fs.locate (documentPath settings.format output file) = .ok location) :
    documentPlace settings output fs file = location := by
  unfold documentPlace
  rw [h]
  rfl

/--
A file system in which files can be documented: the documents have their places, none of which is a
directory or the place of an input, and the inputs have the given fates.
-/
structure Clear (settings : Settings) (output : Path) (place : Path → Location) (files : List Path)
    (fate : Path → Fate) (fs : FileSystem) : Prop where
  located : ∀ file ∈ files, (fate file).isDocumented →
    fs.locate (documentPath settings.format output file) = .ok (place file)
  inputs : ∀ file ∈ files, ∃ location content, fs.locate file = .ok location ∧
    fs.entry? location = some (.file content) ∧ ∀ other ∈ files, (fate other).isDocumented →
      location ≠ place other
  targets : ∀ file ∈ files, (fate file).isDocumented →
    fs.entry? (place file) ≠ some .directory
  fates : ∀ file ∈ files, Fate.of settings fs file = fate file

/--
The file system behind a file that is documented, or not.
-/
def deliver (place : Path → Location) (fate : Path → Fate) (fs : FileSystem) (file : Path) :
    FileSystem :=
  match fate file with
  | .documented result => fs.put (place file) (.file result.text.toUTF8)
  | _ => fs

def deliverAll (place : Path → Location) (fate : Path → Fate) (files : List Path) (world : World) :
    World :=
  { world with files := files.foldl (deliver place fate) world.files }

theorem deliverAll_cons :
    deliverAll place fate (file :: rest) world =
      deliverAll place fate rest { world with files := deliver place fate world.files file } :=
  rfl

namespace Clear

theorem keepsWays_put {content : ByteArray} (h : Clear settings output place files fate fs)
    (hfile : file ∈ files) (hdocumented : (fate file).isDocumented) :
    KeepsWays fs (fs.put (place file) (.file content)) :=
  keepsWays_put_file (h.located file hfile hdocumented) (h.targets file hfile hdocumented)

theorem put {content : ByteArray} (h : Clear settings output place files fate fs)
    (hfile : file ∈ files) (hdocumented : (fate file).isDocumented) :
    Clear settings output place files fate (fs.put (place file) (.file content)) := by
  have hkeeps := @keepsWays_put _ _ _ _ _ _ _ content h hfile hdocumented
  constructor
  . intro other hother hdocumented'
    exact hkeeps.locate_eq (h.located other hother hdocumented')
  . intro other hother
    obtain ⟨location, content', hlocate, hentry, hne⟩ := h.inputs other hother
    refine ⟨location, content', hkeeps.locate_eq hlocate, ?_, hne⟩
    rw [entry?_put_of_ne (hne file hfile hdocumented)]
    exact hentry
  . intro other hother hdocumented'
    by_cases heq : place other = place file
    . rw [heq, entry?_put_self (h.targets file hfile hdocumented)]
      exact nofun
    . rw [entry?_put_of_ne heq]
      exact h.targets other hother hdocumented'
  . intro other hother
    obtain ⟨location, content', hlocate, hentry, hne⟩ := h.inputs other hother
    rw [← h.fates other hother]
    apply @Fate.of_eq_of_find _ _ _ _ content'
    . rw [find_eq_ok]
      refine ⟨location, hkeeps.locate_eq hlocate, ?_⟩
      rw [entry?_put_of_ne (hne file hfile hdocumented)]
      exact hentry
    . rw [find_eq_ok]
      exact ⟨location, hlocate, hentry⟩

theorem deliver (h : Clear settings output place files fate fs) (hfile : file ∈ files) :
    Clear settings output place files fate (deliver place fate fs file) ∧
      KeepsWays fs (Run.deliver place fate fs file) := by
  unfold Run.deliver
  split
  . next result heq =>
    have hdocumented := Fate.isDocumented_iff.2 ⟨result, heq⟩
    exact ⟨h.put hfile hdocumented, h.keepsWays_put hfile hdocumented⟩
  . exact ⟨h, .refl fs⟩

theorem deliverAll (h : Clear settings output place files fate world.files)
    (hrest : rest ⊆ files) :
    Clear settings output place files fate (deliverAll place fate rest world).files ∧
      KeepsWays world.files (Run.deliverAll place fate rest world).files := by
  induction rest generalizing world with
  | nil => exact ⟨h, .refl _⟩
  | cons file rest ih =>
    rw [List.cons_subset] at hrest
    obtain ⟨hfirst, hkeeps⟩ := h.deliver hrest.1
    rw [deliverAll_cons]
    obtain ⟨hall, hkeeps'⟩ :=
      @ih { world with files := Run.deliver place fate world.files file } hfirst hrest.2
    exact ⟨hall, hkeeps.trans hkeeps'⟩

end Clear

section Loop

/--
One file that can be read.
-/
theorem exec_documentFile (h : Clear settings output place files fate world.files)
    (hfile : file ∈ files) (hreadable : (fate file).isReadable) (log : List Warning) :
    exec (documentFile settings output file) log world =
      ((.ok (fate file).isDocumented, log ++ (fate file).warnings file),
        { world with files := deliver place fate world.files file }) := by
  have hfate := h.fates file hfile
  unfold deliver
  cases heq : fate file with
  | unreadable e =>
    rw [heq] at hreadable
    cases hreadable
  | skipped problem =>
    rw [heq] at hfate
    apply exec_documentFile_skipped hfate
  | documented result =>
    have hdocumented := Fate.isDocumented_iff.2 ⟨result, heq⟩
    rw [heq] at hfate
    apply exec_documentFile_documented hfate (h.located file hfile hdocumented)
    exact h.targets file hfile hdocumented

/--
All files of a list, if they can be read.
-/
theorem exec_mapM_documentFile (h : Clear settings output place files fate world.files)
    (hrest : rest ⊆ files) (hreadable : ∀ file ∈ rest, (fate file).isReadable)
    (log : List Warning) :
    exec (rest.mapM (documentFile settings output)) log world =
      ((.ok (rest.map fun file => (fate file).isDocumented),
        log ++ rest.flatMap fun file => (fate file).warnings file),
        deliverAll place fate rest world) := by
  induction rest generalizing log world with
  | nil =>
    rw [List.mapM_nil, List.flatMap_nil, List.append_nil]
    apply exec_pure
  | cons file rest ih =>
    rw [List.cons_subset] at hrest
    rw [List.forall_mem_cons] at hreadable
    rw [List.mapM_cons, exec_bind_of_ok (exec_documentFile h hrest.1 hreadable.1 log), exec_bind,
      ih (h.deliver hrest.1).1 hrest.2 hreadable.2]
    simp only [List.flatMap_cons, List.append_assoc]
    apply exec_pure

/--
The first file that cannot be read ends the run; those before it are documented.
-/
theorem exec_mapM_documentFile_unreadable {front back : List Path} {e : FileError}
    (h : Clear settings output place files fate world.files)
    (hfiles : front ++ file :: back ⊆ files) (hreadable : ∀ file ∈ front, (fate file).isReadable)
    (hfile : fate file = .unreadable e) (log : List Warning) :
    exec ((front ++ file :: back).mapM (documentFile settings output)) log world =
      ((.error ⟨"failed to read " ++ file.text, some e.message⟩,
        log ++ front.flatMap fun file => (fate file).warnings file),
        deliverAll place fate front world) := by
  rw [List.append_subset, List.cons_subset] at hfiles
  have hfate : Fate.of settings (deliverAll place fate front world).files file =
      .unreadable e := by
    rw [← hfile]
    exact (h.deliverAll hfiles.1).1.fates file hfiles.2.1
  have hlast := fun log => @exec_documentFile_unreadable _ output _ log _ _ hfate
  rw [List.mapM_append, exec_bind_of_ok (exec_mapM_documentFile h hfiles.1 hreadable log)]
  apply exec_bind_of_error
  rw [List.mapM_cons, exec_bind_of_error (hlast _)]

end Loop

section Delivery

theorem deliverAll_append {front : List Path} :
    deliverAll place fate (front ++ rest) world =
      deliverAll place fate rest (deliverAll place fate front world) := by
  unfold deliverAll
  rw [List.foldl_append]

/--
A place to which no document goes is left alone.
-/
theorem entry?_deliverAll_of_ne
    (h : ∀ other ∈ rest, (fate other).isDocumented → location ≠ place other) :
    entry? (deliverAll place fate rest world).files location = world.files.entry? location := by
  induction rest generalizing world with
  | nil => rfl
  | cons other rest ih =>
    rw [List.forall_mem_cons] at h
    rw [deliverAll_cons, ih h.2]
    unfold deliver
    split
    . next result heq => exact entry?_put_of_ne (h.1 (Fate.isDocumented_iff.2 ⟨result, heq⟩))
    . rfl

namespace Clear

theorem find_deliverAll_of_ne (h : Clear settings output place files fate world.files)
    (hrest : rest ⊆ files) (hlocate : world.files.locate path = .ok location)
    (hne : ∀ other ∈ rest, (fate other).isDocumented → location ≠ place other) :
    (Run.deliverAll place fate rest world).files.find path = world.files.find path := by
  rw [find_of_locate ((h.deliverAll hrest).2.locate_eq hlocate), find_of_locate hlocate,
    entry?_deliverAll_of_ne hne]

/--
The last document that goes to a place stays there.
-/
theorem find_last_documentPath {front back : List Path} {result : Document}
    (h : Clear settings output place files fate world.files)
    (hrest : front ++ file :: back ⊆ files) (hfate : fate file = .documented result)
    (hlast : ∀ other ∈ back, (fate other).isDocumented → place other ≠ place file) :
    (Run.deliverAll place fate (front ++ file :: back) world).files.find
      (documentPath settings.format output file) = .ok (.file result.text.toUTF8) := by
  have hdocumented := Fate.isDocumented_iff.2 ⟨result, hfate⟩
  have hfile : file ∈ files := hrest (by simp)
  have hlocate := (h.deliverAll hrest).1.located file hfile hdocumented
  rw [List.append_subset] at hrest
  have hfront := (h.deliverAll hrest.1).1
  rw [find_of_locate hlocate, deliverAll_append, deliverAll_cons, entry?_deliverAll_of_ne]
  . unfold Run.deliver
    rw [hfate]
    dsimp only
    rw [entry?_put_self (hfront.targets file hfile hdocumented)]
  . intro other hother hdocumented'
    exact (hlast other hother hdocumented').symm

/--
Where no two files share a place, every document stays.
-/
theorem find_documentPath (h : Clear settings output place files fate world.files)
    (hrest : rest ⊆ files) (hmem : file ∈ rest) (hplaces : (rest.map place).Nodup)
    {result : Document} (hfate : fate file = .documented result) :
    (Run.deliverAll place fate rest world).files.find
      (documentPath settings.format output file) = .ok (.file result.text.toUTF8) := by
  obtain ⟨front, back, rfl⟩ := List.append_of_mem hmem
  apply h.find_last_documentPath hrest hfate
  intro other hother _ heq
  rw [List.map_append, List.map_cons, List.nodup_append, List.nodup_cons] at hplaces
  apply hplaces.2.1.1
  rw [← heq]
  exact List.mem_map_of_mem hother

end Clear

end Delivery

section Expansion

variable {inputs : List String}

theorem exec_expandInput {input : String} {content : ByteArray}
    (h : world.files.find ⟨input⟩ = .ok (.file content)) :
    exec (expandInput input) log world = ((.ok [⟨input⟩], log), world) := by
  unfold expandInput
  rw [exec_bind_of_ok (exec_ask _), World.run_isFile h]
  apply exec_pure

theorem exec_expandInputs
    (h : ∀ input ∈ inputs, ∃ content, world.files.find ⟨input⟩ = .ok (.file content)) :
    exec (expandInputs inputs) log world =
      ((.ok (Path.sorted (inputs.map Path.mk)), log), world) := by
  have hfound : exec (inputs.flatMapM expandInput) log world =
      ((.ok (inputs.map Path.mk), log), world) := by
    induction inputs with
    | nil => apply exec_pure
    | cons input inputs ih =>
      rw [List.forall_mem_cons] at h
      obtain ⟨content, hcontent⟩ := h.1
      rw [List.flatMapM_cons, exec_bind_of_ok (exec_expandInput hcontent), exec_bind_of_ok (ih h.2)]
      apply exec_pure
  unfold expandInputs
  rw [exec_bind_of_ok hfound]
  apply exec_pure

end Expansion

end ComponentDoc.Run
