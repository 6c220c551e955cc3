import Mathlib.Data.List.Nodup
import ComponentDoc.Proofs.Cli.FileMode

/-!
Inputs and their neighbours. A component that cannot be documented is skipped and costs no other
input its document. An input that is no text ends the run: what sorts before it is documented, and
what sorts behind it is not.
-/

namespace ComponentDoc.Run

open FileSystem

/--
Input files with stems of their own, and an output directory that can be made and written to: each
document has a place of its own there, as it has where no links stand under the names of documents.
No document goes to the place of an input, as none does if the directory contains no input.
-/
structure Ready (settings : Settings) (output : String) (inputs : List String)
    (world made : World) : Prop where
  nonempty : inputs ≠ []
  found : ∀ input ∈ inputs, ∃ content, world.files.find ⟨input⟩ = .ok (.file content)
  distinct : (inputs.map fun input => Path.stem ⟨input⟩).Nodup
  opened : (FileAccess.makeDirectories (output.length + 1) ⟨output⟩ : StateM World _).run world =
    (.ok (), made)
  outside : ∀ input ∈ inputs, ∀ other ∈ inputs,
    made.files.locate (documentPath settings.format ⟨output⟩ ⟨other⟩) ≠ made.files.locate ⟨input⟩
  writable : ∀ input ∈ inputs, ∃ location,
    made.files.locate (documentPath settings.format ⟨output⟩ ⟨input⟩) = .ok location ∧
      made.files.entry? location ≠ some .directory
  apart : ∀ input ∈ inputs, ∀ other ∈ inputs, input ≠ other →
    made.files.locate (documentPath settings.format ⟨output⟩ ⟨input⟩) ≠
      made.files.locate (documentPath settings.format ⟨output⟩ ⟨other⟩)

variable {settings : Settings} {output : String} {inputs : List String} {world made : World}
  {log : List Warning}

/--
Where no links stand under the names of documents, and no directories either, each document has a
place of its own.
-/
theorem ready_of_unlinked {directory : Location} (hnonempty : inputs ≠ [])
    (hfound : ∀ input ∈ inputs, ∃ content, world.files.find ⟨input⟩ = .ok (.file content))
    (hdistinct : (inputs.map fun input => Path.stem ⟨input⟩).Nodup)
    (hopened : (FileAccess.makeDirectories (output.length + 1) ⟨output⟩ : StateM World _).run world =
      (.ok (), made))
    (houtside : ∀ input ∈ inputs, ∀ other ∈ inputs,
      made.files.locate (documentPath settings.format ⟨output⟩ ⟨other⟩) ≠
        made.files.locate ⟨input⟩)
    (hlead : made.files.lead ⟨output⟩ (Path.parts ⟨output⟩) = .ok directory)
    (hwritable : ∀ input ∈ inputs,
      made.files.linkAt? (directory ++ [targetName settings ⟨input⟩]) = none ∧
        made.files.entry? (directory ++ [targetName settings ⟨input⟩]) ≠ some .directory) :
    Ready settings output inputs world made := by
  have hdirectory : made.files.entry? directory = some .directory := by
    obtain ⟨_, hlead', hdirectory⟩ := exists_lead_of_makeDirectories hopened
    cases hlead.symm.trans hlead'
    exact hdirectory
  have hlocate : ∀ input ∈ inputs,
      made.files.locate (documentPath settings.format ⟨output⟩ ⟨input⟩) =
        .ok (directory ++ [targetName settings ⟨input⟩]) := by
    intro input hinput
    obtain ⟨content, hfind⟩ := hfound input hinput
    exact locate_documentPath (fileName?_isSome_of_find hfind) hlead hdirectory
      (hwritable input hinput).1
  refine ⟨hnonempty, hfound, hdistinct, hopened, houtside, ?_, ?_⟩
  . intro input hinput
    exact ⟨_, hlocate input hinput, (hwritable input hinput).2⟩
  . intro input hinput other hother hne heq
    have hstem := stem_eq_of_locate_eq (hlocate input hinput) (hlocate other hother) heq
    exact hne (List.inj_on_of_nodup_map hdistinct hinput hother hstem)

/--
The inputs in the order in which they are documented.
-/
def queue (inputs : List String) : List Path :=
  (inputs.map Path.mk).mergeSort Path.le

theorem mem_queue {file : Path} : file ∈ queue inputs ↔ file.text ∈ inputs := by
  unfold queue
  rw [List.mem_mergeSort, List.mem_map]
  constructor
  . rintro ⟨input, hinput, rfl⟩
    exact hinput
  . intro hfile
    exact ⟨file.text, hfile, rfl⟩

theorem pairwise_queue (inputs : List String) : (queue inputs).Pairwise fun p q => p.le q := by
  apply Path.pairwise_mergeSort_le

namespace Ready

theorem found_made (h : Ready settings output inputs world made) :
    ∀ input ∈ inputs, ∃ content, world.files.find ⟨input⟩ = .ok (.file content) ∧
      made.files.find ⟨input⟩ = .ok (.file content) := by
  intro input hinput
  obtain ⟨content, hfind⟩ := h.found input hinput
  have hadds :=
    World.addsDirectories_makeDirectories (output.length + 1) ⟨output⟩ world
  rw [h.opened] at hadds
  exact ⟨content, hfind, hadds.find_eq hfind⟩

theorem fileName?_isSome (h : Ready settings output inputs world made) {file : Path}
    (hfile : file.text ∈ inputs) : file.fileName?.isSome := by
  obtain ⟨content, hfind⟩ := h.found file.text hfile
  exact fileName?_isSome_of_find hfind

theorem pairwise_stem (h : Ready settings output inputs world made) :
    (queue inputs).Pairwise fun p q => p.stem ≠ q.stem := by
  unfold queue
  rw [(List.mergeSort_perm _ Path.le).pairwise_iff Ne.symm, List.pairwise_map]
  exact List.pairwise_map.1 h.distinct

theorem eq_of_stem_eq (h : Ready settings output inputs world made) {file other : Path}
    (hfile : file ∈ queue inputs) (hother : other ∈ queue inputs)
    (hstem : file.stem = other.stem) : file = other := by
  have hnodup : ((queue inputs).map Path.stem).Nodup := List.pairwise_map.2 h.pairwise_stem
  exact List.inj_on_of_nodup_map hnodup hfile hother hstem

/--
Inputs with different stems are different paths, so none of them is dropped.
-/
theorem sorted_eq_queue (h : Ready settings output inputs world made) :
    Path.sorted (inputs.map Path.mk) = queue inputs := by
  apply Path.sorted_eq_mergeSort
  rw [List.pairwise_map]
  apply (List.pairwise_map.1 h.distinct).imp_of_mem
  intro input other hinput _ hstem hsame
  exact hstem (Path.stem_eq_of_same hsame (h.fileName?_isSome hinput))

theorem exists_locate (h : Ready settings output inputs world made) {file : Path}
    (hfile : file ∈ queue inputs) :
    ∃ location, made.files.locate (documentPath settings.format ⟨output⟩ file) = .ok location ∧
      made.files.entry? location ≠ some .directory :=
  h.writable file.text (mem_queue.1 hfile)

theorem eq_of_documentPlace_eq (h : Ready settings output inputs world made) {file other : Path}
    (hfile : file ∈ queue inputs) (hother : other ∈ queue inputs)
    (hplace : documentPlace settings ⟨output⟩ made.files file =
      documentPlace settings ⟨output⟩ made.files other) : file = other := by
  obtain ⟨location, hlocate, _⟩ := h.exists_locate hfile
  obtain ⟨location', hlocate', _⟩ := h.exists_locate hother
  rw [documentPlace_eq hlocate, documentPlace_eq hlocate'] at hplace
  apply Decidable.byContradiction
  intro hne
  apply h.apart file.text (mem_queue.1 hfile) other.text (mem_queue.1 hother)
  . exact fun htext => hne (congrArg Path.mk htext)
  . exact hlocate.trans ((congrArg Except.ok hplace).trans hlocate'.symm)

theorem nodup_documentPlace (h : Ready settings output inputs world made) :
    ((queue inputs).map (documentPlace settings ⟨output⟩ made.files)).Nodup := by
  apply List.Nodup.map_on
  . intro file hfile other hother hplace
    exact h.eq_of_documentPlace_eq hfile hother hplace
  . apply h.pairwise_stem.imp
    rintro file _ hstem rfl
    exact hstem rfl

theorem clear (h : Ready settings output inputs world made) :
    Clear settings ⟨output⟩ (documentPlace settings ⟨output⟩ made.files) (queue inputs)
      (Fate.of settings world.files) made.files := by
  constructor
  . intro file hfile _
    obtain ⟨location, hlocate, _⟩ := h.exists_locate hfile
    rw [documentPlace_eq hlocate, hlocate]
  . intro file hfile
    obtain ⟨content, _, hfind⟩ := h.found_made file.text (mem_queue.1 hfile)
    obtain ⟨place, hplace, hcontent⟩ := find_eq_ok.1 hfind
    refine ⟨place, content, hplace, hcontent, ?_⟩
    rintro other hother - rfl
    obtain ⟨location, hlocate, _⟩ := h.exists_locate hother
    apply h.outside file.text (mem_queue.1 hfile) other.text (mem_queue.1 hother)
    rw [documentPlace_eq hlocate] at hplace
    exact hlocate.trans hplace.symm
  . intro file hfile _
    obtain ⟨location, hlocate, hfree⟩ := h.exists_locate hfile
    rw [documentPlace_eq hlocate]
    exact hfree
  . intro file hfile
    obtain ⟨content, hfind, hfind'⟩ := h.found_made file.text (mem_queue.1 hfile)
    exact Fate.of_eq_of_find hfind' hfind

theorem isEmpty_queue (h : Ready settings output inputs world made) :
    (queue inputs).isEmpty = false := by
  cases hqueue : queue inputs with
  | cons => rfl
  | nil =>
    obtain ⟨input, hinput⟩ := List.exists_mem_of_ne_nil inputs h.nonempty
    have hmem := (@mem_queue inputs ⟨input⟩).2 hinput
    rw [hqueue] at hmem
    cases hmem

/--
A run makes the output directory and goes through its inputs.
-/
theorem exec_documentFiles (h : Ready settings output inputs world made) (log : List Warning) :
    exec (documentFiles settings (some output) inputs) log world =
      exec (do
        let documented ← (queue inputs).mapM (documentFile settings ⟨output⟩)
        if !documented.contains true then
          throw ⟨"no component could be documented", none⟩) log made := by
  have hexpand : exec (expandInputs inputs) log made = ((.ok (queue inputs), log), made) := by
    rw [exec_expandInputs, h.sorted_eq_queue]
    intro input hinput
    obtain ⟨content, _, hfind⟩ := h.found_made input hinput
    exact ⟨content, hfind⟩
  unfold documentFiles
  rw [exec_bind_of_ok (exec_orFail_of_ok h.opened _), exec_bind_of_ok hexpand, h.isEmpty_queue]
  rfl

theorem exec_readable (h : Ready settings output inputs world made)
    (hreadable : ∀ file ∈ queue inputs, (Fate.of settings world.files file).isReadable)
    (log : List Warning) :
    exec (documentFiles settings (some output) inputs) log world =
      ((if (queue inputs).any fun file => (Fate.of settings world.files file).isDocumented then
          .ok ()
        else
          .error ⟨"no component could be documented", none⟩,
        log ++ (queue inputs).flatMap fun file =>
          (Fate.of settings world.files file).warnings file),
        deliverAll (documentPlace settings ⟨output⟩ made.files) (Fate.of settings world.files)
          (queue inputs) made) := by
  have hany : ((queue inputs).map fun file =>
      (Fate.of settings world.files file).isDocumented).contains true =
        (queue inputs).any fun file => (Fate.of settings world.files file).isDocumented := by
    rw [List.contains_eq_any_beq, List.any_map]
    simp [Function.comp_def]
  rw [h.exec_documentFiles, exec_bind_of_ok (exec_mapM_documentFile h.clear
    (List.Subset.refl _) hreadable log), hany]
  cases (queue inputs).any fun file => (Fate.of settings world.files file).isDocumented with
  | true => apply exec_pure
  | false => apply exec_throw

end Ready

/--
The first unreadable file of a queue, and the files before it.
-/
structure StopsAt (settings : Settings) (fs : FileSystem) (inputs : List String)
    (front : List Path) (file : Path) (e : FileError) : Prop where
  queue_eq : ∃ back, queue inputs = front ++ file :: back
  readable : ∀ other ∈ front, (Fate.of settings fs other).isReadable
  unreadable : Fate.of settings fs file = .unreadable e

theorem readable_or_stopsAt (settings : Settings) (fs : FileSystem) (inputs : List String) :
    (∀ file ∈ queue inputs, (Fate.of settings fs file).isReadable) ∨
      ∃ front file e, StopsAt settings fs inputs front file e := by
  cases hfind : (queue inputs).find? fun file => !(Fate.of settings fs file).isReadable with
  | none =>
    left
    intro file hfile
    simpa using List.find?_eq_none.1 hfind file hfile
  | some file =>
    right
    obtain ⟨hfile, front, back, hqueue, hfront⟩ := List.find?_eq_some_iff_append.1 hfind
    rcases (Fate.of settings fs file).isReadable_or_unreadable with hreadable | ⟨e, hunreadable⟩
    . rw [hreadable] at hfile
      cases hfile
    . refine ⟨front, file, e, ⟨back, hqueue⟩, ?_, hunreadable⟩
      intro other hother
      simpa using hfront other hother

theorem exists_stopsAt {fs : FileSystem} {other : Path} {e : FileError}
    (hother : other ∈ queue inputs) (hfate : Fate.of settings fs other = .unreadable e) :
    ∃ front file e', StopsAt settings fs inputs front file e' := by
  rcases readable_or_stopsAt settings fs inputs with hreadable | hstops
  . have hunreadable := hreadable other hother
    rw [hfate] at hunreadable
    cases hunreadable
  . exact hstops

namespace StopsAt

variable {front : List Path} {file other : Path} {fs : FileSystem} {e : FileError}

theorem front_subset (hs : StopsAt settings fs inputs front file e) : front ⊆ queue inputs := by
  obtain ⟨back, hqueue⟩ := hs.queue_eq
  rw [hqueue]
  apply List.subset_append_left

theorem file_mem (hs : StopsAt settings fs inputs front file e) : file ∈ queue inputs := by
  obtain ⟨back, hqueue⟩ := hs.queue_eq
  rw [hqueue]
  simp

theorem le_file (hs : StopsAt settings fs inputs front file e) (hother : other ∈ front) :
    other.le file := by
  obtain ⟨back, hqueue⟩ := hs.queue_eq
  have hpairwise := pairwise_queue inputs
  rw [hqueue, List.pairwise_append] at hpairwise
  exact hpairwise.2.2 other hother file List.mem_cons_self

theorem file_le (hs : StopsAt settings fs inputs front file e) (hother : other ∈ queue inputs)
    (hnot : other ∉ front) : file.le other := by
  obtain ⟨back, hqueue⟩ := hs.queue_eq
  have hpairwise := pairwise_queue inputs
  rw [hqueue, List.pairwise_append, List.pairwise_cons] at hpairwise
  rw [hqueue, List.mem_append, List.mem_cons] at hother
  rcases hother with hother | rfl | hother
  . exact absurd hother hnot
  . exact Path.le_refl other
  . exact hpairwise.2.1.1 other hother

theorem not_mem_front {e' : FileError} (hs : StopsAt settings fs inputs front file e)
    (hother : Fate.of settings fs other = .unreadable e') : other ∉ front := by
  intro hmem
  have hreadable := hs.readable other hmem
  rw [hother] at hreadable
  cases hreadable

end StopsAt

namespace Ready

section Outcome

variable {result : Except Failure Unit} {final : World} {front : List Path} {file other : Path}
  {e : FileError}

theorem exec_stopsAt (h : Ready settings output inputs world made)
    (hs : StopsAt settings world.files inputs front file e) (log : List Warning) :
    exec (documentFiles settings (some output) inputs) log world =
      ((.error ⟨"failed to read " ++ file.text, some e.message⟩,
        log ++ front.flatMap fun file => (Fate.of settings world.files file).warnings file),
        deliverAll (documentPlace settings ⟨output⟩ made.files) (Fate.of settings world.files)
          front made) := by
  obtain ⟨back, hqueue⟩ := hs.queue_eq
  have hclear := h.clear
  rw [hqueue] at hclear
  rw [h.exec_documentFiles, hqueue, exec_bind_of_error (exec_mapM_documentFile_unreadable hclear
    (List.Subset.refl _) hs.readable hs.unreadable log)]

/--
A file is documented if no unreadable one sorts before it.
-/
theorem find_of_documented (h : Ready settings output inputs world made)
    (hrun : exec (documentFiles settings (some output) inputs) [] world = ((result, log), final))
    (hfile : file ∈ queue inputs) {document : Document}
    (hfate : Fate.of settings world.files file = .documented document)
    (hbefore : ∀ other ∈ queue inputs, other.le file →
      ∀ e, Fate.of settings world.files other ≠ .unreadable e) :
    final.files.find (documentPath settings.format ⟨output⟩ file) =
      .ok (.file document.text.toUTF8) := by
  rcases readable_or_stopsAt settings world.files inputs with hreadable | ⟨front, first, e, hs⟩
  . rw [h.exec_readable hreadable] at hrun
    cases hrun
    exact h.clear.find_documentPath (List.Subset.refl _) hfile h.nodup_documentPlace hfate
  . rw [h.exec_stopsAt hs] at hrun
    cases hrun
    have hmem : file ∈ front := by
      apply Decidable.byContradiction
      intro hnot
      exact hbefore first hs.file_mem (hs.file_le hfile hnot) e hs.unreadable
    have hplaces : (front.map (documentPlace settings ⟨output⟩ made.files)).Nodup := by
      obtain ⟨back, hqueue⟩ := hs.queue_eq
      apply List.Nodup.sublist _ h.nodup_documentPlace
      apply List.Sublist.map
      rw [hqueue]
      apply List.sublist_append_left
    exact h.clear.find_documentPath hs.front_subset hmem hplaces hfate

/--
Nothing is written for a file that sorts behind an unreadable one.
-/
theorem find_of_unreadable_before (h : Ready settings output inputs world made)
    (hrun : exec (documentFiles settings (some output) inputs) [] world = ((result, log), final))
    (hfile : file ∈ queue inputs) (hother : other ∈ queue inputs)
    (hfate : Fate.of settings world.files other = .unreadable e) (hle : other.le file) :
    final.files.find (documentPath settings.format ⟨output⟩ file) =
      made.files.find (documentPath settings.format ⟨output⟩ file) := by
  obtain ⟨front, first, e', hs⟩ := exists_stopsAt hother hfate
  obtain ⟨location, hlocate, _⟩ := h.exists_locate hfile
  rw [h.exec_stopsAt hs] at hrun
  cases hrun
  apply h.clear.find_deliverAll_of_ne hs.front_subset hlocate
  intro file' hmem _ hplace
  rw [← documentPlace_eq hlocate] at hplace
  rw [← h.eq_of_documentPlace_eq hfile (hs.front_subset hmem) hplace] at hmem
  -- Behind an unreadable file and before the first of them: it would be that one itself.
  have hsame : file.same first := by
    apply Path.same_of_le (hs.le_file hmem)
    exact Path.le_trans (hs.file_le hother (hs.not_mem_front hfate)) hle
  have hstem := Path.stem_eq_of_same hsame (h.fileName?_isSome (mem_queue.1 hfile))
  rw [h.eq_of_stem_eq hfile hs.file_mem hstem] at hmem
  exact hs.not_mem_front hs.unreadable hmem

theorem fails_of_unreadable (h : Ready settings output inputs world made)
    (hrun : exec (documentFiles settings (some output) inputs) [] world = ((result, log), final))
    (hother : other ∈ queue inputs) (hfate : Fate.of settings world.files other = .unreadable e) :
    ∃ first ∈ queue inputs, ∃ e', Fate.of settings world.files first = .unreadable e' ∧
      first.le other ∧ result = .error ⟨"failed to read " ++ first.text, some e'.message⟩ := by
  obtain ⟨front, first, e', hs⟩ := exists_stopsAt hother hfate
  rw [h.exec_stopsAt hs] at hrun
  cases hrun
  exact ⟨first, hs.file_mem, e', hs.unreadable, hs.file_le hother (hs.not_mem_front hfate), rfl⟩

theorem warned_of_skipped (h : Ready settings output inputs world made)
    (hrun : exec (documentFiles settings (some output) inputs) [] world = ((result, log), final))
    (hreadable : ∀ file ∈ queue inputs, (Fate.of settings world.files file).isReadable)
    (hfile : file ∈ queue inputs) {problem : Problem}
    (hfate : Fate.of settings world.files file = .skipped problem) :
    ⟨"skipping: " ++ problem.message, some file⟩ ∈ log := by
  rw [h.exec_readable hreadable] at hrun
  cases hrun
  rw [List.nil_append, List.mem_flatMap]
  refine ⟨file, hfile, ?_⟩
  rw [hfate]
  exact List.mem_singleton.2 rfl

theorem fails_iff (h : Ready settings output inputs world made)
    (hrun : exec (documentFiles settings (some output) inputs) [] world = ((result, log), final))
    (hreadable : ∀ file ∈ queue inputs, (Fate.of settings world.files file).isReadable) :
    (∃ failure, result = .error failure) ↔
      ∀ file ∈ queue inputs, ∃ problem, Fate.of settings world.files file = .skipped problem := by
  rw [h.exec_readable hreadable] at hrun
  cases hrun
  split
  . next hany =>
    obtain ⟨file, hfile, hdocumented⟩ := List.any_eq_true.1 hany
    constructor
    . rintro ⟨failure, hfailure⟩
      cases hfailure
    . intro hskipped
      obtain ⟨problem, hfate⟩ := hskipped file hfile
      rw [hfate] at hdocumented
      cases hdocumented
  . next hany =>
    refine ⟨fun _ file hfile => ?_, fun _ => ⟨_, rfl⟩⟩
    have hread := hreadable file hfile
    cases hfate : Fate.of settings world.files file with
    | unreadable e =>
      rw [hfate] at hread
      cases hread
    | skipped problem => exact ⟨problem, rfl⟩
    | documented document =>
      exfalso
      apply hany
      rw [List.any_eq_true]
      refine ⟨file, hfile, ?_⟩
      rw [hfate]
      rfl

end Outcome

end Ready

variable {result : Except Failure Unit} {final : World}

/--
What each input gets from a run. A component that can be documented is, unless an unreadable input
sorts before it. If all inputs can be read, components with problems are skipped with a warning,
and the run fails only if that is all there is. An input that cannot be read ends the run, and
nothing is written for what sorts behind it.
-/
theorem documentFiles_neighbours (h : Ready settings output inputs world made)
    (hrun : exec (documentFiles settings (some output) inputs) [] world = ((result, log), final)) :
    (∀ input ∈ inputs, ∀ document,
      Fate.of settings world.files ⟨input⟩ = .documented document →
      (∀ other ∈ inputs, Path.le ⟨other⟩ ⟨input⟩ →
        ∀ e, Fate.of settings world.files ⟨other⟩ ≠ .unreadable e) →
      final.files.find (documentPath settings.format ⟨output⟩ ⟨input⟩) =
        .ok (.file document.text.toUTF8)) ∧
    ((∀ input ∈ inputs, ∀ e, Fate.of settings world.files ⟨input⟩ ≠ .unreadable e) →
      ((∃ failure, result = .error failure) ↔
        ∀ input ∈ inputs, ∃ problem, Fate.of settings world.files ⟨input⟩ = .skipped problem) ∧
      ∀ input ∈ inputs, ∀ problem, Fate.of settings world.files ⟨input⟩ = .skipped problem →
        ⟨"skipping: " ++ problem.message, some ⟨input⟩⟩ ∈ log) ∧
    ∀ other ∈ inputs, ∀ e, Fate.of settings world.files ⟨other⟩ = .unreadable e →
      (∃ first ∈ inputs, ∃ e', Fate.of settings world.files ⟨first⟩ = .unreadable e' ∧
        Path.le ⟨first⟩ ⟨other⟩ ∧ result = .error ⟨"failed to read " ++ first, some e'.message⟩) ∧
      ∀ input ∈ inputs, Path.le ⟨other⟩ ⟨input⟩ →
        final.files.find (documentPath settings.format ⟨output⟩ ⟨input⟩) =
          made.files.find (documentPath settings.format ⟨output⟩ ⟨input⟩) := by
  refine ⟨?_, ?_, ?_⟩
  . intro input hinput document hfate hbefore
    apply h.find_of_documented hrun (mem_queue.2 hinput) hfate
    intro other hother
    apply hbefore other.text (mem_queue.1 hother)
  . intro hread
    have hreadable : ∀ file ∈ queue inputs, (Fate.of settings world.files file).isReadable := by
      intro file hfile
      rcases (Fate.of settings world.files file).isReadable_or_unreadable with hfate | ⟨e, hfate⟩
      . exact hfate
      . exact absurd hfate (hread file.text (mem_queue.1 hfile) e)
    constructor
    . rw [h.fails_iff hrun hreadable]
      constructor
      . intro hskipped input hinput
        apply hskipped ⟨input⟩ (mem_queue.2 hinput)
      . intro hskipped file hfile
        apply hskipped file.text (mem_queue.1 hfile)
    . intro input hinput problem hfate
      apply h.warned_of_skipped hrun hreadable (mem_queue.2 hinput) hfate
  . intro other hother e hfate
    constructor
    . obtain ⟨first, hfirst, e', hfate', hle, hresult⟩ :=
        h.fails_of_unreadable hrun (mem_queue.2 hother) hfate
      exact ⟨first.text, mem_queue.1 hfirst, e', hfate', hle, hresult⟩
    . intro input hinput hle
      apply h.find_of_unreadable_before hrun (mem_queue.2 hinput) (mem_queue.2 hother) hfate hle

def fooComponent : String :=
  "<script>export default \x7b name: 'Foo' \x7d</script>"

/--
Three files, of which the second one is no text.
-/
def threeFiles : FileSystem :=
  ((({} : FileSystem).place ["a.vue"] (.file fooComponent.toUTF8)).place ["b.vue"]
    (.file ⟨#[0xff]⟩)).place ["c.vue"] (.file fooComponent.toUTF8)

theorem ready_threeFiles :
    Ready ⟨{}, {}, .markdown⟩ "out" ["c.vue", "b.vue", "a.vue"] ⟨threeFiles, ⟨#[]⟩⟩
      ⟨threeFiles.place ["out"] .directory, ⟨#[]⟩⟩ := by
  have houtside : ∀ input ∈ ["c.vue", "b.vue", "a.vue"], ∀ other ∈ ["c.vue", "b.vue", "a.vue"],
      ((threeFiles.place ["out"] .directory).locate
        (documentPath .markdown ⟨"out"⟩ ⟨other⟩)).toOption ≠
          ((threeFiles.place ["out"] .directory).locate ⟨input⟩).toOption := by
    decide
  apply @ready_of_unlinked _ _ _ _ _ ["work", "out"]
  . simp
  . simp only [List.mem_cons, List.not_mem_nil, or_false, forall_eq_or_imp, forall_eq]
    exact ⟨⟨_, rfl⟩, ⟨_, rfl⟩, ⟨_, rfl⟩⟩
  . decide
  . rfl
  . intro input hinput other hother heq
    exact houtside input hinput other hother (congrArg Except.toOption heq)
  . rfl
  . decide

theorem fates_threeFiles :
    Fate.of ⟨{}, {}, .markdown⟩ threeFiles ⟨"a.vue"⟩ = .documented ⟨"# Foo\n", []⟩ ∧
      Fate.of ⟨{}, {}, .markdown⟩ threeFiles ⟨"b.vue"⟩ = .unreadable .notText ∧
      Fate.of ⟨{}, {}, .markdown⟩ threeFiles ⟨"c.vue"⟩ = .documented ⟨"# Foo\n", []⟩ := by
  have hoption : (document fooComponent {} {} .markdown).toOption = some ⟨"# Foo\n", []⟩ := by
    decide +kernel
  have hdocument : document fooComponent {} {} .markdown = .ok ⟨"# Foo\n", []⟩ := by
    cases heq : document fooComponent {} {} .markdown with
    | error problem =>
      rw [heq] at hoption
      cases hoption
    | ok result =>
      rw [heq] at hoption
      cases hoption
      rfl
  refine ⟨?_, ?_, ?_⟩
  . exact Fate.of_eq_documented.2 ⟨fooComponent, rfl, hdocument⟩
  . exact Fate.of_eq_unreadable.2 rfl
  . exact Fate.of_eq_documented.2 ⟨fooComponent, rfl, hdocument⟩

theorem documentFiles_neighbours_lost :
    ∃ world made result log final,
      Ready ⟨{}, {}, .markdown⟩ "out" ["c.vue", "b.vue", "a.vue"] world made ∧
      exec (documentFiles ⟨{}, {}, .markdown⟩ (some "out") ["c.vue", "b.vue", "a.vue"]) [] world =
        ((result, log), final) ∧
      Fate.of ⟨{}, {}, .markdown⟩ world.files ⟨"c.vue"⟩ = .documented ⟨"# Foo\n", []⟩ ∧
      final.files.find ⟨"out/a.md"⟩ = .ok (.file "# Foo\n".toUTF8) ∧
      result = .error ⟨"failed to read b.vue", some "stream did not contain valid UTF-8"⟩ ∧
      final.files.find ⟨"out/c.md"⟩ = .error .notFound := by
  obtain ⟨hdocumented, _, hended⟩ := documentFiles_neighbours ready_threeFiles rfl
  obtain ⟨hfirst, hsecond, hthird⟩ := fates_threeFiles
  obtain ⟨⟨first, hmem, e, hfate, _, hresult⟩, hbehind⟩ := hended "b.vue" (by simp) _ hsecond
  refine ⟨_, _, _, _, _, ready_threeFiles, rfl, hthird, ?_, ?_, ?_⟩
  . apply hdocumented "a.vue" (by simp) _ hfirst
    intro other hother hle e
    simp only [List.mem_cons, List.not_mem_nil, or_false] at hother
    rcases hother with rfl | rfl | rfl
    . exact absurd hle (by decide)
    . exact absurd hle (by decide)
    . rw [hfirst]
      exact nofun
  . rw [hresult]
    simp only [List.mem_cons, List.not_mem_nil, or_false] at hmem
    rcases hmem with rfl | rfl | rfl
    . cases hthird.symm.trans hfate
    . cases hsecond.symm.trans hfate
      rfl
    . cases hfirst.symm.trans hfate
  . exact hbehind "c.vue" (by simp) (by decide)

end ComponentDoc.Run
