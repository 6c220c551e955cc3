import Mathlib.Data.List.Dedup
import ComponentDoc.Proofs.Cli.Frame

/-!
One document for each stem. Inputs in different directories can have the same stem, and then their
documents go to the same place. So an output directory that was empty holds in the end as many
files as there are stems, and every input has a document of its own just if no two of those that
were documented share a stem.
-/

namespace ComponentDoc.Run

open FileSystem

variable {settings : Settings} {output file : Path} {files rest : List Path}
  {directory location : Location} {log : List Warning} {world made final : World}
  {place : Path → Location} {fate : Path → Fate} {arguments : Arguments} {work : Work}

/--
The files that can be documented, in their order.
-/
def Work.documented (work : Work) (made : World) : List Path :=
  work.files.filter fun file => (Fate.of work.settings made.files file).isDocumented

theorem Work.mem_documented :
    file ∈ work.documented made ↔
      file ∈ work.files ∧ (Fate.of work.settings made.files file).isDocumented := by
  unfold Work.documented
  rw [List.mem_filter]

section Names

theorem targetName_eq_iff {other : Path} :
    targetName settings file = targetName settings other ↔ file.stem = other.stem := by
  constructor
  . exact stem_eq_of_targetName_eq
  . intro h
    unfold targetName
    rw [h]

theorem nodup_map_targetName :
    (files.map (targetName settings)).Nodup ↔ (files.map Path.stem).Nodup := by
  unfold List.Nodup
  rw [List.pairwise_map, List.pairwise_map]
  simp only [ne_eq, targetName_eq_iff]

/--
A list of the names that documents have, without repetitions, is as long as the list of files just
if no two of these share a stem.
-/
theorem length_of_names {names : List String} (hnodup : names.Nodup)
    (hnames : ∀ name, name ∈ names ↔ ∃ file ∈ files, targetName settings file = name) :
    ((files.map Path.stem).Nodup → names.length = files.length) ∧
      (¬ (files.map Path.stem).Nodup → names.length < files.length) := by
  have hlength : names.length = (files.map (targetName settings)).dedup.length := by
    apply List.Perm.length_eq
    rw [List.perm_ext_iff_of_nodup hnodup (List.nodup_dedup _)]
    intro name
    rw [hnames, List.mem_dedup, List.mem_map]
  rw [hlength, ← @nodup_map_targetName settings, ← @List.length_map _ _ files (targetName settings)]
  constructor
  . intro hstems
    rw [hstems.dedup]
  . intro hshared
    apply Nat.lt_of_le_of_ne (List.dedup_sublist _).length_le
    intro heq
    apply hshared
    rw [← (List.dedup_sublist _).eq_of_length heq]
    apply List.nodup_dedup

end Names

/--
An output directory that is found at a place and holds nothing.
-/
structure HoldsNothing (output : Path) (directory : Location) (fs : FileSystem) : Prop where
  located : fs.locate output = .ok directory
  present : fs.entry? directory = some .directory
  empty : ∀ name, fs.entry? (directory ++ [name]) = none

theorem exists_holdsNothing {fs : FileSystem} (h : fs.list output = .ok []) :
    ∃ directory, HoldsNothing output directory fs := by
  obtain ⟨directory, hlocate, hpresent, hnames⟩ := list_eq_ok.1 h
  refine ⟨directory, hlocate, hpresent, ?_⟩
  intro name
  have hmem := @mem_names fs directory name
  rw [← hnames] at hmem
  cases hentry : fs.entry? (directory ++ [name]) with
  | none => rfl
  | some entry =>
    rw [hentry] at hmem
    cases hmem.2 rfl

namespace HoldsNothing

theorem locate_documentPath {fs : FileSystem} (h : HoldsNothing output directory fs) {text : String}
    (htext : fs.readText file = .ok text) (settings : Settings) :
    fs.locate (documentPath settings.format output file) =
      .ok (directory ++ [targetName settings file]) := by
  obtain ⟨content, hfind⟩ := exists_find_of_readText htext
  apply Run.locate_documentPath (fileName?_isSome_of_find hfind) _ h.present
  . exact linkAt?_of_none (h.empty _)
  . exact follow_eq_ok.2 (locate_eq_ok.1 h.located).2

/--
In an empty output directory nothing can get in the way of documents.
-/
theorem undisturbed (h : HoldsNothing work.output directory made.files)
    (hreadable : ∀ file ∈ work.files, ∃ text, made.files.readText file = .ok text) :
    work.Undisturbed made := by
  have hlocate : ∀ file ∈ work.files,
      made.files.locate (documentPath work.settings.format work.output file) =
        .ok (directory ++ [targetName work.settings file]) := by
    intro file hfile
    obtain ⟨text, htext⟩ := hreadable file hfile
    exact h.locate_documentPath htext work.settings
  constructor
  . exact hreadable
  . intro file hfile result _
    refine ⟨_, write_eq_ok (hlocate file hfile) ?_⟩
    rw [h.empty]
    exact nofun
  . intro file hfile other hother _ heq
    obtain ⟨text, htext⟩ := hreadable file hfile
    obtain ⟨content, hfind⟩ := exists_find_of_readText htext
    obtain ⟨place, hplace, hcontent⟩ := find_eq_ok.1 hfind
    rw [hplace, hlocate other hother] at heq
    cases heq
    rw [h.empty] at hcontent
    cases hcontent
  . intro file hfile other hother _ _ hstem heq
    exact hstem (stem_eq_of_locate_eq (hlocate file hfile) (hlocate other hother) heq)

end HoldsNothing

section Places

theorem isSome_deliver {fs : FileSystem} (h : (fs.entry? location).isSome) :
    (FileSystem.entry? (deliver place fate fs file) location).isSome := by
  unfold deliver
  split
  . by_cases heq : location = place file
    . rw [heq]
      exact isSome_entry?_put_self
    . rw [entry?_put_of_ne heq]
      exact h
  . exact h

theorem isSome_deliverAll (h : (world.files.entry? location).isSome) :
    (FileSystem.entry? (deliverAll place fate rest world).files location).isSome := by
  induction rest generalizing world with
  | nil => exact h
  | cons file rest ih =>
    rw [deliverAll_cons]
    apply ih
    apply isSome_deliver h

/--
Of the places where nothing was, those of documents are filled, and no others.
-/
theorem isSome_entry?_deliverAll (hempty : made.files.entry? location = none) :
    (FileSystem.entry? (deliverAll place fate files made).files location).isSome ↔
      ∃ file ∈ files, (fate file).isDocumented ∧ place file = location := by
  constructor
  . intro h
    apply Decidable.byContradiction
    intro hnone
    rw [entry?_deliverAll_of_ne, hempty] at h
    . cases h
    . intro other hother hdocumented heq
      exact hnone ⟨other, hother, hdocumented, heq.symm⟩
  . rintro ⟨file, hfile, hdocumented, rfl⟩
    obtain ⟨result, hfate⟩ := Fate.isDocumented_iff.1 hdocumented
    obtain ⟨front, back, rfl⟩ := List.append_of_mem hfile
    rw [deliverAll_append, deliverAll_cons]
    apply isSome_deliverAll
    unfold deliver
    rw [hfate]
    exact isSome_entry?_put_self

/--
Behind a run, an output directory that held nothing has the names of the documents.
-/
theorem HoldsNothing.mem_names_deliverAll (h : HoldsNothing work.output directory made.files)
    (hreadable : ∀ file ∈ work.files, ∃ text, made.files.readText file = .ok text)
    (name : String) :
    name ∈ (deliverAll (documentPlace work.settings work.output made.files)
        (Fate.of work.settings made.files) work.files made).files.locations.filterMap
          (nameIn? directory) ↔
      ∃ file ∈ work.documented made, targetName work.settings file = name := by
  rw [mem_names, isSome_entry?_deliverAll (h.empty name)]
  simp only [Work.mem_documented, and_assoc]
  apply exists_congr
  intro file
  apply and_congr_right
  intro hfile
  obtain ⟨text, htext⟩ := hreadable file hfile
  rw [documentPlace_eq (h.locate_documentPath htext work.settings), List.append_cancel_left_eq,
    List.singleton_inj]

theorem stem_ne_of_nodup {front back : List Path} (hfiles : work.files = front ++ file :: back)
    (hdocumented : (Fate.of work.settings made.files file).isDocumented)
    (hstems : ((work.documented made).map Path.stem).Nodup) :
    ∀ other ∈ back, (Fate.of work.settings made.files other).isDocumented →
      other.stem ≠ file.stem := by
  intro other hother hdocumented' heq
  unfold Work.documented at hstems
  rw [hfiles, List.filter_append, List.filter_cons, if_pos hdocumented, List.map_append,
    List.map_cons, List.nodup_append, List.nodup_cons] at hstems
  apply hstems.2.1.1
  rw [← heq]
  exact List.mem_map_of_mem (List.mem_filter.2 ⟨hother, hdocumented'⟩)

end Places

section Whole

variable {texts : List String} {filter : Option String} {outcome : Outcome}

/--
What an output directory that was empty holds behind a run over readable inputs: one file for each
stem of a documented input. If these stems differ, there are as many files as documented inputs,
and each holds the document of its own input; if two are the same, there are fewer.
-/
theorem run_one_document_per_stem (harguments : Arguments.ofList texts = .ok arguments)
    (hinputs : arguments.inputs ≠ [])
    (hprepared : exec (prepare arguments) [] world = ((.ok work, log), made))
    (hreadable : ∀ file ∈ work.files, ∃ text, made.files.readText file = .ok text)
    (hempty : made.files.list work.output = .ok [])
    (hrun : (run texts filter : StateM World Outcome).run world = (outcome, final)) :
    ∃ names, final.files.list work.output = .ok names ∧ names.Nodup ∧
      (∀ name, name ∈ names ↔
        ∃ file ∈ work.documented made, targetName work.settings file = name) ∧
      (((work.documented made).map Path.stem).Nodup →
        names.length = (work.documented made).length ∧
        ∀ file ∈ work.files, ∀ result,
          Fate.of work.settings made.files file = .documented result →
          final.files.find (documentPath work.settings.format work.output file) =
            .ok (.file result.text.toUTF8)) ∧
      (¬ ((work.documented made).map Path.stem).Nodup →
        names.length < (work.documented made).length) := by
  obtain ⟨directory, hnothing⟩ := exists_holdsNothing hempty
  have hundisturbed := hnothing.undisturbed hreadable
  have hclear := hundisturbed.clear
  have hfinal := (run_of_undisturbed harguments hinputs hprepared hundisturbed filter).1
  rw [hrun] at hfinal
  change final = _ at hfinal
  have hkeeps := (hclear.deliverAll (List.Subset.refl _)).2
  rw [← hfinal] at hkeeps
  have hlist : final.files.list work.output =
      .ok (final.files.locations.filterMap (nameIn? directory)) := by
    apply list_eq_ok.2
    exact ⟨directory, hkeeps.locate_eq hnothing.located,
      hkeeps.directory directory hnothing.present, rfl⟩
  have hnames := hnothing.mem_names_deliverAll hreadable
  rw [← hfinal] at hnames
  obtain ⟨hapart, hshared⟩ := length_of_names (nodup_names final.files directory) hnames
  refine ⟨_, hlist, nodup_names _ _, hnames, ?_, hshared⟩
  intro hstems
  refine ⟨hapart hstems, ?_⟩
  intro file hfile result hfate
  obtain ⟨front, back, hfiles⟩ := List.append_of_mem hfile
  rw [hfinal]
  apply hundisturbed.find_last_document hfiles hfate
  intro other hother hstem hdocumented'
  have hdocumented := Fate.isDocumented_iff.2 ⟨result, hfate⟩
  exact stem_ne_of_nodup hfiles hdocumented hstems other hother hdocumented' hstem

theorem run_one_document_per_stem_shared :
    ∃ outcome final names,
      (run ["-o", "out", "a/Foo.vue", "b/Foo.vue"] none : StateM World Outcome).run sameStems =
        (outcome, final) ∧
      (sameStemsWork.documented sameStemsMade).length = 2 ∧
      final.files.list ⟨"out"⟩ = .ok names ∧ names.length < 2 := by
  have hdocumented : sameStemsWork.documented sameStemsMade = sameStemsWork.files := by
    unfold Work.documented
    rw [List.filter_eq_self]
    exact forall_mem_sameStems (Fate.isDocumented_iff.2 ⟨_, fates_sameStems.1⟩)
      (Fate.isDocumented_iff.2 ⟨_, fates_sameStems.2⟩)
  obtain ⟨names, hlist, _, _, _, hshared⟩ := run_one_document_per_stem ofList_sameStems
    (by decide) prepare_sameStems undisturbed_sameStems.readable rfl rfl
  rw [hdocumented] at hshared
  refine ⟨_, _, names, rfl, ?_, hlist, hshared (by decide)⟩
  rw [hdocumented]
  rfl

end Whole

end ComponentDoc.Run
