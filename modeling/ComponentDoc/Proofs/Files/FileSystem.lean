import Mathlib.Data.List.Nodup
import Mathlib.Data.List.TakeWhile
import ComponentDoc.Files.FileSystem
import ComponentDoc.Proofs.Files.Path
import ComponentDoc.Proofs.OrderedMap

/-!
What a change leaves of a file system. A path leads to the same place as long as the directories and
links on its way stay and no links come up; making directories takes nothing away, and writing a
file changes the place of that file alone.
-/

namespace ComponentDoc.FileSystem

variable {fs fs' : FileSystem} {location location' : Location} {entry : FileEntry} {path : Path}
  {parts more : List String} {part : String} {links : Nat}

section Entries

theorem entry?_above (h : location <+: fs.workingDirectory) :
    fs.entry? location = some .directory := by
  unfold entry?
  rw [if_pos (List.isPrefixOf_iff_prefix.2 h)]

theorem entry?_put_of_ne (h : location' ≠ location) :
    entry? (fs.put location entry) location' = fs.entry? location' := by
  unfold entry? put
  dsimp only
  rw [OrderedMap.get?_insert, if_neg h]

theorem entry?_put_self (h : fs.entry? location ≠ some .directory) :
    entry? (fs.put location entry) location = some entry := by
  have hfree : ¬ location.isPrefixOf fs.workingDirectory = true := by
    intro habove
    exact h (entry?_above (List.isPrefixOf_iff_prefix.1 habove))
  unfold entry? put
  dsimp only
  rw [if_neg hfree, OrderedMap.get?_insert, if_pos rfl]

theorem isSome_entry?_put_self :
    (FileSystem.entry? (fs.put location entry) location).isSome := by
  unfold entry? put
  dsimp only
  split
  . rfl
  . rw [OrderedMap.get?_insert, if_pos rfl]
    rfl

theorem linkAt?_of_none (h : fs.entry? location = none) : fs.linkAt? location = none := by
  unfold linkAt?
  rw [h]

theorem linkAt?_of_directory (h : fs.entry? location = some .directory) :
    fs.linkAt? location = none := by
  unfold linkAt?
  rw [h]

end Entries

section Following

theorem step_eq_ok :
    fs.step location part = .ok location' ↔
      fs.entry? location = some .directory ∧ next location part = location' := by
  unfold step
  cases fs.entry? location with
  | none => simp
  | some entry =>
    cases entry with
    | directory => simp
    | file content => simp
    | link target => simp

theorem walk_cons_eq_ok {way : Way} :
    fs.walk location (part :: parts) = .ok way ↔
      fs.entry? location = some .directory ∧
        match fs.linkAt? (next location part) with
        | some target => way = .link location target parts
        | none => fs.walk (next location part) parts = .ok way := by
  rw [walk]
  cases hstep : fs.step location part with
  | error e =>
    have hnone : fs.entry? location ≠ some .directory := by
      intro hdirectory
      cases hstep.symm.trans (step_eq_ok.2 ⟨hdirectory, rfl⟩)
    simp [hnone]
  | ok next =>
    obtain ⟨hdirectory, rfl⟩ := step_eq_ok.1 hstep
    dsimp only
    cases hlink : fs.linkAt? (FileSystem.next location part) with
    | none => simp [hdirectory]
    | some target => simp [hdirectory, eq_comm]

theorem next_of_name {name : String} (h : Path.componentOf? part = some (.name name)) :
    next location part = location ++ [name] := by
  unfold next
  rw [h]

theorem walk_singleton (hdirectory : fs.entry? location = some .directory)
    (hnext : next location part = location') (hlink : fs.linkAt? location' = none) :
    fs.walk location [part] = .ok (.place location') := by
  rw [walk_cons_eq_ok, hnext, hlink]
  exact ⟨hdirectory, rfl⟩

theorem walk_cons_of_directory (hdirectory : fs.entry? location = some .directory)
    (hnext : fs.entry? (next location part) = some .directory) (parts : List String) :
    fs.walk location (part :: parts) = fs.walk (next location part) parts := by
  have hstep := step_eq_ok.2 ⟨hdirectory, @rfl _ (next location part)⟩
  rw [walk, hstep]
  dsimp only
  rw [linkAt?_of_directory hnext]

/--
Slashes behind a directory lead nowhere else.
-/
theorem walk_blanks (hdirectory : fs.entry? location = some .directory)
    (hparts : ∀ part ∈ parts, part = "") : fs.walk location parts = .ok (.place location) := by
  induction parts with
  | nil => rfl
  | cons part parts ih =>
    rw [List.forall_mem_cons] at hparts
    obtain ⟨rfl, hrest⟩ := hparts
    rw [@walk_cons_of_directory _ _ "" hdirectory hdirectory]
    exact ih hrest

/--
Parts behind others are walked from the place to which these lead, or are left over with them.
-/
theorem walk_append :
    fs.walk location (parts ++ more) =
      match fs.walk location parts with
      | .error e => .error e
      | .ok (.place place) => fs.walk place more
      | .ok (.link directory target rest) => .ok (.link directory target (rest ++ more)) := by
  induction parts generalizing location with
  | nil => rfl
  | cons part parts ih =>
    rw [List.cons_append, walk, walk]
    cases fs.step location part with
    | error e => rfl
    | ok next =>
      dsimp only
      cases hlink : fs.linkAt? next with
      | none => exact ih
      | some target => rfl

/--
Whether parts lead to a place through at most a number of links.
-/
inductive Follows (fs : FileSystem) : Nat → Location → List String → Location → Prop
  | place {links : Nat} {location place : Location} {parts : List String} :
    fs.walk location parts = .ok (.place place) → Follows fs links location parts place
  | link {links : Nat} {location directory place : Location} {target : Path}
    {parts rest : List String} :
    fs.walk location parts = .ok (.link directory target rest) →
      Follows fs links (origin target directory) (target.parts ++ rest) place →
        Follows fs (links + 1) location parts place

theorem follow_eq_ok :
    fs.follow links location parts = .ok location' ↔
      fs.Follows links location parts location' := by
  constructor
  . intro h
    induction links generalizing location parts with
    | zero =>
      rw [follow] at h
      split at h
      . cases h
      . next hwalk =>
        cases h
        exact .place hwalk
      . cases h
    | succ links ih =>
      rw [follow] at h
      split at h
      . cases h
      . next hwalk =>
        cases h
        exact .place hwalk
      . next hwalk => exact .link hwalk (ih h)
  . intro h
    induction h with
    | place hwalk => rw [follow, hwalk]
    | link hwalk _ ih =>
      rw [follow, hwalk]
      exact ih

theorem Follows.append (h : fs.Follows links location parts location') {place : Location}
    (hmore : fs.walk location' more = .ok (.place place)) :
    fs.Follows links location (parts ++ more) place := by
  induction h with
  | place hwalk =>
    apply Follows.place
    rw [walk_append, hwalk]
    exact hmore
  | @link _ _ directory _ target _ rest hwalk _ ih =>
    apply @Follows.link _ _ _ directory _ target _ (rest ++ more)
    . rw [walk_append, hwalk]
    . rw [← List.append_assoc]
      exact ih hmore

/--
What decides where paths lead is the same in both file systems, or more.
-/
structure KeepsWays (fs fs' : FileSystem) : Prop where
  workingDirectory : fs'.workingDirectory = fs.workingDirectory
  directory : ∀ location, fs.entry? location = some .directory →
    fs'.entry? location = some .directory
  linkAt?_eq : ∀ location, fs'.linkAt? location = fs.linkAt? location

namespace KeepsWays

theorem refl (fs : FileSystem) : KeepsWays fs fs :=
  ⟨rfl, fun _ => id, fun _ => rfl⟩

theorem trans {fs'' : FileSystem} (h : KeepsWays fs fs') (h' : KeepsWays fs' fs'') :
    KeepsWays fs fs'' where
  workingDirectory := h'.workingDirectory.trans h.workingDirectory
  directory location hdirectory := h'.directory location (h.directory location hdirectory)
  linkAt?_eq location := (h'.linkAt?_eq location).trans (h.linkAt?_eq location)

theorem walk_eq (h : KeepsWays fs fs') {way : Way} (hwalk : fs.walk location parts = .ok way) :
    fs'.walk location parts = .ok way := by
  induction parts generalizing location with
  | nil => exact hwalk
  | cons part parts ih =>
    rw [walk_cons_eq_ok] at hwalk ⊢
    refine ⟨h.directory location hwalk.1, ?_⟩
    rw [h.linkAt?_eq]
    cases hlink : fs.linkAt? (next location part) with
    | none =>
      rw [hlink] at hwalk
      exact ih hwalk.2
    | some target =>
      rw [hlink] at hwalk
      exact hwalk.2

theorem follows (h : KeepsWays fs fs') (hfollow : fs.Follows links location parts location') :
    fs'.Follows links location parts location' := by
  induction hfollow with
  | place hwalk => exact .place (h.walk_eq hwalk)
  | link hwalk _ ih => exact .link (h.walk_eq hwalk) ih

end KeepsWays

theorem keepsWays_put (hentry : ∀ target, entry ≠ .link target)
    (hdirectory : fs.entry? location ≠ some .directory) (hlink : fs.linkAt? location = none) :
    KeepsWays fs (fs.put location entry) where
  workingDirectory := rfl
  directory location' h := by
    rw [entry?_put_of_ne]
    . exact h
    . rintro rfl
      exact hdirectory h
  linkAt?_eq location' := by
    unfold linkAt?
    by_cases heq : location' = location
    . subst heq
      rw [entry?_put_self hdirectory]
      unfold linkAt? at hlink
      rw [hlink]
      cases entry with
      | link target => exact absurd rfl (hentry target)
      | _ => rfl
    . rw [entry?_put_of_ne heq]

/--
Every place on the way to a location is a directory.
-/
def Reachable (fs : FileSystem) (location : Location) : Prop :=
  ∀ above, above <+: location → above ≠ location → fs.entry? above = some .directory

theorem reachable_origin (h : fs.Reachable location) (path : Path) :
    fs.Reachable (origin path location) := by
  unfold origin
  split
  . intro above habove hne
    exact absurd (List.prefix_nil.1 habove) hne
  . exact h

theorem reachable_workingDirectory (fs : FileSystem) : fs.Reachable fs.workingDirectory :=
  fun _ habove _ => entry?_above habove

theorem reachable_next (h : fs.Reachable location)
    (hdirectory : fs.entry? location = some .directory) (part : String) :
    fs.Reachable (next location part) := by
  unfold next
  split
  . intro above habove hne
    rcases List.prefix_concat_iff.1 habove with heq | habove
    . exact absurd heq hne
    . by_cases heq : above = location
      . rw [heq]
        exact hdirectory
      . exact h above habove heq
  . intro above habove hne
    apply h above (habove.trans (List.dropLast_prefix location))
    rintro rfl
    exact hne (habove.eq_of_length_le (by simp))
  . exact h

/--
The place of a walk, or the directory of the link at which it stops.
-/
def Way.stop : Way → Location
  | .place location => location
  | .link directory _ _ => directory

/--
A walk leads through directories, and neither to nor through a link.
-/
theorem Reachable.walk (h : fs.Reachable location) (hlink : fs.linkAt? location = none)
    {way : Way} (hwalk : fs.walk location parts = .ok way) :
    fs.Reachable way.stop ∧ fs.linkAt? way.stop = none := by
  induction parts generalizing location with
  | nil =>
    cases hwalk
    exact ⟨h, hlink⟩
  | cons part parts ih =>
    obtain ⟨hdirectory, hnext⟩ := walk_cons_eq_ok.1 hwalk
    cases hlink' : fs.linkAt? (next location part) with
    | none =>
      rw [hlink'] at hnext
      exact ih (reachable_next h hdirectory part) hlink' hnext
    | some target =>
      rw [hlink'] at hnext
      subst hnext
      exact ⟨h, hlink⟩

theorem linkAt?_origin (h : fs.linkAt? location = none) (path : Path) :
    fs.linkAt? (origin path location) = none := by
  unfold origin
  split
  . rfl
  . exact h

theorem Reachable.follows (h : fs.Reachable location) (hlink : fs.linkAt? location = none)
    (hfollow : fs.Follows links location parts location') :
    fs.Reachable location' ∧ fs.linkAt? location' = none := by
  induction hfollow with
  | place hwalk => exact h.walk hlink hwalk
  | link hwalk _ ih =>
    obtain ⟨hreachable, hlink'⟩ := h.walk hlink hwalk
    exact ih (reachable_origin hreachable _) (linkAt?_origin hlink' _)

/--
A part that is no name stays in a directory or goes up from it.
-/
theorem Reachable.walk_singleton (h : fs.Reachable location)
    (hpart : ∀ name, Path.componentOf? part ≠ some (.name name)) {way : Way}
    (hwalk : fs.walk location [part] = .ok way) :
    fs.entry? location = some .directory ∧ way = .place (next location part) ∧
      fs.entry? (next location part) = some .directory := by
  obtain ⟨hdirectory, hnext⟩ := walk_cons_eq_ok.1 hwalk
  have hlast : fs.entry? (next location part) = some .directory := by
    unfold next
    split
    . next name heq => exact absurd heq (hpart name)
    . by_cases heq : location.dropLast = location
      . rw [heq]
        exact hdirectory
      . exact h _ (List.dropLast_prefix location) heq
    . exact hdirectory
  rw [linkAt?_of_directory hlast] at hnext
  cases hnext
  exact ⟨hdirectory, rfl, hlast⟩

theorem Reachable.exists_of_follows_concat (h : fs.Reachable location)
    (hlink : fs.linkAt? location = none)
    (hpart : ∀ name, Path.componentOf? part ≠ some (.name name))
    (hfollow : fs.Follows links location (parts ++ [part]) location') :
    ∃ middle, fs.Follows links location parts middle ∧
      fs.entry? middle = some .directory ∧ next middle part = location' ∧
      fs.entry? location' = some .directory := by
  generalize hall : parts ++ [part] = all at hfollow
  induction hfollow generalizing parts with
  | place hwalk =>
    subst hall
    rw [walk_append] at hwalk
    split at hwalk
    . cases hwalk
    . next middle hfront =>
      obtain ⟨hdirectory, hplace, hlast⟩ :=
        (h.walk hlink hfront).1.walk_singleton hpart hwalk
      cases hplace
      exact ⟨middle, .place hfront, hdirectory, rfl, hlast⟩
    . cases hwalk
  | link hwalk _ ih =>
    subst hall
    rw [walk_append] at hwalk
    split at hwalk
    . cases hwalk
    . next middle hfront =>
      obtain ⟨_, hplace, _⟩ := (h.walk hlink hfront).1.walk_singleton hpart hwalk
      cases hplace
    . next hfront =>
      cases hwalk
      obtain ⟨hreachable, hlink'⟩ := h.walk hlink hfront
      obtain ⟨middle, hmiddle, hlast⟩ := ih (reachable_origin hreachable _)
        (linkAt?_origin hlink' _) (List.append_assoc _ _ _)
      exact ⟨middle, .link hfront hmiddle, hlast⟩

end Following

section Finding

theorem locate_eq_ok :
    fs.locate path = .ok location ↔ path.text ≠ "" ∧
      fs.Follows linkLimit (origin path fs.workingDirectory) path.parts location := by
  unfold locate lead
  by_cases hempty : path.text = ""
  . simp [hempty]
  . simp [hempty, follow_eq_ok]

theorem reachable_start (fs : FileSystem) (path : Path) :
    fs.Reachable (origin path fs.workingDirectory) ∧
      fs.linkAt? (origin path fs.workingDirectory) = none := by
  constructor
  . exact reachable_origin fs.reachable_workingDirectory path
  . apply linkAt?_origin
    exact linkAt?_of_directory (entry?_above (List.prefix_refl _))

/--
The names of the working directory lead there from the root.
-/
theorem walk_workingDirectory {names : List String}
    (hwork : location ++ names = fs.workingDirectory)
    (hnames : ∀ name ∈ names, Path.componentOf? name = some (.name name)) (parts : List String) :
    fs.walk location (names ++ parts) = fs.walk fs.workingDirectory parts := by
  induction names generalizing location with
  | nil =>
    rw [List.append_nil] at hwork
    rw [hwork, List.nil_append]
  | cons name names ih =>
    rw [List.forall_mem_cons] at hnames
    have hnext := @next_of_name location name name hnames.1
    rw [List.append_cons] at hwork
    have habove : location ++ [name] <+: fs.workingDirectory := ⟨names, hwork⟩
    have hhere := entry?_above ((List.prefix_append location [name]).trans habove)
    rw [List.cons_append, walk_cons_of_directory hhere, hnext]
    . exact ih hwork hnames.2
    . rw [hnext]
      exact entry?_above habove

/--
A path may as well be given from the root, with the names of the working directory in front of it.
-/
theorem locate_absolute {absolute : Path} (hrelative : path.isAbsolute = false)
    (hnonempty : path.text ≠ "") (habsolute : absolute.isAbsolute = true)
    (hparts : absolute.parts = "" :: (fs.workingDirectory ++ path.parts))
    (hnames : ∀ name ∈ fs.workingDirectory, Path.componentOf? name = some (.name name)) :
    fs.locate absolute = fs.locate path := by
  have hwalk : fs.walk [] absolute.parts = fs.walk fs.workingDirectory path.parts := by
    rw [hparts, walk_cons_of_directory rfl rfl]
    exact walk_workingDirectory rfl hnames path.parts
  have hfollow : fs.follow linkLimit [] absolute.parts =
      fs.follow linkLimit fs.workingDirectory path.parts := by
    unfold linkLimit
    rw [follow, follow, hwalk]
  have hne : absolute.text ≠ "" := by
    intro hempty
    unfold Path.isAbsolute at habsolute
    rw [hempty] at habsolute
    cases habsolute
  unfold locate lead origin
  rw [if_neg hne, if_neg hnonempty, if_pos habsolute, hrelative, hfollow]
  rfl
/--
No path ends at a link.
-/
theorem linkAt?_of_locate (h : fs.locate path = .ok location) : fs.linkAt? location = none := by
  obtain ⟨hreachable, hlink⟩ := reachable_start fs path
  exact (hreachable.follows hlink (locate_eq_ok.1 h).2).2

theorem find_eq_ok :
    fs.find path = .ok entry ↔
      ∃ location, fs.locate path = .ok location ∧ fs.entry? location = some entry := by
  unfold find
  cases fs.locate path with
  | error e => simp [bind, Except.bind]
  | ok location =>
    cases hentry : fs.entry? location with
    | none => simp [bind, Except.bind, hentry, throw, throwThe, MonadExceptOf.throw]
    | some entry' => simp [bind, Except.bind, hentry, pure, Except.pure]

theorem find_of_locate (h : fs.locate path = .ok location) :
    fs.find path = match fs.entry? location with
      | some entry => .ok entry
      | none => .error .notFound := by
  unfold find
  rw [h]
  rfl

theorem KeepsWays.locate_eq (h : KeepsWays fs fs') (hlocate : fs.locate path = .ok location) :
    fs'.locate path = .ok location := by
  rw [locate_eq_ok] at hlocate ⊢
  rw [h.workingDirectory]
  exact ⟨hlocate.1, h.follows hlocate.2⟩

/--
The last part of the path of a file is its name: all other parts lead to directories.
-/
theorem fileName?_isSome_of_find {content : ByteArray} (h : fs.find path = .ok (.file content)) :
    path.fileName?.isSome := by
  obtain ⟨location, hlocate, hentry⟩ := find_eq_ok.1 h
  obtain ⟨_, hfollow⟩ := locate_eq_ok.1 hlocate
  have hne : path.parts ≠ [] := by
    unfold Path.parts
    simp [splitSlashes_ne_nil]
  obtain ⟨front, part, hparts⟩ : ∃ front part, path.parts = front ++ [part] :=
    ⟨_, _, (List.dropLast_concat_getLast hne).symm⟩
  by_cases hpart : ∃ name, Path.componentOf? part = some (.name name)
  . obtain ⟨name, hname⟩ := hpart
    rcases Path.componentOf?_eq_some hname with heq | heq
    . cases heq
    . cases heq
      rw [Path.fileName?_of_parts hparts hname]
      rfl
  . obtain ⟨hreachable, hlink⟩ := reachable_start fs path
    rw [hparts] at hfollow
    obtain ⟨_, _, _, _, hdirectory⟩ := hreachable.exists_of_follows_concat hlink
      (not_exists.1 hpart) hfollow
    rw [hdirectory] at hentry
    cases hentry

/--
A name that is joined to the path of a directory is found in that directory, if it is no link.
-/
theorem locate_join {directory : Path} {name : String} (hslash : '/' ∉ name.toList)
    (hname : Path.componentOf? name = some (.name name))
    (hlead : fs.lead directory directory.parts = .ok location)
    (hdirectory : fs.entry? location = some .directory)
    (hlink : fs.linkAt? (location ++ [name]) = none) :
    fs.locate (directory.join name) = .ok (location ++ [name]) := by
  have hwalk : fs.walk location [name] = .ok (.place (location ++ [name])) :=
    walk_singleton hdirectory (next_of_name hname) hlink
  have horigin : origin (directory.join name) fs.workingDirectory =
      origin directory fs.workingDirectory := by
    unfold origin
    rw [Path.isAbsolute_join hslash]
  obtain ⟨parts, hjoin, hparts⟩ := @Path.parts_join directory name hslash
  have hfollow := follow_eq_ok.1 hlead
  rw [locate_eq_ok, horigin, hjoin]
  constructor
  . intro hempty
    have hlast : (directory.join name).parts.getLast? = some "" := by
      unfold Path.parts
      rw [hempty]
      rfl
    rw [hjoin, List.getLast?_concat, Option.some.injEq] at hlast
    rw [hlast] at hname
    cases hname
  . apply Follows.append _ hwalk
    rcases hparts with hparts | hparts
    . rw [← hparts]
      exact hfollow
    . rw [hparts] at hfollow
      obtain ⟨hreachable, hstart⟩ := reachable_start fs directory
      obtain ⟨middle, hfront, _, hsame, _⟩ := hreachable.exists_of_follows_concat hstart
        (by simp [Path.componentOf?]) hfollow
      cases hsame
      exact hfront

end Finding

section Reading

def readText (fs : FileSystem) (path : Path) : Except FileError String := do
  decodeText (← fs.read path)

theorem read_eq_ok {content : ByteArray} :
    fs.read path = .ok content ↔ fs.find path = .ok (.file content) := by
  unfold read
  cases fs.find path with
  | error e => simp [bind, Except.bind]
  | ok entry =>
    cases entry with
    | file content' => simp [bind, Except.bind, pure, Except.pure]
    | _ => simp [bind, Except.bind, throw, throwThe, MonadExceptOf.throw]

theorem readText_of_find {content : ByteArray} (h : fs.find path = .ok (.file content)) :
    fs.readText path = decodeText content := by
  unfold readText
  rw [read_eq_ok.2 h]
  rfl

theorem exists_find_of_readText {text : String} (h : fs.readText path = .ok text) :
    ∃ content, fs.find path = .ok (.file content) := by
  unfold readText at h
  cases hread : fs.read path with
  | error e =>
    rw [hread] at h
    cases h
  | ok content => exact ⟨content, read_eq_ok.1 hread⟩

theorem write_eq_ok {content : ByteArray} (hlocate : fs.locate path = .ok location)
    (hentry : fs.entry? location ≠ some .directory) :
    fs.write path content = .ok (fs.put location (.file content)) := by
  unfold write
  rw [hlocate]
  dsimp only [bind, Except.bind]
  split
  . next heq => exact absurd heq hentry
  . rfl

end Reading

section Content

/--
The content of the file at a place, if there is a file.
-/
def fileAt? (fs : FileSystem) (location : Location) : Option ByteArray :=
  match fs.entry? location with
  | some (.file content) => some content
  | _ => none

theorem fileAt?_eq_some {content : ByteArray} :
    fs.fileAt? location = some content ↔ fs.entry? location = some (.file content) := by
  unfold fileAt?
  split
  . next heq => simp [heq]
  . next hne => simpa using hne content

/--
Both file systems have the same files with the same contents; directories may differ.
-/
def SameFiles (fs fs' : FileSystem) : Prop :=
  ∀ location, fs'.fileAt? location = fs.fileAt? location

theorem SameFiles.refl (fs : FileSystem) : SameFiles fs fs :=
  fun _ => rfl

theorem SameFiles.trans {fs'' : FileSystem} (h : SameFiles fs fs') (h' : SameFiles fs' fs'') :
    SameFiles fs fs'' :=
  fun location => (h' location).trans (h location)

/--
Files differ at certain places only, and none of them is lost.
-/
def ChangesOnly (place : Location → Prop) (fs fs' : FileSystem) : Prop :=
  ∀ location, fs'.fileAt? location = fs.fileAt? location ∨
    place location ∧ (fs'.fileAt? location).isSome

theorem SameFiles.changesOnly {place : Location → Prop} (h : SameFiles fs fs') :
    ChangesOnly place fs fs' :=
  fun location => .inl (h location)

theorem ChangesOnly.mono {place place' : Location → Prop} (h : ChangesOnly place fs fs')
    (hplace : ∀ location, place location → place' location) : ChangesOnly place' fs fs' :=
  fun location => (h location).imp_right (And.imp_left (hplace location))

theorem ChangesOnly.trans {place : Location → Prop} {fs'' : FileSystem}
    (h : ChangesOnly place fs fs') (h' : ChangesOnly place fs' fs'') :
    ChangesOnly place fs fs'' := by
  intro location
  rcases h' location with heq | hchanged
  . rw [heq]
    exact h location
  . exact .inr hchanged

theorem fileAt?_put_file {content : ByteArray} (h : fs.entry? location ≠ some .directory) :
    fileAt? (fs.put location (.file content)) location' =
      if location' = location then some content else fs.fileAt? location' := by
  unfold fileAt?
  by_cases heq : location' = location
  . subst heq
    rw [if_pos rfl, entry?_put_self h]
  . rw [if_neg heq, entry?_put_of_ne heq]

theorem changesOnly_put_file {content : ByteArray} (h : fs.entry? location ≠ some .directory) :
    ChangesOnly (· = location) fs (fs.put location (.file content)) := by
  intro location'
  rw [fileAt?_put_file h]
  by_cases heq : location' = location
  . rw [if_pos heq]
    exact .inr ⟨heq, rfl⟩
  . rw [if_neg heq]
    exact .inl rfl

theorem keepsWays_put_file {content : ByteArray} (hlocate : fs.locate path = .ok location)
    (h : fs.entry? location ≠ some .directory) :
    KeepsWays fs (fs.put location (.file content)) :=
  keepsWays_put (by simp) h (linkAt?_of_locate hlocate)

theorem exists_of_write_eq_ok {content : ByteArray} (h : fs.write path content = .ok fs') :
    ∃ location, fs.locate path = .ok location ∧ fs.entry? location ≠ some .directory ∧
      fs' = fs.put location (.file content) := by
  unfold write at h
  cases hlocate : fs.locate path with
  | error e =>
    rw [hlocate] at h
    cases h
  | ok location =>
    rw [hlocate] at h
    dsimp only [bind, Except.bind] at h
    split at h
    . cases h
    . next hentry =>
      cases h
      exact ⟨location, rfl, hentry, rfl⟩

end Content

section Making

/--
The one file system is the other one with further directories.
-/
structure AddsDirectories (fs fs' : FileSystem) : Prop extends KeepsWays fs fs' where
  sameFiles : SameFiles fs fs'

namespace AddsDirectories

theorem refl (fs : FileSystem) : AddsDirectories fs fs :=
  ⟨.refl fs, .refl fs⟩

theorem trans {fs'' : FileSystem} (h : AddsDirectories fs fs') (h' : AddsDirectories fs' fs'') :
    AddsDirectories fs fs'' :=
  ⟨h.toKeepsWays.trans h'.toKeepsWays, h.sameFiles.trans h'.sameFiles⟩

theorem find_eq {content : ByteArray} (h : AddsDirectories fs fs')
    (hfind : fs.find path = .ok (.file content)) : fs'.find path = .ok (.file content) := by
  obtain ⟨location, hlocate, hentry⟩ := find_eq_ok.1 hfind
  refine find_eq_ok.2 ⟨location, h.locate_eq hlocate, ?_⟩
  rw [← fileAt?_eq_some] at hentry ⊢
  rw [h.sameFiles, hentry]

end AddsDirectories

theorem addsDirectories_put (h : fs.entry? location = none) :
    AddsDirectories fs (fs.put location .directory) := by
  have hdirectory : fs.entry? location ≠ some .directory := by
    rw [h]
    exact nofun
  constructor
  . exact keepsWays_put (by simp) hdirectory (linkAt?_of_none h)
  . intro location'
    unfold fileAt?
    by_cases heq : location' = location
    . rw [heq, entry?_put_self hdirectory, h]
    . rw [entry?_put_of_ne heq]

/--
A new directory is put where the last part of its path, up to slashes at the end, leads from the
directory above it.
-/
theorem makeDirectory_eq_ok (h : fs.makeDirectory path = .ok fs') :
    ∃ parts name blanks directory location, path.text ≠ "" ∧
      path.parts = parts ++ name :: blanks ∧ (∀ part ∈ blanks, part = "") ∧
      fs.lead path parts = .ok directory ∧ fs.step directory name = .ok location ∧
      fs.entry? location = none ∧ fs' = fs.put location .directory := by
  unfold makeDirectory at h
  split at h
  . cases h
  . next hempty =>
    split at h
    . cases h
    . next name above hdrop =>
      have hparts : path.parts = above.reverse ++
          name :: (path.parts.reverse.takeWhile (· = "")).reverse := by
        have hsplit := congrArg List.reverse
          (List.takeWhile_append_dropWhile (p := fun part => decide (part = ""))
            (l := path.parts.reverse))
        rw [hdrop] at hsplit
        simpa using hsplit.symm
      cases hlead : fs.lead path above.reverse with
      | error e =>
        rw [hlead] at h
        cases h
      | ok directory =>
        rw [hlead] at h
        dsimp only [bind, Except.bind] at h
        split at h
        . cases h
        . next location hstep =>
          split at h
          . cases h
          . next hentry =>
            cases h
            refine ⟨_, _, _, directory, location, hempty, hparts, ?_, hlead, hstep, hentry, rfl⟩
            intro part hpart
            simpa using List.mem_takeWhile_imp (List.mem_reverse.1 hpart)
theorem addsDirectories_of_makeDirectory (h : fs.makeDirectory path = .ok fs') :
    AddsDirectories fs fs' := by
  obtain ⟨_, _, _, _, location, _, _, _, _, _, hentry, rfl⟩ := makeDirectory_eq_ok h
  exact addsDirectories_put hentry

/--
A directory that was made is found under its path.
-/
theorem find_of_makeDirectory (h : fs.makeDirectory path = .ok fs') :
    fs'.find path = .ok .directory := by
  have hkeeps := (addsDirectories_of_makeDirectory h).toKeepsWays
  obtain ⟨parts, name, blanks, directory, location, hempty, hparts, hblanks, hlead, hstep, hentry,
    rfl⟩ := makeDirectory_eq_ok h
  obtain ⟨hdirectory, hnext⟩ := step_eq_ok.1 hstep
  have hmade : entry? (fs.put location .directory) location = some .directory := by
    apply entry?_put_self
    rw [hentry]
    exact nofun
  have hname := walk_singleton (hkeeps.directory directory hdirectory) hnext
    (linkAt?_of_directory hmade)
  rw [find_eq_ok]
  refine ⟨location, ?_, hmade⟩
  rw [locate_eq_ok, hkeeps.workingDirectory, hparts, ← List.singleton_append, ← List.append_assoc]
  refine ⟨hempty, ?_⟩
  exact ((hkeeps.follows (follow_eq_ok.1 hlead)).append hname).append (walk_blanks hmade hblanks)

end Making

section Listing

variable {directory : Location} {name : String} {names : List String}

theorem nameIn?_eq_some :
    nameIn? directory location = some name ↔ location = directory ++ [name] := by
  unfold nameIn?
  constructor
  . intro h
    split at h
    . next hdirectory =>
      rw [← hdirectory]
      exact (List.dropLast_append_getLast? name h).symm
    . cases h
  . rintro rfl
    simp

theorem list_eq_ok :
    fs.list path = .ok names ↔ ∃ directory, fs.locate path = .ok directory ∧
      fs.entry? directory = some .directory ∧
      names = fs.locations.filterMap (nameIn? directory) := by
  unfold list
  cases fs.locate path with
  | error e => simp [bind, Except.bind]
  | ok location =>
    cases hentry : fs.entry? location with
    | none => simp [bind, Except.bind, hentry, throw, throwThe, MonadExceptOf.throw]
    | some entry =>
      cases entry with
      | directory => simp [bind, Except.bind, hentry, pure, Except.pure, eq_comm]
      | _ => simp [bind, Except.bind, hentry, throw, throwThe, MonadExceptOf.throw]

theorem mem_locations : location ∈ fs.locations ↔ (fs.entry? location).isSome := by
  have habove : location ∈ (List.range (fs.workingDirectory.length + 1)).map
      (fs.workingDirectory.take ·) ↔ location.isPrefixOf fs.workingDirectory = true := by
    rw [List.isPrefixOf_iff_prefix, List.prefix_iff_eq_take, List.mem_map]
    constructor
    . rintro ⟨n, hn, rfl⟩
      rw [List.mem_range] at hn
      rw [List.length_take, Nat.min_eq_left (Nat.le_of_lt_succ hn)]
    . intro heq
      refine ⟨location.length, ?_, heq.symm⟩
      rw [List.mem_range, heq, List.length_take]
      omega
  unfold locations entry?
  rw [List.mem_append, habove, List.mem_filter, ← OrderedMap.isSome_get?]
  cases location.isPrefixOf fs.workingDirectory with
  | true => simp
  | false => simp

theorem nodup_locations (fs : FileSystem) : fs.locations.Nodup := by
  unfold locations
  rw [List.nodup_append]
  refine ⟨?_, fs.entries.nodup.filter _, ?_⟩
  . apply List.Nodup.map_on _ List.nodup_range
    intro n hn m hm heq
    rw [List.mem_range] at hn hm
    have hlength := congrArg List.length heq
    rw [List.length_take, List.length_take] at hlength
    omega
  . rintro above habove _ hentry rfl
    obtain ⟨n, _, rfl⟩ := List.mem_map.1 habove
    have hfront := List.isPrefixOf_iff_prefix.2 (List.take_prefix n fs.workingDirectory)
    simp [hfront] at hentry

theorem mem_names :
    name ∈ fs.locations.filterMap (nameIn? directory) ↔
      (fs.entry? (directory ++ [name])).isSome := by
  rw [← mem_locations, List.mem_filterMap]
  constructor
  . rintro ⟨location, hmem, hname⟩
    rw [← nameIn?_eq_some.1 hname]
    exact hmem
  . intro hmem
    exact ⟨_, hmem, nameIn?_eq_some.2 rfl⟩

theorem nodup_names (fs : FileSystem) (directory : Location) :
    (fs.locations.filterMap (nameIn? directory)).Nodup := by
  apply List.Nodup.filterMap _ fs.nodup_locations
  intro location location' name hname hname'
  rw [nameIn?_eq_some.1 hname, nameIn?_eq_some.1 hname']

end Listing

end ComponentDoc.FileSystem

namespace ComponentDoc.World

open FileSystem

variable {world made : World} {path : Path}

theorem run_isFile {content : ByteArray} (h : world.files.find path = .ok (.file content)) :
    (FileAccess.isFile path : StateM World Bool).run world = (true, world) := by
  simp only [FileAccess.isFile, StateT.run_bind, StateT.run_get, pure_bind, h]
  rfl

theorem run_isDirectory (world : World) (path : Path) :
    (FileAccess.isDirectory path : StateM World Bool).run world =
      (decide (world.files.find path = .ok .directory), world) := by
  simp only [FileAccess.isDirectory, StateT.run_bind, StateT.run_get, pure_bind]
  cases world.files.find path with
  | error e => rfl
  | ok entry =>
    cases entry with
    | _ => rfl

theorem run_bind {α β : Type} (operation : StateM World α) (next : α → StateM World β)
    (world : World) :
    (operation >>= next).run world =
      (next (operation.run world).1).run (operation.run world).2 :=
  rfl

theorem run_readText (world : World) (path : Path) :
    (FileAccess.readText path : StateM World _).run world = (world.files.readText path, world) := by
  have hread : (FileAccess.read path : StateM World _).run world =
      (world.files.read path, world) := rfl
  unfold readText FileAccess.readText
  rw [run_bind, hread]
  cases world.files.read path with
  | error e => rfl
  | ok content => rfl

theorem run_change (world : World) (f : FileSystem → Except FileError FileSystem) :
    (change f).run world = match f world.files with
      | .ok files => (.ok (), { world with files })
      | .error e => (.error e, world) := by
  simp only [change, StateT.run_bind, StateT.run_get, pure_bind]
  cases f world.files with
  | error e => rfl
  | ok files => rfl

theorem run_makeDirectory (world : World) (path : Path) :
    (FileAccess.makeDirectory path : StateM World _).run world =
      match world.files.makeDirectory path with
      | .ok files => (.ok (), { world with files })
      | .error e => (.error e, world) :=
  run_change world fun files => files.makeDirectory path

theorem run_write (world : World) (path : Path) (content : ByteArray) :
    (FileAccess.write path content : StateM World _).run world =
      match world.files.write path content with
      | .ok files => (.ok (), { world with files })
      | .error e => (.error e, world) :=
  run_change world fun files => files.write path content

theorem run_orPresent (world : World) (path : Path) (outcome : Except FileError Unit) :
    ((FileAccess.makeDirectories.orPresent path outcome : StateM World _).run world).2 = world := by
  unfold FileAccess.makeDirectories.orPresent
  cases outcome with
  | ok => rfl
  | error e =>
    dsimp only
    rw [run_bind, run_isDirectory]
    cases decide (world.files.find path = .ok .directory) with
    | true => rfl
    | false => rfl

theorem addsDirectories_makeDirectory (world : World) (path : Path) :
    AddsDirectories world.files
      ((FileAccess.makeDirectory path : StateM World _).run world).2.files := by
  rw [run_makeDirectory]
  cases hmake : world.files.makeDirectory path with
  | error e => apply AddsDirectories.refl
  | ok files => exact addsDirectories_of_makeDirectory hmake

/--
Whether an output directory can be made or not, nothing but directories comes of it.
-/
theorem addsDirectories_makeDirectories (depth : Nat) (path : Path) (world : World) :
    AddsDirectories world.files
      ((FileAccess.makeDirectories depth path : StateM World _).run world).2.files := by
  induction depth generalizing path world with
  | zero => apply AddsDirectories.refl
  | succ depth ih =>
    unfold FileAccess.makeDirectories
    by_cases hempty : path.text = ""
    . rw [if_pos hempty]
      apply AddsDirectories.refl
    . rw [if_neg hempty, run_bind]
      have hmake := addsDirectories_makeDirectory world path
      generalize (FileAccess.makeDirectory path : StateM World _).run world = outcome at hmake ⊢
      obtain ⟨result, middle⟩ := outcome
      apply hmake.trans
      dsimp only
      split
      . apply AddsDirectories.refl
      . split
        . apply AddsDirectories.refl
        . next parent _ =>
          rw [run_bind]
          have hparent := ih parent middle
          generalize (FileAccess.makeDirectories depth parent : StateM World _).run middle =
            outcome at hparent ⊢
          obtain ⟨result, above⟩ := outcome
          apply hparent.trans
          cases result with
          | error e => apply AddsDirectories.refl
          | ok =>
            dsimp only
            rw [run_bind, run_orPresent]
            apply addsDirectories_makeDirectory
      . rw [run_orPresent]
        apply AddsDirectories.refl

theorem orPresent_eq_ok {outcome : Except FileError Unit}
    (h : (FileAccess.makeDirectories.orPresent path outcome : StateM World _).run world =
      (.ok (), made)) :
    made = world ∧ (outcome = .ok () ∨ world.files.find path = .ok .directory) := by
  have hworld := run_orPresent world path outcome
  rw [h] at hworld
  refine ⟨hworld, ?_⟩
  cases outcome with
  | ok => exact .inl rfl
  | error e =>
    unfold FileAccess.makeDirectories.orPresent at h
    dsimp only at h
    rw [run_bind, run_isDirectory] at h
    by_cases hfind : world.files.find path = .ok .directory
    . exact .inr hfind
    . rw [decide_eq_false hfind] at h
      cases h

theorem find_of_orPresent_makeDirectory
    (h : (do FileAccess.makeDirectories.orPresent path (← FileAccess.makeDirectory path) :
      StateM World _).run world = (.ok (), made)) :
    made.files.find path = .ok .directory := by
  rw [run_bind, run_makeDirectory] at h
  cases hmake : world.files.makeDirectory path with
  | ok files =>
    rw [hmake] at h
    obtain ⟨rfl, _⟩ := orPresent_eq_ok h
    exact find_of_makeDirectory hmake
  | error e =>
    rw [hmake] at h
    obtain ⟨rfl, hfind⟩ := orPresent_eq_ok h
    exact hfind.resolve_left nofun

/--
If an output directory was made, it is there.
-/
theorem makeDirectories_eq_ok {depth : Nat}
    (h : (FileAccess.makeDirectories depth path : StateM World _).run world = (.ok (), made)) :
    path.text = "" ∨ made.files.find path = .ok .directory := by
  cases depth with
  | zero => cases h
  | succ depth =>
    unfold FileAccess.makeDirectories at h
    by_cases hempty : path.text = ""
    . exact .inl hempty
    . right
      rw [if_neg hempty, run_bind, run_makeDirectory] at h
      cases hmake : world.files.makeDirectory path with
      | ok files =>
        rw [hmake] at h
        cases h
        exact find_of_makeDirectory hmake
      | error e =>
        rw [hmake] at h
        dsimp only at h
        split at h
        . next heq => cases heq
        . split at h
          . cases h
          . next parent _ =>
            rw [run_bind] at h
            generalize (FileAccess.makeDirectories depth parent : StateM World _).run world =
              outcome at h
            obtain ⟨result, middle⟩ := outcome
            cases result with
            | error e => cases h
            | ok => exact find_of_orPresent_makeDirectory h
        . obtain ⟨rfl, hfind⟩ := orPresent_eq_ok h
          exact hfind.resolve_left nofun

end ComponentDoc.World
