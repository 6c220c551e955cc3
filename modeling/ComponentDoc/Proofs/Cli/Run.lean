import ComponentDoc.Cli.Run
import ComponentDoc.Proofs.Files.FileSystem

/-!
What a run does, operation by operation: its result, its log and the files that it leaves. A file
that is to be documented has one of three fates, and what becomes of it in a run follows from that.
-/

namespace ComponentDoc

namespace Run

variable {α β : Type} {log middle : List Warning} {world world' : World}

def exec (part : Run (StateM World) α) (log : List Warning) (world : World) :
    (Except Failure α × List Warning) × World :=
  (part.run.run log).run world

theorem exec_pure (a : α) (log : List Warning) (world : World) :
    exec (pure a) log world = ((.ok a, log), world) :=
  rfl

theorem exec_throw (failure : Failure) (log : List Warning) (world : World) :
    exec (throw failure : Run (StateM World) α) log world = ((.error failure, log), world) :=
  rfl

theorem exec_bind (part : Run (StateM World) α) (next : α → Run (StateM World) β) :
    exec (part >>= next) log world =
      match exec part log world with
      | ((.ok a, log), world) => exec (next a) log world
      | ((.error failure, log), world) => ((.error failure, log), world) := by
  unfold exec
  simp only [ExceptT.run_bind, StateT.run_bind]
  generalize (part.run.run log).run world = outcome
  obtain ⟨⟨result, log⟩, world⟩ := outcome
  cases result with
  | ok a => rfl
  | error failure => rfl

theorem exec_bind_of_ok {part : Run (StateM World) α} {next : α → Run (StateM World) β} {a : α}
    (h : exec part log world = ((.ok a, middle), world')) :
    exec (part >>= next) log world = exec (next a) middle world' := by
  rw [exec_bind, h]

theorem exec_bind_of_error {part : Run (StateM World) α} {next : α → Run (StateM World) β}
    {failure : Failure} (h : exec part log world = ((.error failure, middle), world')) :
    exec (part >>= next) log world = ((.error failure, middle), world') := by
  rw [exec_bind, h]

theorem exec_ask (operation : StateM World α) :
    exec (ask operation) log world =
      ((.ok (operation.run world).1, log), (operation.run world).2) :=
  rfl

theorem exec_warn (message : String) (file : Option Path) :
    exec (warn message file) log world = ((.ok (), log ++ [⟨message, file⟩]), world) :=
  rfl

theorem exec_orFail (message : String) (operation : StateM World (Except FileError α)) :
    exec (orFail message operation) log world =
      match operation.run world with
      | (.ok a, world') => ((.ok a, log), world')
      | (.error e, world') => ((.error ⟨message, some e.message⟩, log), world') := by
  unfold orFail
  rw [exec_bind_of_ok (exec_ask operation)]
  cases operation.run world with
  | mk outcome world' =>
    cases outcome with
    | ok a => rfl
    | error e => rfl

theorem exec_orFail_of_ok {operation : StateM World (Except FileError α)} {a : α} {world' : World}
    (h : operation.run world = (.ok a, world')) (message : String) :
    exec (orFail message operation) log world = ((.ok a, log), world') := by
  rw [exec_orFail, h]

theorem exec_forM_warn (problems : List Problem) (file : Option Path) :
    exec (problems.forM fun problem => warn problem.message file) log world =
      ((.ok (), log ++ problems.map fun problem => ⟨problem.message, file⟩), world) := by
  induction problems generalizing log with
  | nil =>
    rw [List.map_nil, List.append_nil]
    apply exec_pure
  | cons problem problems ih =>
    rw [List.forM_eq_forM, List.forM_cons, exec_bind_of_ok (exec_warn _ _), ← List.forM_eq_forM, ih,
      List.map_cons, List.append_assoc]
    rfl

end Run

/--
What becomes of a file that is to be documented.
-/
inductive Fate where
  | unreadable (e : FileError)
  | skipped (problem : Problem)
  | documented (result : Document)

namespace Fate

def of (settings : Settings) (fs : FileSystem) (file : Path) : Fate :=
  match fs.readText file with
  | .error e => .unreadable e
  | .ok text =>
    match document text settings.options settings.columns settings.format with
    | .error problem => .skipped problem
    | .ok result => .documented result

def isDocumented : Fate → Bool
  | .documented _ => true
  | _ => false

def isReadable : Fate → Bool
  | .unreadable _ => false
  | _ => true

def warnings (file : Path) : Fate → List Warning
  | .unreadable _ => []
  | .skipped problem => [⟨"skipping: " ++ problem.message, some file⟩]
  | .documented result => result.warnings.map fun problem => ⟨problem.message, some file⟩

variable {settings : Settings} {fs : FileSystem} {file : Path}

theorem isReadable_or_unreadable (fate : Fate) : fate.isReadable ∨ ∃ e, fate = .unreadable e := by
  cases fate with
  | unreadable e => exact .inr ⟨e, rfl⟩
  | skipped problem => exact .inl rfl
  | documented result => exact .inl rfl

theorem isDocumented_iff {fate : Fate} :
    fate.isDocumented ↔ ∃ result, fate = .documented result := by
  cases fate with
  | unreadable e => simp [isDocumented]
  | skipped problem => simp [isDocumented]
  | documented result => simp [isDocumented]

theorem of_eq_of_find {fs' : FileSystem} {content : ByteArray}
    (h : fs.find file = .ok (.file content)) (h' : fs'.find file = .ok (.file content)) :
    of settings fs file = of settings fs' file := by
  unfold of
  rw [FileSystem.readText_of_find h, FileSystem.readText_of_find h']

theorem of_eq_unreadable {e : FileError} :
    of settings fs file = .unreadable e ↔ fs.readText file = .error e := by
  unfold of
  cases fs.readText file with
  | error e' => simp
  | ok text =>
    cases hdocument : document text settings.options settings.columns settings.format with
    | error problem => simp [hdocument]
    | ok result => simp [hdocument]

theorem of_eq_skipped {problem : Problem} :
    of settings fs file = .skipped problem ↔ ∃ text, fs.readText file = .ok text ∧
      document text settings.options settings.columns settings.format = .error problem := by
  unfold of
  cases fs.readText file with
  | error e => simp
  | ok text =>
    cases hdocument : document text settings.options settings.columns settings.format with
    | error problem' => simp [hdocument]
    | ok result => simp [hdocument]

theorem of_eq_documented {result : Document} :
    of settings fs file = .documented result ↔ ∃ text, fs.readText file = .ok text ∧
      document text settings.options settings.columns settings.format = .ok result := by
  unfold of
  cases fs.readText file with
  | error e => simp
  | ok text =>
    cases hdocument : document text settings.options settings.columns settings.format with
    | error problem => simp [hdocument]
    | ok result' => simp [hdocument]

end Fate

namespace Run

variable {settings : Settings} {output file : Path} {log : List Warning} {world : World}

theorem exec_read {message : String} :
    exec (orFail message (FileAccess.readText file)) log world =
      match world.files.readText file with
      | .ok text => ((.ok text, log), world)
      | .error e => ((.error ⟨message, some e.message⟩, log), world) := by
  rw [exec_orFail, World.run_readText]
  cases world.files.readText file with
  | ok text => rfl
  | error e => rfl

theorem exec_documentFile_unreadable {e : FileError}
    (h : Fate.of settings world.files file = .unreadable e) :
    exec (documentFile settings output file) log world =
      ((.error ⟨"failed to read " ++ file.text, some e.message⟩, log), world) := by
  unfold documentFile
  rw [exec_bind, exec_read, Fate.of_eq_unreadable.1 h]

theorem exec_documentFile_skipped {problem : Problem}
    (h : Fate.of settings world.files file = .skipped problem) :
    exec (documentFile settings output file) log world =
      ((.ok false, log ++ (Fate.skipped problem).warnings file), world) := by
  obtain ⟨text, htext, hdocument⟩ := Fate.of_eq_skipped.1 h
  unfold documentFile
  rw [exec_bind, exec_read, htext]
  dsimp only
  rw [hdocument]
  dsimp only
  rw [exec_bind_of_ok (exec_warn _ _)]
  apply exec_pure

theorem exec_documentFile_write {result : Document}
    (h : Fate.of settings world.files file = .documented result) :
    exec (documentFile settings output file) log world =
      match world.files.write (documentPath settings.format output file) result.text.toUTF8 with
      | .ok files =>
        ((.ok true, log ++ (Fate.documented result).warnings file), { world with files })
      | .error e =>
        ((.error ⟨"failed to write " ++ (documentPath settings.format output file).text,
          some e.message⟩, log ++ (Fate.documented result).warnings file), world) := by
  obtain ⟨text, htext, hdocument⟩ := Fate.of_eq_documented.1 h
  unfold documentFile
  rw [exec_bind, exec_read, htext]
  dsimp only
  rw [hdocument]
  dsimp only
  rw [exec_bind_of_ok (exec_forM_warn _ _), exec_bind, exec_orFail, World.run_write]
  cases world.files.write (documentPath settings.format output file) result.text.toUTF8 with
  | ok files => rfl
  | error e => rfl

theorem exec_documentFile_documented {result : Document} {location : Location}
    (h : Fate.of settings world.files file = .documented result)
    (hlocate : world.files.locate (documentPath settings.format output file) = .ok location)
    (hentry : world.files.entry? location ≠ some .directory) :
    exec (documentFile settings output file) log world =
      ((.ok true, log ++ (Fate.documented result).warnings file),
        { world with files := world.files.put location (.file result.text.toUTF8) }) := by
  rw [exec_documentFile_write h, FileSystem.write_eq_ok hlocate hentry]

end Run

end ComponentDoc
