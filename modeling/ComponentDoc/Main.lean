import ComponentDoc.Cli.Run

/-!
The program on real files.
-/

namespace ComponentDoc

def FileError.ofIO (e : IO.Error) : FileError :=
  match e with
  | .noFileOrDirectory .. => .notFound
  | .alreadyExists .. => .alreadyExists
  | .inappropriateType .. => .notDirectory
  | e => .other (toString e)

def attemptIO {α : Type} (operation : IO α) : IO (Except FileError α) := do
  try
    return .ok (← operation)
  catch e =>
    return .error (.ofIO e)

def kindOf? (path : Path) : IO (Option IO.FS.FileType) := do
  let real := (← IO.currentDir) / path.text
  try
    return some (← real.metadata).type
  catch _ =>
    return none

def isOfKind (kind : IO.FS.FileType) (path : Path) : IO Bool := do
  if path.text = "" then
    return false
  return (← kindOf? path) == some kind

instance : FileAccess IO where
  isFile := isOfKind .file
  isDirectory := isOfKind .dir
  list path := attemptIO do
    let real := (← IO.currentDir) / path.text
    return (← real.readDir).toList.map IO.FS.DirEntry.fileName
  read path := do
    if ← isOfKind .dir path then
      return .error .isDirectory
    attemptIO (IO.FS.readBinFile path.text)
  write path content := do
    if ← isOfKind .dir path then
      return .error .isDirectory
    attemptIO (IO.FS.writeBinFile path.text content)
  makeDirectory path := attemptIO (IO.FS.createDir path.text)
  input := do
    (← IO.getStdin).readBinToEnd

end ComponentDoc

def main (arguments : List String) : IO UInt32 := do
  let outcome ← ComponentDoc.run arguments (← IO.getEnv "SFCDOC_LOG")
  IO.eprint outcome.stderr
  IO.print outcome.stdout
  return outcome.exitCode.toUInt32
