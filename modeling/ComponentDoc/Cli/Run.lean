import ComponentDoc.Columns.Decode
import ComponentDoc.Document
import ComponentDoc.Files.Glob
import ComponentDoc.Cli.Arguments
import ComponentDoc.Cli.LogFilter

/-!
A run of the program. Without inputs it documents the component on its standard input; with
inputs it documents each of them into a file of the output directory. A component that cannot be
documented is skipped; a file that cannot be read or written ends the run.
-/

namespace ComponentDoc

structure Failure where
  message : String
  cause : Option String := none
deriving Repr, DecidableEq, Inhabited

def Failure.text (failure : Failure) : String :=
  match failure.cause with
  | none => "Error: " ++ failure.message ++ "\n"
  | some cause => "Error: " ++ failure.message ++ "\n\nCaused by:\n    " ++ cause ++ "\n"

structure Warning where
  message : String
  file : Option Path := none
deriving Repr, DecidableEq, Inhabited

def Warning.line (warning : Warning) : String :=
  match warning.file with
  | none => "WARN " ++ warning.message ++ "\n"
  | some path => "WARN " ++ warning.message ++ " file=" ++ path.text ++ "\n"

/--
A part of a run: it works on files, may warn and may fail.
-/
abbrev Run (m : Type → Type) := ExceptT Failure (StateT (List Warning) m)

structure Settings where
  options : Options
  columns : ColumnConfig
  format : Format
deriving DecidableEq

namespace Run

variable {m : Type → Type} [Monad m] [FileAccess m]

def ask {α : Type} (operation : m α) : Run m α :=
  liftM operation

def warn (message : String) (file : Option Path) : Run m Unit :=
  modifyGet fun log => ((), log ++ [⟨message, file⟩])

def orFail {α : Type} (message : String) (operation : m (Except FileError α)) : Run m α := do
  match ← ask operation with
  | .ok a => return a
  | .error e => throw ⟨message, some e.message⟩

def orProblem {α : Type} (result : Except Problem α) : Run m α :=
  match result with
  | .ok a => return a
  | .error problem => throw ⟨problem.message, none⟩

def loadColumns (file : Option String) : Run m ColumnConfig := do
  match file with
  | none => return {}
  | some file =>
    match ← ask (FileAccess.readText ⟨file⟩) with
    | .ok text => orProblem (ColumnConfig.ofJson text)
    | .error e => orProblem (.error (.config (file ++ ": " ++ e.message)))

def componentExtensions : List String :=
  ["vue"]

def isComponent (path : Path) : Bool :=
  match path.fileExtension? with
  | some extension => componentExtensions.contains extension
  | none => false

def componentsIn (directory : Path) : Run m (List Path) := do
  let names ← orFail ("failed to read directory: " ++ directory.text) (FileAccess.list directory)
  ask (((names.map directory.join).filter isComponent).filterM FileAccess.isFile)

def filesMatching (text : String) : Run m (List Path) := do
  match Glob.parse text with
  | .error e => throw ⟨"invalid glob pattern: " ++ text, some e.message⟩
  | .ok glob =>
    let found ← ask glob.matching
    -- A pattern without matches is no failure: the other inputs are still documented.
    let files ← ask (found.filterM FileAccess.isFile)
    if files.isEmpty then
      warn ("no files matched: " ++ text) none
    return files

/--
The files that an input stands for: itself, the components in a directory, or what a pattern
describes.
-/
def expandInput (text : String) : Run m (List Path) := do
  let path : Path := ⟨text⟩
  if ← ask (FileAccess.isFile path) then
    return [path]
  else if ← ask (FileAccess.isDirectory path) then
    componentsIn path
  else
    filesMatching text

/--
The files that inputs stand for, in order and without repetitions.
-/
def expandInputs (inputs : List String) : Run m (List Path) := do
  return Path.sorted (← inputs.flatMapM expandInput)

def documentPath (format : Format) (output : Path) (component : Path) : Path :=
  output.join (component.stem ++ "." ++ format.fileExtension)

def documentFile (settings : Settings) (output file : Path) : Run m Bool := do
  let text ← orFail ("failed to read " ++ file.text) (FileAccess.readText file)
  match document text settings.options settings.columns settings.format with
  | .error problem =>
    warn ("skipping: " ++ problem.message) file
    return false
  | .ok result =>
    result.warnings.forM fun problem => warn problem.message file
    let target := documentPath settings.format output file
    orFail ("failed to write " ++ target.text) (FileAccess.write target result.text.toUTF8)
    return true

def documentFiles (settings : Settings) (output : Option String) (inputs : List String) :
    Run m Unit := do
  match output with
  | none => throw ⟨"--output is required when files are given", none⟩
  | some output =>
    orFail ("failed to create output directory: " ++ output)
      (FileAccess.makeDirectories (output.length + 1) ⟨output⟩)
    let files ← expandInputs inputs
    let documented ← files.mapM (documentFile settings ⟨output⟩)
    if !files.isEmpty && !documented.contains true then
      throw ⟨"no component could be documented", none⟩

def documentInput (settings : Settings) : Run m String := do
  let text ← orFail "failed to read stdin" (do return decodeText (← FileAccess.input))
  let result ← orProblem
    (document text settings.options settings.columns settings.format)
  result.warnings.forM fun problem => warn problem.message none
  return result.text

/--
Do what arguments ask for; the result is what goes to the standard output.
-/
def perform (arguments : Arguments) : Run m String := do
  let columns ← loadColumns arguments.columns
  let format ← orProblem (Format.ofName (arguments.format.getD "markdown"))
  let settings : Settings := ⟨arguments.options, columns, format⟩
  if arguments.inputs.isEmpty then
    documentInput settings
  else
    documentFiles settings arguments.output arguments.inputs
    return ""

end Run

structure Outcome where
  exitCode : Nat
  stdout : String
  stderr : String
deriving Repr, DecidableEq, Inhabited

def usageLines : List String :=
  [ "Generate documentation tables from annotated single-file components",
    "",
    "Usage: sfcdoc [OPTIONS] [FILES]...",
    "",
    "Arguments:",
    "  [FILES]...  Input files (glob patterns supported). If omitted, reads from stdin",
    "",
    "Options:",
    "  -o, --output <OUTPUT>                  Output directory (required when files are given)",
    "  -f, --format <FORMAT>                  Output format: markdown (default), json",
    "      --columns <COLUMNS>                JSON file with per-category columns",
    "      --strict                           Fail on the first missing comment or malformed field",
    "      --delimiter <DELIMITER>            Separator between the types of a prop",
    "      --no-description <NO_DESCRIPTION>  Description used where there is no comment",
    "  -h, --help                             Print help" ]

def usageText : String :=
  String.join (usageLines.map (· ++ "\n"))

def logTarget : String :=
  "sfcdoc"

def run {m : Type → Type} [Monad m] [FileAccess m] (texts : List String)
    (filter : Option String) : m Outcome := do
  match Arguments.ofList texts with
  | .error .help => return ⟨0, usageText, ""⟩
  | .error .invalid => return ⟨2, "", "error: invalid arguments\n"⟩
  | .ok arguments =>
    let (result, log) ← ((Run.perform arguments).run).run []
    let shown := (LogFilter.ofText filter).shows logTarget .warn
    let lines := if shown then String.join (log.map Warning.line) else ""
    match result with
    | .ok output => return ⟨0, output, lines⟩
    | .error failure => return ⟨1, "", lines ++ failure.text⟩

end ComponentDoc
