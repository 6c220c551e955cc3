import ComponentDoc.Files.Path

/-!
What a run can ask of the files around it. The program is written against these operations, so
that it runs on real files as well as on a file system given as a value.
-/

namespace ComponentDoc

inductive FileError where
  | notFound
  | alreadyExists
  | notDirectory
  | isDirectory
  | tooManyLinks
  | notText
  | other (message : String)
deriving Repr, DecidableEq, Inhabited

def FileError.message : FileError → String
  | .notFound => "No such file or directory (os error 2)"
  | .alreadyExists => "File exists (os error 17)"
  | .notDirectory => "Not a directory (os error 20)"
  | .isDirectory => "Is a directory (os error 21)"
  | .tooManyLinks => "Too many levels of symbolic links (os error 40)"
  | .notText => "stream did not contain valid UTF-8"
  | .other message => message

def decodeText (content : ByteArray) : Except FileError String :=
  match String.fromUTF8? content with
  | some text => .ok text
  | none => .error .notText

class FileAccess (m : Type → Type) where
  isFile : Path → m Bool
  isDirectory : Path → m Bool
  list : Path → m (Except FileError (List String))
  read : Path → m (Except FileError ByteArray)
  write : Path → ByteArray → m (Except FileError Unit)
  makeDirectory : Path → m (Except FileError Unit)
  input : m ByteArray

namespace FileAccess

variable {m : Type → Type} [Monad m] [FileAccess m]

def readText (path : Path) : m (Except FileError String) := do
  match ← read path with
  | .ok content => return decodeText content
  | .error e => return .error e

/--
Make a directory and those that lead to it; `depth` bounds their number. A directory that is
there already is no failure.
-/
def makeDirectories : Nat → Path → m (Except FileError Unit)
  | 0, _ => return .error .notFound
  | depth + 1, path => do
    if path.text = "" then
      return .ok ()
    match ← makeDirectory path with
    | .ok _ => return .ok ()
    | .error .notFound =>
      match path.parent? with
      | none => return .error (.other "failed to create whole tree")
      | some parent =>
        match ← makeDirectories depth parent with
        | .error e => return .error e
        | .ok _ => orPresent path (← makeDirectory path)
    | .error e => orPresent path (.error e)
where
  orPresent (path : Path) (outcome : Except FileError Unit) : m (Except FileError Unit) := do
    match outcome with
    | .ok _ => return .ok ()
    | .error e => if ← isDirectory path then return .ok () else return .error e

end FileAccess

end ComponentDoc
