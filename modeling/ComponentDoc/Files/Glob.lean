import ComponentDoc.Files.Access
import ComponentDoc.Files.Pattern

/-!
Patterns for paths: one pattern for each name on the way. The paths that they describe are found
by walking the directories.
-/

namespace ComponentDoc

structure Glob where
  start : Path
  names : List Pattern
  directories : Bool
deriving Repr, DecidableEq, Inhabited

namespace Glob

def parse (text : String) : Except PatternError Glob := do
  let _ ← Pattern.parse text
  let path : Path := ⟨text⟩
  let parts := if path.isAbsolute then path.parts.drop 1 else path.parts
  -- A slash at the end starts no further name.
  let parts := if parts.length > 1 && parts.getLast? = some "" then parts.dropLast else parts
  return {
    start := if path.isAbsolute then ⟨"/"⟩ else ⟨"."⟩
    names := ← parts.mapM Pattern.parse
    directories := text.toList.getLast? = some '/' }

variable {m : Type → Type} [Monad m] [FileAccess m]

open FileAccess

/--
The path of a name in a directory. Names in the working directory stand alone.
-/
def child (directory : Path) (name : String) : Path :=
  if directory.components = [.current] then ⟨name⟩ else directory.join name

def isPresent (path : Path) : m Bool := do
  if ← isFile path then return true else isDirectory path

def namesIn (directory : Path) : m (List String) := do
  if ← isDirectory directory then
    match ← list directory with
    | .ok names => return names
    | .error _ => return []
  else
    return []

/--
The directories with names of their own that a pattern can describe: the directory itself and the
one above it, if the pattern starts with a point.
-/
def dotNames (pattern : Pattern) : List String :=
  if pattern.head? = some (.char '.') then
    [".", ".."].filter fun name => pattern.describes name.toList
  else []

/--
The paths below a directory that patterns describe; `depth` bounds how deep the search goes.
-/
def search : Nat → List Pattern → Path → m (List Path)
  | 0, _, _ => return []
  | _, [], directory => return [directory]
  | depth + 1, pattern :: rest, directory => do
    match pattern.literal? with
    | some name =>
      let next := child directory name
      let present ←
        if name = "." || name = ".." then isDirectory directory else isPresent next
      if present then search depth rest next else return []
    | none =>
      let names ← namesIn directory
      if pattern.isDeep then
        -- Several such items in a row describe no more than one of them.
        let rest := rest.dropWhile Pattern.isDeep
        names.flatMapM fun name => do
          let path := child directory name
          let isDir ← isDirectory path
          let inside ← if isDir then search depth (pattern :: rest) path else pure []
          let here ←
            match rest with
            | [] => pure (if isDir then [path] else [])
            | next :: more =>
              if next.describes name.toList then search depth more path else pure []
          return inside ++ here
      else
        let described := names.filter fun name => pattern.describes name.toList
        let found ← described.flatMapM fun name => search depth rest (child directory name)
        let dotted ← (dotNames pattern).flatMapM fun name =>
          search depth rest (directory.join name)
        return found ++ dotted

def deepest : Nat :=
  4096

def matching (glob : Glob) : m (List Path) := do
  let found ← search deepest glob.names glob.start
  if glob.directories then found.filterM isDirectory else return found

end Glob

end ComponentDoc
