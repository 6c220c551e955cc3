import ComponentDoc.OrderedMap
import ComponentDoc.Files.Access

/-!
A file system as a value: files, directories and links, and a working directory from which the paths
lead that are not absolute. Everything may be read and written.
-/

namespace ComponentDoc

abbrev Location := List String

inductive FileEntry where
  | file (content : ByteArray)
  | directory
  /-- What leads through the entry goes on along a path of its own. -/
  | link (target : Path)
deriving Inhabited

instance : DecidableEq FileEntry
  | .directory, .directory => isTrue rfl
  | .link p, .link q =>
    if h : p = q then isTrue (h ▸ rfl) else isFalse (fun e => h (by cases e; rfl))
  | .file ⟨a⟩, .file ⟨b⟩ =>
    if h : a = b then isTrue (h ▸ rfl) else isFalse (fun e => h (by cases e; rfl))
  | .file _, .directory => isFalse nofun
  | .file _, .link _ => isFalse nofun
  | .directory, .file _ => isFalse nofun
  | .directory, .link _ => isFalse nofun
  | .link _, .file _ => isFalse nofun
  | .link _, .directory => isFalse nofun

/--
The entries of a file system by their places, which are told by the names on the way from the root.
-/
structure FileSystem where
  entries : OrderedMap Location FileEntry := ∅
  workingDirectory : Location := ["work"]
deriving DecidableEq, Inhabited

namespace FileSystem

/--
What is found at a place. The working directory and what lies above it are always there.
-/
def entry? (fs : FileSystem) (location : Location) : Option FileEntry :=
  if location.isPrefixOf fs.workingDirectory then some .directory else fs.entries.get? location

def linkAt? (fs : FileSystem) (location : Location) : Option Path :=
  match fs.entry? location with
  | some (.link target) => some target
  | _ => none

def put (fs : FileSystem) (location : Location) (entry : FileEntry) : FileSystem :=
  { fs with entries := fs.entries.insert location entry }

section Following

/--
The place to which a part of a path leads from a directory. From the root the way up leads back
to it.
-/
def next (location : Location) (part : String) : Location :=
  match Path.componentOf? part with
  | some (.name name) => location ++ [name]
  | some .parent => location.dropLast
  | _ => location

def step (fs : FileSystem) (location : Location) (part : String) : Except FileError Location :=
  match fs.entry? location with
  | none => .error .notFound
  | some .directory => .ok (next location part)
  | some _ => .error .notDirectory

/--
How far the parts of a path lead: to a place, or to a link in a directory, with parts behind it.
-/
inductive Way where
  | place (location : Location)
  | link (directory : Location) (target : Path) (rest : List String)

def walk (fs : FileSystem) : Location → List String → Except FileError Way
  | location, [] => .ok (.place location)
  | location, part :: rest =>
    match fs.step location part with
    | .error e => .error e
    | .ok next =>
      match fs.linkAt? next with
      | some target => .ok (.link location target rest)
      | none => walk fs next rest

/--
Where a path starts that is given in a directory.
-/
def origin (path : Path) (directory : Location) : Location :=
  if path.isAbsolute then [] else directory

/--
Follow the parts of a path from a place, through at most a number of links.
-/
def follow (fs : FileSystem) (links : Nat) (location : Location) (parts : List String) :
    Except FileError Location :=
  match fs.walk location parts with
  | .error e => .error e
  | .ok (.place place) => .ok place
  | .ok (.link directory target rest) =>
    match links with
    | 0 => .error .tooManyLinks
    | links + 1 => follow fs links (origin target directory) (target.parts ++ rest)

def linkLimit : Nat :=
  40

/--
The place to which parts lead that are those of a path or come first in it.
-/
def lead (fs : FileSystem) (path : Path) (parts : List String) : Except FileError Location :=
  fs.follow linkLimit (origin path fs.workingDirectory) parts

def locate (fs : FileSystem) (path : Path) : Except FileError Location :=
  if path.text = "" then .error .notFound else fs.lead path path.parts

end Following

def find (fs : FileSystem) (path : Path) : Except FileError FileEntry := do
  match fs.entry? (← fs.locate path) with
  | some entry => return entry
  | none => throw .notFound

def read (fs : FileSystem) (path : Path) : Except FileError ByteArray := do
  match ← fs.find path with
  | .file content => return content
  | .directory => throw .isDirectory
  | .link _ => throw .tooManyLinks

/--
The places where something is found.
-/
def locations (fs : FileSystem) : List Location :=
  (List.range (fs.workingDirectory.length + 1)).map (fs.workingDirectory.take ·) ++
    fs.entries.keys.filter fun location => !location.isPrefixOf fs.workingDirectory

def nameIn? (directory location : Location) : Option String :=
  if location.dropLast = directory then location.getLast? else none

def list (fs : FileSystem) (path : Path) : Except FileError (List String) := do
  let location ← fs.locate path
  match fs.entry? location with
  | some .directory => return fs.locations.filterMap (nameIn? location)
  | some _ => throw .notDirectory
  | none => throw .notFound

/--
Write a file. Where a link leads to a place that is free, the file is made there.
-/
def write (fs : FileSystem) (path : Path) (content : ByteArray) :
    Except FileError FileSystem := do
  let location ← fs.locate path
  match fs.entry? location with
  | some .directory => throw .isDirectory
  | _ => return fs.put location (.file content)

/--
Make a directory. Its name is not followed, so a link under this name is in the way.
-/
def makeDirectory (fs : FileSystem) (path : Path) : Except FileError FileSystem :=
  if path.text = "" then .error .notFound
  else
    -- A slash at the end of the path may stand behind the name of the new directory.
    match path.parts.reverse.dropWhile (· = "") with
    | [] => .error .alreadyExists
    | name :: above =>
      match fs.lead path above.reverse >>= fun directory => fs.step directory name with
      | .error e => .error e
      | .ok location =>
        match fs.entry? location with
        | some _ => .error .alreadyExists
        | none => .ok (fs.put location .directory)

/--
Put an entry at a place below the working directory, and the directories that lead to it.
-/
def place (fs : FileSystem) (location : Location) (entry : FileEntry) : FileSystem :=
  let location := fs.workingDirectory ++ location
  let above := (List.range location.length).map (location.take ·)
  let fs := above.foldl (fun fs directory =>
    if (fs.entry? directory).isNone then fs.put directory .directory else fs) fs
  fs.put location entry

/--
The files below the working directory that another file system does not have, or not with their
content.
-/
def changes (before after : FileSystem) : List (Location × ByteArray) :=
  after.entries.entries.filterMap fun
    | (location, .file content) =>
      if before.entry? location = some (.file content) then none
      else if after.workingDirectory.isPrefixOf location then
        some (location.drop after.workingDirectory.length, content)
      else none
    | _ => none

end FileSystem

structure World where
  files : FileSystem
  input : ByteArray
deriving Inhabited

namespace World

def change (f : FileSystem → Except FileError FileSystem) :
    StateM World (Except FileError Unit) := do
  let world ← get
  match f world.files with
  | .ok files =>
    set { world with files }
    return .ok ()
  | .error e => return .error e

instance : FileAccess (StateM World) where
  isFile path := do
    match (← get).files.find path with
    | .ok (.file _) => return true
    | _ => return false
  isDirectory path := do
    match (← get).files.find path with
    | .ok .directory => return true
    | _ => return false
  list path := do return (← get).files.list path
  read path := do return (← get).files.read path
  write path content := change fun files => files.write path content
  makeDirectory path := change fun files => files.makeDirectory path
  input := do return (← get).input

end World

end ComponentDoc
