/-!
Paths. A path keeps the text in which it was written, for messages, and is compared by its
components: repeated slashes, slashes at the end and points in the middle do not count.
-/

namespace ComponentDoc

/--
The parts of a text between slashes. There is always at least one.
-/
def splitSlashes : List Char → List (List Char)
  | [] => [[]]
  | c :: cs =>
    if c = '/' then [] :: splitSlashes cs
    else
      match splitSlashes cs with
      | [] => [[c]]
      | part :: parts => (c :: part) :: parts

inductive PathComponent where
  | root
  /-- The directory itself; it counts only at the start of a path. -/
  | current
  | parent
  | name (text : String)
deriving Repr, DecidableEq, Inhabited

namespace PathComponent

def rank : PathComponent → Nat
  | .root => 0
  | .current => 1
  | .parent => 2
  | .name _ => 3

/--
Whether a component comes before another one: by kind, and names by their characters.
-/
def lt (a b : PathComponent) : Bool :=
  match a, b with
  | .name x, .name y => x < y
  | a, b => a.rank < b.rank

def text : PathComponent → String
  | .root => "/"
  | .current => "."
  | .parent => ".."
  | .name text => text

end PathComponent

structure Path where
  text : String
deriving Repr, DecidableEq, Inhabited

namespace Path

def parts (path : Path) : List String :=
  (splitSlashes path.text.toList).map String.ofList

def isAbsolute (path : Path) : Bool :=
  path.text.toList.head? = some '/'

def componentOf? (part : String) : Option PathComponent :=
  if part = "" || part = "." then none
  else if part = ".." then some .parent
  else some (.name part)

def components (path : Path) : List PathComponent :=
  let start : List PathComponent :=
    if path.isAbsolute then [.root]
    else if path.parts.head? = some "." then [.current]
    else []
  start ++ path.parts.filterMap componentOf?

def componentsLe : List PathComponent → List PathComponent → Bool
  | [], _ => true
  | _ :: _, [] => false
  | a :: as, b :: bs => a.lt b || (a = b && componentsLe as bs)

def le (p q : Path) : Bool :=
  componentsLe p.components q.components

def same (p q : Path) : Bool :=
  p.components = q.components

def join (directory : Path) (name : String) : Path :=
  if name.toList.head? = some '/' then ⟨name⟩
  else if directory.text = "" || directory.text.toList.getLast? = some '/' then
    ⟨directory.text ++ name⟩
  else ⟨directory.text ++ "/" ++ name⟩

def parent? (path : Path) : Option Path :=
  match path.components.reverse with
  | [] => none
  | .root :: _ => none
  | _ :: rest =>
    match rest.reverse with
    | .root :: names => some ⟨"/" ++ "/".intercalate (names.map PathComponent.text)⟩
    | names => some ⟨"/".intercalate (names.map PathComponent.text)⟩

def fileName? (path : Path) : Option String :=
  match path.components.getLast? with
  | some (.name text) => some text
  | _ => none

/--
What stands before and behind the last point of a name. A point at the very start does not count.
-/
def splitExtension (name : String) : String × Option String :=
  let reversed := name.toList.reverse
  let tail := reversed.takeWhile (· != '.')
  let stem := (reversed.drop (tail.length + 1)).reverse
  if stem.isEmpty then (name, none) else (String.ofList stem, some (String.ofList tail.reverse))

def stem (path : Path) : String :=
  (path.fileName?.map fun name => (splitExtension name).1).getD path.text

def fileExtension? (path : Path) : Option String :=
  path.fileName?.bind fun name => (splitExtension name).2

/--
A list of paths in their order, where of paths with the same components only the first is kept.
-/
def dropRepeats : List Path → List Path
  | [] => []
  | p :: ps =>
    match dropRepeats ps with
    | [] => [p]
    | q :: qs => if p.same q then p :: qs else p :: q :: qs

def sorted (paths : List Path) : List Path :=
  dropRepeats (paths.mergeSort le)

end Path

end ComponentDoc
