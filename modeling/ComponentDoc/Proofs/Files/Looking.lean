import ComponentDoc.Proofs.Files.FileSystem
import ComponentDoc.Proofs.Files.View

/-!
Operations that only look at files. They leave everything as it is, and what they give can be seen
in the view of the world. Searching directories for what a pattern describes is one of them.
-/

namespace ComponentDoc.World

open FileAccess

variable {α β : Type}

/--
An operation that leaves the world as it is.
-/
def LooksOnly (operation : StateM World α) : Prop :=
  ∀ world, (operation.run world).2 = world

theorem looksOnly_readText (path : Path) : LooksOnly (readText path : StateM World _) := by
  intro world
  rw [run_readText]

/--
What can be seen of the files in a world.
-/
def view (world : World) : FileView where
  isFile path := ((isFile path : StateM World Bool).run world).1
  isDirectory path := ((isDirectory path : StateM World Bool).run world).1
  list path := ((list path : StateM World _).run world).1

/--
An operation that leaves the world as it is and gives what is seen in the view of the world.
-/
def Shows (operation : StateM World α) (seen : ReaderM FileView α) : Prop :=
  ∀ world, operation.run world = (world.view.answer seen, world)

namespace Shows

theorem pure (a : α) : Shows (Pure.pure a) (Pure.pure a) :=
  fun _ => rfl

theorem bind {operation : StateM World α} {seen : ReaderM FileView α}
    {next : α → StateM World β} {seenNext : α → ReaderM FileView β} (h : Shows operation seen)
    (hnext : ∀ a, Shows (next a) (seenNext a)) :
    Shows (operation >>= next) (seen >>= seenNext) := by
  intro world
  rw [run_bind, h, hnext, FileView.answer_bind]

theorem ite {condition : Prop} [Decidable condition] {yes no : StateM World α}
    {seenYes seenNo : ReaderM FileView α} (hyes : Shows yes seenYes) (hno : Shows no seenNo) :
    Shows (if condition then yes else no) (if condition then seenYes else seenNo) := by
  split
  . exact hyes
  . exact hno

theorem filterAuxM {p : α → StateM World Bool} {q : α → ReaderM FileView Bool}
    (h : ∀ a, Shows (p a) (q a)) (as kept : List α) :
    Shows (as.filterAuxM p kept) (as.filterAuxM q kept) := by
  induction as generalizing kept with
  | nil => apply pure
  | cons a as ih =>
    apply bind (h a)
    intro keep
    apply ih

theorem filterM {p : α → StateM World Bool} {q : α → ReaderM FileView Bool}
    (h : ∀ a, Shows (p a) (q a)) (as : List α) : Shows (as.filterM p) (as.filterM q) := by
  apply bind (filterAuxM h as [])
  intro kept
  apply pure

theorem flatMapM {f : α → StateM World (List β)} {g : α → ReaderM FileView (List β)}
    (h : ∀ a, Shows (f a) (g a)) (as : List α) : Shows (as.flatMapM f) (as.flatMapM g) := by
  induction as with
  | nil => apply pure
  | cons a as ih =>
    rw [List.flatMapM_cons, List.flatMapM_cons]
    apply bind (h a)
    intro found
    apply bind ih
    intro rest
    apply pure

end Shows

theorem shows_isFile (path : Path) : Shows (isFile path) (isFile path) := by
  intro world
  apply Prod.ext
  . rfl
  . simp only [isFile, StateT.run_bind, StateT.run_get, pure_bind]
    split
    . rfl
    . rfl

theorem shows_isDirectory (path : Path) : Shows (isDirectory path) (isDirectory path) := by
  intro world
  apply Prod.ext
  . rfl
  . rw [run_isDirectory]

theorem shows_list (path : Path) : Shows (list path) (list path) :=
  fun _ => rfl

end ComponentDoc.World

namespace ComponentDoc.Glob

open FileAccess World

theorem shows_isPresent (path : Path) : Shows (isPresent path) (isPresent path) := by
  apply Shows.bind (shows_isFile path)
  intro isFile
  apply Shows.ite
  . apply Shows.pure
  . apply shows_isDirectory

theorem shows_namesIn (directory : Path) : Shows (namesIn directory) (namesIn directory) := by
  apply Shows.bind (shows_isDirectory directory)
  intro isDirectory
  apply Shows.ite
  . apply Shows.bind (shows_list directory)
    intro names
    cases names with
    | ok names => apply Shows.pure
    | error e => apply Shows.pure
  . apply Shows.pure

theorem shows_search (depth : Nat) (patterns : List Pattern) (directory : Path) :
    Shows (search depth patterns directory) (search depth patterns directory) := by
  induction depth generalizing patterns directory with
  | zero => apply Shows.pure
  | succ depth ih =>
    cases patterns with
    | nil => apply Shows.pure
    | cons pattern rest =>
      unfold search
      cases pattern.literal? with
      | some name =>
        dsimp only
        have hbehind : ∀ present : Bool, Shows
            (if present then search depth rest (child directory name) else pure [])
            (if present then search depth rest (child directory name) else pure []) := by
          intro present
          apply Shows.ite
          . apply ih
          . apply Shows.pure
        apply Shows.ite
        . exact Shows.bind (shows_isDirectory _) hbehind
        . exact Shows.bind (shows_isPresent _) hbehind
      | none =>
        apply Shows.bind (shows_namesIn directory)
        intro names
        apply Shows.ite
        . apply Shows.flatMapM
          intro name
          apply Shows.bind (shows_isDirectory _)
          intro isDir
          extract_lets more seenMore
          have hmore : ∀ inside, Shows (more inside) (seenMore inside) := by
            intro inside
            unfold more seenMore
            cases rest.dropWhile Pattern.isDeep with
            | nil => apply Shows.pure
            | cons next rest =>
              apply Shows.ite
              . apply Shows.bind (ih _ _)
                intro here
                apply Shows.pure
              . apply Shows.pure
          apply Shows.ite
          . exact Shows.bind (ih _ _) hmore
          . exact Shows.bind (Shows.pure []) hmore
        . apply Shows.bind
          . apply Shows.flatMapM
            intro name
            apply ih
          . intro found
            apply Shows.bind
            . apply Shows.flatMapM
              intro name
              apply ih
            . intro dotted
              apply Shows.pure

theorem shows_matching (glob : Glob) : Shows glob.matching glob.matching := by
  apply Shows.bind (shows_search _ _ _)
  intro found
  apply Shows.ite
  . apply Shows.filterM
    apply shows_isDirectory
  . apply Shows.pure

end ComponentDoc.Glob
