import ComponentDoc.Files.Glob

/-!
File systems that are only looked at. A view tells of each path whether a file or a directory is
there, and lists directories. What a pattern describes depends on the names in directories but not
on their order: two views that differ only in the order in which they list names have the same
matches.
-/

namespace ComponentDoc

/--
What can be seen of a file system.
-/
structure FileView where
  isFile : Path → Bool
  isDirectory : Path → Bool
  list : Path → Except FileError (List String)

namespace FileView

/--
Nothing can be read or changed through a view.
-/
instance : FileAccess (ReaderM FileView) where
  isFile path view := view.isFile path
  isDirectory path view := view.isDirectory path
  list path view := view.list path
  read _ _ := .error .notFound
  write _ _ _ := .error .notFound
  makeDirectory _ _ := .error .notFound
  input _ := .empty

variable {α β : Type} (view : FileView)

section Answers

def answer (operation : ReaderM FileView α) : α :=
  operation.run view

@[simp]
theorem answer_pure (a : α) : view.answer (pure a) = a :=
  rfl

@[simp]
theorem answer_bind (operation : ReaderM FileView α) (next : α → ReaderM FileView β) :
    view.answer (operation >>= next) = view.answer (next (view.answer operation)) :=
  rfl

@[simp]
theorem answer_map (f : α → β) (operation : ReaderM FileView α) :
    view.answer (f <$> operation) = f (view.answer operation) :=
  rfl

@[simp]
theorem answer_isFile (path : Path) : view.answer (FileAccess.isFile path) = view.isFile path :=
  rfl

@[simp]
theorem answer_isDirectory (path : Path) :
    view.answer (FileAccess.isDirectory path) = view.isDirectory path :=
  rfl

@[simp]
theorem answer_list (path : Path) : view.answer (FileAccess.list path) = view.list path :=
  rfl

@[simp]
theorem answer_ite {condition : Prop} [Decidable condition] (yes no : ReaderM FileView α) :
    view.answer (if condition then yes else no) =
      if condition then view.answer yes else view.answer no := by
  split
  . rfl
  . rfl

theorem answer_filterAuxM (p : α → ReaderM FileView Bool) (as kept : List α) :
    view.answer (as.filterAuxM p kept) =
      (as.filter fun a => view.answer (p a)).reverse ++ kept := by
  induction as generalizing kept with
  | nil => rfl
  | cons a as ih =>
    rw [List.filterAuxM, answer_bind, ih, List.filter_cons]
    cases view.answer (p a) with
    | true => simp
    | false => rfl

@[simp]
theorem answer_filterM (p : α → ReaderM FileView Bool) (as : List α) :
    view.answer (as.filterM p) = as.filter fun a => view.answer (p a) := by
  rw [List.filterM, answer_bind, answer_filterAuxM, answer_pure, List.append_nil,
    List.reverse_reverse]

@[simp]
theorem answer_flatMapM (f : α → ReaderM FileView (List β)) (as : List α) :
    view.answer (as.flatMapM f) = as.flatMap fun a => view.answer (f a) := by
  induction as with
  | nil => rfl
  | cons a as ih =>
    rw [List.flatMapM_cons, answer_bind, answer_bind, answer_pure, ih, List.flatMap_cons]

end Answers

section Search

open Glob

variable {pattern : Pattern} {rest : List Pattern} {directory : Path} {name : String}

def names (directory : Path) : List String :=
  view.answer (namesIn directory)

/--
Whether there is a file or a directory with a name of its own in a directory.
-/
def holds (directory : Path) (name : String) : Bool :=
  if name = "." || name = ".." then view.isDirectory directory
  else view.isFile (child directory name) || view.isDirectory (child directory name)

theorem names_eq (directory : Path) :
    view.names directory =
      if view.isDirectory directory then (view.list directory).toOption.getD [] else [] := by
  unfold names namesIn
  rw [answer_bind, answer_isDirectory, answer_ite]
  congr 1
  rw [answer_bind, answer_list]
  cases view.list directory with
  | ok names => rfl
  | error e => rfl

theorem answer_isPresent (path : Path) :
    view.answer (isPresent path) = (view.isFile path || view.isDirectory path) := by
  unfold isPresent
  rw [answer_bind, answer_isFile, answer_ite, answer_isDirectory, answer_pure]
  cases view.isFile path with
  | true => rfl
  | false => rfl

theorem answer_search_literal (h : pattern.literal? = some name) (depth : Nat) :
    view.answer (search (depth + 1) (pattern :: rest) directory) =
      if view.holds directory name then
        view.answer (search depth rest (child directory name))
      else [] := by
  rw [search, h]
  dsimp only
  unfold holds
  split
  . rw [answer_bind, answer_isDirectory, answer_ite, answer_pure]
  . rw [answer_bind, answer_isPresent, answer_ite, answer_pure]

theorem mem_search_deep {path : Path} (h : pattern.literal? = none) (hdeep : pattern.isDeep = true)
    (depth : Nat) :
    path ∈ view.answer (search (depth + 1) (pattern :: rest) directory) ↔
      ∃ name ∈ view.names directory,
        (view.isDirectory (child directory name) = true ∧
          path ∈ view.answer (search depth (pattern :: rest.dropWhile Pattern.isDeep)
            (child directory name))) ∨
        (rest.dropWhile Pattern.isDeep = [] ∧ view.isDirectory (child directory name) = true ∧
          path = child directory name) ∨
        ∃ next more, rest.dropWhile Pattern.isDeep = next :: more ∧
          next.describes name.toList = true ∧
          path ∈ view.answer (search depth more (child directory name)) := by
  rw [search, h]
  dsimp only
  rw [answer_bind, hdeep, if_pos rfl, answer_flatMapM, List.mem_flatMap]
  apply exists_congr
  intro name
  apply and_congr_right
  intro _
  rw [answer_bind, answer_isDirectory]
  cases rest.dropWhile Pattern.isDeep with
  | nil =>
    cases view.isDirectory (child directory name) with
    | true => simp
    | false => simp
  | cons next more =>
    cases hnext : next.describes name.toList with
    | true =>
      cases view.isDirectory (child directory name) with
      | true => simp [hnext, and_assoc]
      | false => simp [hnext, and_assoc]
    | false =>
      cases view.isDirectory (child directory name) with
      | true => simp [hnext, and_assoc]
      | false => simp [hnext, and_assoc]

theorem answer_search_plain (h : pattern.literal? = none) (hdeep : pattern.isDeep = false)
    (depth : Nat) :
    view.answer (search (depth + 1) (pattern :: rest) directory) =
      (((view.names directory).filter fun name => pattern.describes name.toList).flatMap
        fun name => view.answer (search depth rest (child directory name))) ++
      (dotNames pattern).flatMap fun name =>
        view.answer (search depth rest (directory.join name)) := by
  rw [search, h]
  dsimp only
  rw [answer_bind, hdeep, if_neg Bool.false_ne_true, answer_bind, answer_bind, answer_pure,
    answer_flatMapM, answer_flatMapM]
  rfl

def found (glob : Glob) : List Path :=
  view.answer glob.matching

theorem mem_found {glob : Glob} {path : Path} :
    path ∈ view.found glob ↔
      path ∈ view.answer (search deepest glob.names glob.start) ∧
        (glob.directories = true → view.isDirectory path = true) := by
  unfold found matching
  rw [answer_bind, answer_ite, answer_filterM, answer_pure]
  cases glob.directories with
  | true => simp
  | false => simp

end Search

/--
Whether two views show the same, up to the order in which they list the names in a directory and to
the errors for directories that cannot be listed.
-/
structure Alike (view other : FileView) : Prop where
  isFile_eq : ∀ path, other.isFile path = view.isFile path
  isDirectory_eq : ∀ path, other.isDirectory path = view.isDirectory path
  list_ok : ∀ path, (∃ names, other.list path = .ok names) ↔ ∃ names, view.list path = .ok names
  mem_list : ∀ path names names', view.list path = .ok names → other.list path = .ok names' →
    ∀ name, name ∈ names' ↔ name ∈ names

namespace Alike

open Glob

variable {view other : FileView}

theorem symm (h : view.Alike other) : other.Alike view where
  isFile_eq path := (h.isFile_eq path).symm
  isDirectory_eq path := (h.isDirectory_eq path).symm
  list_ok path := (h.list_ok path).symm
  mem_list path names names' hnames hnames' name :=
    (h.mem_list path names' names hnames' hnames name).symm

theorem mem_names (h : view.Alike other) {directory : Path} {name : String}
    (hname : name ∈ view.names directory) : name ∈ other.names directory := by
  rw [names_eq] at hname ⊢
  rw [h.isDirectory_eq]
  split
  . next hdirectory =>
    rw [if_pos hdirectory] at hname
    cases hlist : view.list directory with
    | error e =>
      rw [hlist] at hname
      cases hname
    | ok names =>
      obtain ⟨names', hlist'⟩ := (h.list_ok directory).2 ⟨names, hlist⟩
      rw [hlist] at hname
      rw [hlist']
      exact (h.mem_list directory names names' hlist hlist' name).2 hname
  . next hdirectory =>
    rw [if_neg hdirectory] at hname
    cases hname

theorem holds_eq (h : view.Alike other) (directory : Path) (name : String) :
    other.holds directory name = view.holds directory name := by
  unfold holds
  rw [h.isDirectory_eq, h.isFile_eq, h.isDirectory_eq]

/--
A search through one of two views that are alike finds what it finds through the other one.
-/
theorem mem_search (h : view.Alike other) {depth : Nat} {patterns : List Pattern}
    {directory path : Path} (hpath : path ∈ view.answer (search depth patterns directory)) :
    path ∈ other.answer (search depth patterns directory) := by
  induction depth generalizing patterns directory with
  | zero => exact hpath
  | succ depth ih =>
    cases patterns with
    | nil => exact hpath
    | cons pattern rest =>
      cases hliteral : pattern.literal? with
      | some name =>
        rw [answer_search_literal _ hliteral] at hpath ⊢
        rw [h.holds_eq]
        split
        . next hholds =>
          rw [if_pos hholds] at hpath
          exact ih hpath
        . next hholds =>
          rw [if_neg hholds] at hpath
          cases hpath
      | none =>
        cases hdeep : pattern.isDeep with
        | true =>
          rw [mem_search_deep _ hliteral hdeep] at hpath ⊢
          obtain ⟨name, hname, hpath⟩ := hpath
          refine ⟨name, h.mem_names hname, ?_⟩
          rw [h.isDirectory_eq]
          rcases hpath with ⟨hdirectory, hpath⟩ | hend | ⟨next, more, hrest, hnext, hpath⟩
          . exact .inl ⟨hdirectory, ih hpath⟩
          . exact .inr (.inl hend)
          . exact .inr (.inr ⟨next, more, hrest, hnext, ih hpath⟩)
        | false =>
          rw [answer_search_plain _ hliteral hdeep, List.mem_append, List.mem_flatMap,
            List.mem_flatMap] at hpath ⊢
          rcases hpath with ⟨name, hname, hpath⟩ | ⟨name, hname, hpath⟩
          . rw [List.mem_filter] at hname
            exact .inl ⟨name, List.mem_filter.2 ⟨h.mem_names hname.1, hname.2⟩, ih hpath⟩
          . exact .inr ⟨name, hname, ih hpath⟩

theorem mem_found (h : view.Alike other) {glob : Glob} {path : Path} :
    path ∈ other.found glob ↔ path ∈ view.found glob := by
  rw [FileView.mem_found, FileView.mem_found, h.isDirectory_eq]
  constructor
  . rintro ⟨hfound, hdirectory⟩
    exact ⟨h.symm.mem_search hfound, hdirectory⟩
  . rintro ⟨hfound, hdirectory⟩
    exact ⟨h.mem_search hfound, hdirectory⟩

end Alike

end FileView

end ComponentDoc
