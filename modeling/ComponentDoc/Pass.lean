import ComponentDoc.Problem

/-!
A pass over one section of a component. A pass runs under fixed options, keeps a log of the
problems found so far, and may stop with one. Whether a reported problem stops the pass is
decided in `Pass.report` alone: a strict pass stops at it, a tolerant one logs it and goes on.
The log outlives a failure, so a pass can be resumed after a step that failed.
-/

namespace ComponentDoc

structure Options where
  /-- Stands in for a description that is not there. -/
  noDescription : String := "no description"
  /-- Stands between the names of a prop that has several types. -/
  typeDelimiter : String := "、"
  /-- Stop at the first reported problem. -/
  strict : Bool := false
deriving Repr, DecidableEq, Inhabited

/--
A computation that reads the options, extends the log and may stop with a problem.
-/
abbrev Pass := ReaderT Options (ExceptT Problem (StateM (List Problem)))

namespace Pass

/--
Run a pass on a given log. The log is returned whether or not the pass fails.
-/
def exec {α : Type} (p : Pass α) (options : Options) (log : List Problem) :
    Except Problem α × List Problem :=
  (ReaderT.run p options).run.run log

def complete {α : Type} (p : Pass α) (options : Options) : Except Problem (α × List Problem) :=
  match p.exec options [] with
  | (.ok a, log) => .ok (a, log)
  | (.error e, _) => .error e

def note (problem : Problem) : Pass Unit :=
  modify (· ++ [problem])

/--
Report a problem: it stops a strict pass, unlogged, and is logged by a tolerant one.
-/
def report (problem : Problem) : Pass Unit := do
  if (← read).strict then
    throw problem
  else
    note problem

/--
The description of a declaration: the text found for it, or the stand-in text, which is
reported.
-/
def describe (category key : String) (found : Option String) : Pass String :=
  match found with
  | some text => pure text
  | none => do
    report (.missingDescription category key)
    return (← read).noDescription

/--
The outcome of a pass as a value. Whatever the pass logged stays logged.
-/
def attempt {α : Type} (p : Pass α) : Pass (Except Problem α) :=
  try
    return .ok (← p)
  catch problem =>
    return .error problem

end Pass

end ComponentDoc
