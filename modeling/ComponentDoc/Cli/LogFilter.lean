import ComponentDoc.Text.Blank

/-!
Which lines of the log are shown. A filter is a list of directives with commas between them; each
sets the level from which lines are shown, for all lines or for those of a part of the program.
-/

namespace ComponentDoc

inductive LogLevel where
  | off
  | error
  | warn
  | info
  | debug
  | trace
deriving Repr, DecidableEq, Inhabited

namespace LogLevel

def rank : LogLevel → Nat
  | .off => 0
  | .error => 1
  | .warn => 2
  | .info => 3
  | .debug => 4
  | .trace => 5

def all : List LogLevel :=
  [.off, .error, .warn, .info, .debug, .trace]

def name : LogLevel → String
  | .off => "off"
  | .error => "error"
  | .warn => "warn"
  | .info => "info"
  | .debug => "debug"
  | .trace => "trace"

/--
The level with a given name, in any case, or a given number.
-/
def ofText? (text : String) : Option LogLevel :=
  let digits := text.toList.dropWhile (· = '+')
  if text.toList.length ≤ digits.length + 1 && !digits.isEmpty && digits.all Char.isDigit then
    all.find? fun level => (String.ofList digits).toNat? = some level.rank
  else all.find? fun level => level.name = text.toLower

end LogLevel

structure LogDirective where
  target : Option String
  /-- It is only about lines inside a span of work. -/
  inSpan : Bool := false
  level : LogLevel
deriving Repr, DecidableEq, Inhabited

namespace LogDirective

def canStart (c : Char) : Bool :=
  c = '[' || c = '-' || c = ':' || c = '_' || c.isAlphanum || c.toNat ≥ 128

/--
The level behind an equals sign. Without one everything is shown.
-/
def levelOf? (text : List Char) : Option LogLevel :=
  if text.isEmpty then some .trace else LogLevel.ofText? (String.ofList text)

def parse? (text : String) : Option LogDirective :=
  let cs := text.toList
  match (cs.dropWhile Text.isBlank).head? with
  | none => some ⟨none, false, .trace⟩
  | some first =>
    if !canStart first then none
    else
      let head := cs.takeWhile fun c => c != '=' && c != '['
      match cs.drop head.length with
      | '=' :: level => (levelOf? level).map fun level =>
          ⟨some (String.ofList head), false, level⟩
      | '[' :: rest =>
        match rest.dropWhile (· != ']') with
        | ']' :: '=' :: level => (levelOf? level).map fun level =>
            ⟨some (String.ofList head), true, level⟩
        | [']'] => some ⟨some (String.ofList head), true, .trace⟩
        | _ => none
      | _ =>
        match LogLevel.ofText? text with
        | some level => some ⟨none, false, level⟩
        | none => some ⟨some text, false, .trace⟩

def concerns (directive : LogDirective) (target : String) : Bool :=
  !directive.inSpan &&
    match directive.target with
    | none => true
    | some start => start.toList.isPrefixOf target.toList

def weight (directive : LogDirective) : Nat :=
  match directive.target with
  | none => 0
  | some target => target.utf8ByteSize + 1

end LogDirective

structure LogFilter where
  directives : List LogDirective
deriving Repr, DecidableEq, Inhabited

namespace LogFilter

def standard : LogFilter :=
  ⟨[⟨none, false, .warn⟩]⟩

def splitCommas : List Char → List (List Char)
  | [] => [[]]
  | c :: cs =>
    if c = ',' then [] :: splitCommas cs
    else
      match splitCommas cs with
      | [] => [[c]]
      | part :: parts => (c :: part) :: parts

/--
The filter that a text stands for. An empty text shows errors alone; a text that cannot be read
counts for nothing.
-/
def ofText (text : Option String) : LogFilter :=
  match text with
  | none => standard
  | some text =>
    let parts := (splitCommas text.toList).filter fun part => !part.isEmpty
    match parts.mapM fun part => LogDirective.parse? (String.ofList part) with
    | none => standard
    | some [] => ⟨[⟨none, false, .error⟩]⟩
    | some directives => ⟨directives⟩

/--
Of two directives the more specific one; of two equally specific ones the later.
-/
def moreSpecific (found : Option LogDirective) (directive : LogDirective) : Option LogDirective :=
  match found with
  | none => some directive
  | some best => if directive.weight ≥ best.weight then some directive else some best

def shows (filter : LogFilter) (target : String) (level : LogLevel) : Bool :=
  let concerned := filter.directives.filter fun d => d.concerns target
  match concerned.foldl moreSpecific none with
  | some directive => level.rank ≤ directive.level.rank
  | none => false

end LogFilter

end ComponentDoc
