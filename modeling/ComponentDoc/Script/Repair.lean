import ComponentDoc.RepairCost
import ComponentDoc.Script.Program

/-!
Where a script that leaves its grammar is at fault. The reader stops at a lexeme that cannot stand
where it does, but the fault may lie in what was read before it. A script can be repaired by
dropping lexemes around that place, or by adding a name, a closing bracket or a semicolon there.
The cheapest repair is taken, and the fault lies where it changes the script.
-/

namespace ComponentDoc.Script

open ComponentDoc.Script.Parser

structure Repair where
  dropped : Span
  added : List Char
  filler : Char
  cost : Nat
deriving Repr, DecidableEq, Inhabited

namespace Repair

def apply (repair : Repair) (source : List Char) : List Char :=
  source.take repair.dropped.start ++ repair.added
    ++ repair.filler :: source.drop repair.dropped.stop

def nextStatement : List Char :=
  "import 'x';".toList

/--
Whether a repair brings a script back into its grammar. At the end of a script the statement that
is left there must be complete even if another one follows on its line.
-/
def works (dialect : Dialect) (source : List Char) (repair : Repair) : Bool :=
  let rest := if repair.dropped.stop ≥ source.length then nextStatement else []
  (parseStatements dialect (repair.apply source ++ rest)).isOk

def fault (repair : Repair) : Tree :=
  if repair.added.isEmpty then .error repair.dropped []
  else .missing ⟨.part, .plain⟩ repair.dropped.start

end Repair

def lexemeLength (cs : List Char) : Nat :=
  match stringLength? cs with
  | some n => n
  | none => max 1 (max (wordLength cs) (max (numberLength cs) (punctuator cs).length))

def lexemes : Nat → Cursor → List Span
  | 0, _ => []
  | fuel + 1, c =>
    let d := skipTrivia true c
    if d.atEnd then []
    else
      let e := d.advance (lexemeLength d.rest)
      ⟨d.offset, e.offset⟩ :: lexemes fuel e

/--
Whether a text is one part of a script: an entry of an object or an expression.
-/
def isOnePart (dialect : Dialect) (cs : List Char) : Bool :=
  let r := rulesFor dialect cs
  let whole (p : Parser Tree) : Bool :=
    match p.run (.ofSource cs) with
    | .ok (_, c) => (skipTrivia true c).atEnd
    | .error _ => false
  whole r.objectEntry || whole (r.expression {})

def coveredBy (spans : List Span) : Option Span :=
  match spans.head?, spans.getLast? with
  | some first, some last => some ⟨first.start, last.stop⟩
  | _, _ => none

/--
The number of nodes that some lexemes make up: one if they are one part of a script.
-/
def nodeCount (dialect : Dialect) (source : List Char) (spans : List Span) : Nat :=
  match coveredBy spans with
  | none => 0
  | some span => if isOnePart dialect (span.slice source) then 1 else spans.length

/--
The repair that drops lexemes before and behind a place; `next` is the offset of what comes
then. A space stands for them, so that a line break among them does not end a statement; but a
statement that ended before them stays ended.
-/
def dropping (dialect : Dialect) (source : List Char) (before behind : List Span) (next : Nat) :
    Option Repair :=
  (coveredBy (before ++ behind)).map fun span =>
    let stretch := span.slice source
    let ended := before.isEmpty &&
      omitsSemicolon dialect.hasTypes {} ⟨source.drop span.start, span.start⟩
    { dropped := ⟨span.start, next⟩
      added := []
      filler := if ended then ';' else ' '
      cost := faultCost + strayNodeCost * (nodeCount dialect source before + behind.length)
        + totalCost (stretch.map Char.utf8Size) + strayLineCost * stretch.count '\n' }

def repairReach : Nat :=
  6

def droppings (dialect : Dialect) (source : List Char) (before behind : List Span) :
    List Repair :=
  (List.range (min repairReach before.length + 1)).flatMap fun i =>
    (List.range (min repairReach behind.length + 1)).filterMap fun j =>
      let next := ((behind.drop j).head?.map Span.start).getD source.length
      dropping dialect source (before.drop (before.length - i)) (behind.take j) next

def openStatement (r : Rules) : Nat → Cursor → Nat
  | 0, c => c.offset
  | fuel + 1, c =>
    let d := skipTrivia true c
    if d.atEnd then d.offset
    else
      match r.statement.run d with
      | .ok (_, e) => openStatement r fuel e
      | .error _ => d.offset

def endDroppings (dialect : Dialect) (source : List Char) (spans : List Span) : List Repair :=
  let start := openStatement (rulesFor dialect source) (source.length + 1)
    (skipPrelude (.ofSource source))
  let open_ := spans.filter fun s => !(s.start < start)
  (dropping dialect source open_ [] source.length).toList

def addable : List (List Char) :=
  [[' ', 'x'], [')'], [']'], ['}'], [';']]

def additions (source : List Char) (before behind : List Span) : List Repair :=
  let start := (before.getLast?.map Span.stop).getD 0
  let next := (behind.head?.map Span.start).getD source.length
  addable.map fun added =>
    { dropped := ⟨start, next⟩
      added
      filler := ' '
      cost := faultCost + missingCost }

/--
The cheapest repair for a script that cannot be read on at a given offset, if one is found.
-/
def cheapestRepair (dialect : Dialect) (source : List Char) (offset : Nat) : Option Repair :=
  let spans := lexemes (source.length + 1) (.ofSource source)
  let before := spans.filter fun s => s.start < offset
  let behind := spans.filter fun s => !(s.start < offset)
  let drops :=
    if behind.isEmpty then endDroppings dialect source spans
    else droppings dialect source before behind
  let repairs := additions source before behind ++ drops
  -- The order is stable, so of two repairs that cost the same an addition is tried first.
  (repairs.mergeSort fun a b => a.cost ≤ b.cost).find? (Repair.works dialect source)

/--
The tree that stands for the fault of a script. Where no single repair is enough, it lies where
the reader stopped.
-/
def Fault.tree (dialect : Dialect) (source : List Char) : Fault → Tree
  | .unexpected offset =>
    match cheapestRepair dialect source offset with
    | some repair => repair.fault
    | none => .error ⟨offset, offset⟩ []
  | .missing kind offset => .missing ⟨kind, .plain⟩ offset

def parseProgram (dialect : Dialect) (source : List Char) : Tree :=
  let children :=
    match parseStatements dialect source with
    | .ok items => items
    | .error fault => [fault.tree dialect source]
  .node ⟨.program, .plain⟩ ⟨0, source.length⟩ children

end ComponentDoc.Script
