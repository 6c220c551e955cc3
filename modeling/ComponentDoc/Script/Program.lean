import ComponentDoc.Script.Statement

/-!
Whole scripts. The rules of the grammar are tied together by the depth to which they may still
use each other. Of three uses in a row, each for a part of the one before, at least one comes
behind a character, so a depth of three times the length of the script is enough.
-/

namespace ComponentDoc.Script

open ComponentDoc.Script.Parser

/--
The rules of a dialect with a given depth left.
-/
def rules (dialect : Dialect) : Nat → Rules
  | 0 =>
    { dialect
      expression := fun _ => unexpected
      statement := unexpected
      type := unexpected
      pattern := unexpected
      element := unexpected
      constructed := unexpected }
  | depth + 1 =>
    { dialect
      expression := fun context c => (rules dialect depth).expressionRule context c
      statement := fun c => (rules dialect depth).statementRule c
      type := fun c => (rules dialect depth).typeRule c
      pattern := fun c => (rules dialect depth).patternRule c
      element := fun c => (rules dialect depth).elementRule c
      constructed := fun c => (rules dialect depth).constructedRule c }

def rulesFor (dialect : Dialect) (source : List Char) : Rules :=
  rules dialect (3 * (source.length + 1))

/--
Move over a byte order mark, and over a first line that says how to run the script.
-/
def skipPrelude (c : Cursor) : Cursor :=
  let d := if c.peek? = some (Char.ofNat 0xFEFF) then c.advance 1 else c
  let e := skipTrivia true d
  match e.rest with
  | '#' :: '!' :: _ => e.skipWhile (fun x => x != '\n')
  | _ => d

def statements (r : Rules) : Parser (List Tree) :=
  repeated
    (fun (items : List Tree) => do
      let c ← atOperand
      if c.atEnd then
        return .inr items.reverse
      else
        return .inl ((← r.statement) :: items))
    []

def parseStatements (dialect : Dialect) (source : List Char) : Except Fault (List Tree) :=
  (statements (rulesFor dialect source)).run' (skipPrelude (.ofSource source))

end ComponentDoc.Script
