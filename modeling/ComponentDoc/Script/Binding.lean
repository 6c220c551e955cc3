import ComponentDoc.Script.TypeGrammar

/-!
Patterns: what can be bound by a declaration or a parameter, and what can be assigned to.
-/

namespace ComponentDoc.Script

open ComponentDoc.Script.Parser

namespace Rules

variable (r : Rules)

def defaultValue : Parser Unit := do
  if ← eat "=" then
    let _ ← r.expression {}

def objectPatternMember : Parser Unit := do
  if ← eat "..." then
    r.pattern
  else
    let keyed : Parser Unit := do
      let _ ← r.propertyName
      expect ":"
      r.pattern
      r.defaultValue
    let named : Parser Unit := do
      if (← atPunctuator "\x7b") || (← atPunctuator "[") then
        r.pattern
      else
        let _ ← anyWord
      r.defaultValue
    orElse keyed named

def arrayPatternItem : Parser Unit := do
  let _ ← eat "..."
  r.pattern
  r.defaultValue

def patternAccess : Parser Unit :=
  repeated
    (fun (_ : Unit) => do
      if (← eat ".") || (← eat "?.") then
        let _ ← r.propertyName
        return .inl ()
      else if ← eat "[" then
        let _ ← r.expression {}
        expect "]"
        return .inl ()
      else if r.dialect.hasTypes && (← atPunctuator "!") && !(← afterLineBreak) then
        expect "!"
        return .inl ()
      else
        return .inr ())
    ()

/--
A pattern: an object pattern, an array pattern, or a name with accesses to its members.
-/
def patternRule : Parser Unit := do
  if ← eat "\x7b" then
    let _ ← sparseList r.objectPatternMember "\x7d"
  else if ← eat "[" then
    let _ ← sparseList r.arrayPatternItem "]"
  else
    let _ ← anyWord
    r.patternAccess

end Rules

end ComponentDoc.Script
