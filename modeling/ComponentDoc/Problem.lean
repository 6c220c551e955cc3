/-!
What can be wrong with a component, and how it is worded. A problem either stops the work or is
kept as a warning; that choice is made by `ComponentDoc.Pass`, not here.
-/

namespace ComponentDoc

inductive Section where
  | script
  | template
deriving Repr, DecidableEq, Inhabited

def Section.label : Section → String
  | .script => "script"
  | .template => "template"

inductive Problem where
  | malformed (field reason : String)
  | missingDescription (category key : String)
  | missingType (key : String)
  /-- A section is not in its grammar; the place is counted from one, the column in bytes. -/
  | parse (inSection : Section) (line column : Nat)
  | grammar (ofSection : Section) (message : String)
  | config (message : String)
  | serialization (message : String)
deriving Repr, DecidableEq, Inhabited

def Problem.message : Problem → String
  | .malformed field reason => s!"malformed source in `{field}`: {reason}"
  | .missingDescription category key => s!"{category} `{key}` has no description comment"
  | .missingType key => s!"prop `{key}` declares no type"
  | .parse inSection line column => s!"{inSection.label} parse error at {line}:{column}"
  | .grammar ofSection message => s!"failed to load {ofSection.label} grammar: {message}"
  | .config message => s!"configuration error: {message}"
  | .serialization message => s!"serialization error: {message}"

/--
Whether a problem is markup that the template grammar does not know. Such a problem is noted
and never stops the work.
-/
def Problem.isTemplateParse : Problem → Bool
  | .parse .template _ _ => true
  | _ => false

end ComponentDoc
