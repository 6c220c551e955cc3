import ComponentDoc.Script.Dialect
import ComponentDoc.Markup.Repair

/-!
The sections of a component file: the first `template` element and a `script` element at top
level. Of several scripts the first without a `setup` attribute is taken, else the first one.
-/

namespace ComponentDoc

open Markup

structure ScriptSection where
  text : String
  dialect : Script.Dialect
deriving Repr, DecidableEq, Inhabited

structure Sections where
  template : Option String := none
  script : Option ScriptSection := none
deriving Repr, DecidableEq, Inhabited

namespace Sections

def openingTag? (element : Tree) : Option Tree :=
  element.children.find? fun t => Tree.is t .startTag || Tree.is t .selfClosingTag

def tagName? (source : List Char) (element : Tree) : Option String :=
  (openingTag? element).bind fun tag =>
    (tag.children.find? fun t => Tree.is t .tagName).map (SyntaxTree.text source)

/--
The value of an attribute: that of its last part which is a value.
-/
def attributeValue (source : List Char) (t : Tree) : Option String :=
  (t.children.reverse.find? fun part =>
      Tree.is part .attributeValue || Tree.is part .quotedValue).map fun value =>
    if Tree.is value .quotedValue then
      ((value.children.find? fun part => Tree.is part .attributeValue).map
        (SyntaxTree.text source)).getD ""
    else value.text source

def attributeName (source : List Char) (t : Tree) : String :=
  ((t.children.reverse.find? fun part => Tree.is part .attributeName).map
    (SyntaxTree.text source)).getD ""

def attributes (source : List Char) (element : Tree) : List (String × Option String) :=
  ((((openingTag? element).map SyntaxTree.children).getD []).filter fun t =>
      Tree.is t .attribute).map fun t =>
    (attributeName source t, attributeValue source t)

/--
The source between the start tag of an element and its last end tag, or its end without one.
-/
def innerMarkup (source : List Char) (element : Tree) : String :=
  match element.children.find? fun t => Tree.is t .startTag with
  | none => ""
  | some start =>
    let last := element.children.reverse.find? fun t => Tree.is t .endTag
    let stop := (last.map fun t => t.span.start).getD element.span.stop
    Span.text ⟨start.span.stop, stop⟩ source

def scriptOf (source : List Char) (element : Tree) : ScriptSection where
  text := ((element.children.find? fun t => Tree.is t .rawText).map
    (SyntaxTree.text source)).getD ""
  dialect := .ofLang (((attributes source element).find? fun a => a.1 = "lang").bind Prod.snd)

def isSetup (source : List Char) (element : Tree) : Bool :=
  (attributes source element).any fun a => a.1 = "setup"

def isTemplate (source : List Char) (t : Tree) : Bool :=
  Tree.is t .element && tagName? source t = some "template"

def ofNodes (source : List Char) (nodes : List Tree) : Sections :=
  let scripts := nodes.filter fun t => Tree.is t .scriptElement
  -- The options object stands in the script that is not a setup script, if there are two.
  let chosen := (scripts.find? fun t => !isSetup source t).or scripts.head?
  { template := (nodes.find? (isTemplate source)).map (innerMarkup source)
    script := chosen.map (scriptOf source) }

def ofSource (text : String) : Sections :=
  let source := text.toList
  ofNodes source (parseDocument source).children

end Sections

end ComponentDoc
