import ComponentDoc.Pass
import ComponentDoc.Markup.Node
import ComponentDoc.Markup.Repair

/-!
From the syntax tree of a template to its nodes. An element without an end of its own, such as a
void element, has no children: what the tree nests in it follows it as siblings. Nodes salvaged
from a stretch that fits nowhere are kept in place.
-/

namespace ComponentDoc.Markup

def commentBody (raw : List Char) : List Char :=
  let body := if ['<', '!', '-', '-'].isPrefixOf raw then raw.drop 4 else raw
  if ['-', '-', '>'].isSuffixOf body then body.take (body.length - 3) else body

def Attribute.addPart (source : List Char) (a : Attribute) (part : Tree) : Attribute :=
  match part.label? with
  | some .attributeName => { a with name := part.text source }
  | some .attributeValue => { a with value := some (part.text source) }
  | some .quotedValue =>
    let inner := part.children.find? (fun t => Tree.is t .attributeValue)
    { a with value := some ((inner.map (SyntaxTree.text source)).getD "") }
  | _ => a

def Attribute.ofTree (source : List Char) (t : Tree) : Attribute :=
  t.children.foldl (Attribute.addPart source) ⟨"", none⟩

def addTagPart (source : List Char) (tag : String × List Attribute) (part : Tree) :
    String × List Attribute :=
  match part.label? with
  | some .tagName => (part.text source, tag.2)
  | some .attribute => (tag.1, tag.2 ++ [.ofTree source part])
  | _ => tag

def Tree.isOpeningTag (t : Tree) : Bool :=
  Tree.is t .startTag || Tree.is t .selfClosingTag

def Tree.isEndingTag (t : Tree) : Bool :=
  Tree.is t .endTag || Tree.is t .selfClosingTag

def openingOf (source : List Char) (parts : List Tree) : String × List Attribute :=
  match parts.find? Tree.isOpeningTag with
  | some tag => tag.children.foldl (addTagPart source) ("", [])
  | none => ("", [])

/--
An element with the nodes inside it, or with these nodes behind it if it has no end of its own.
-/
def placeElement (source : List Char) (parts : List Tree) (inside : List Node) : List Node :=
  let (tag, attributes) := openingOf source parts
  if parts.any Tree.isEndingTag then
    [.element tag attributes inside]
  else
    .element tag attributes [] :: inside

/--
The nodes that a node of the tree becomes, given those that its parts become.
-/
def lowerNode (source : List Char) (kind : Kind) (span : Span) (parts : List Tree)
    (inside : List Node) : List Node :=
  match kind with
  | .element | .scriptElement | .styleElement => placeElement source parts inside
  | .comment => [.comment (String.ofList (commentBody (span.slice source)))]
  | .text | .rawText | .entity => [.text (span.text source)]
  | _ => []

mutual

/--
What is missing is there without any text or parts.
-/
def lowerTree (source : List Char) : Tree → List Node
  | .node kind span parts => lowerNode source kind span parts (lowerForest source parts)
  | .error _ children => lowerForest source children
  | .missing kind position => lowerNode source kind ⟨position, position⟩ [] []

def lowerForest (source : List Char) : List Tree → List Node
  | [] => []
  | t :: ts => lowerTree source t ++ lowerForest source ts

end

/--
Read a template. Markup outside the grammar is noted and recovered from.
-/
def parseTemplate (text : String) : Pass (List Node) := do
  let source := text.toList
  let tree := parseDocument source
  if let some offset := tree.firstFault then
    let position := Position.of source offset
    Pass.note (.parse .template position.line position.column)
  return lowerForest source tree.children

end ComponentDoc.Markup
