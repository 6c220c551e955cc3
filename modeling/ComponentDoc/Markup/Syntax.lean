import ComponentDoc.SyntaxTree

/-!
The kinds of nodes in the syntax tree of markup.
-/

namespace ComponentDoc.Markup

inductive Kind where
  | document
  | doctype
  | element
  | scriptElement
  | styleElement
  | startTag
  | selfClosingTag
  | endTag
  /-- An end tag inside an element that closes none of the open elements. -/
  | strayEndTag
  /-- The end of an element that is left open. -/
  | elementEnd
  | tagEnd
  | tagName
  | attribute
  | attributeName
  | attributeValue
  | quotedValue
  | comment
  | text
  | rawText
  | entity
deriving Repr, DecidableEq, Inhabited

abbrev Tree := SyntaxTree Kind

def Tree.is (t : Tree) (kind : Kind) : Bool :=
  t.label? = some kind

end ComponentDoc.Markup
