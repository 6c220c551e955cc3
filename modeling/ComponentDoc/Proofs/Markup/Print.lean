import ComponentDoc.Markup.Node
import ComponentDoc.Markup.Token

/-!
Markup as it is printed: no blanks besides the one before each attribute, values in double quotes,
and no end tag behind a void element. `NormalForest` says which forests are in normal form, and
`PlainForest` what else it takes to read them back: no value looks like a comment, and the names of
the elements that are open at one place find room.
-/

namespace ComponentDoc.Markup

open Text

def printValue : Option String → List Char
  | none => []
  | some value => '=' :: '"' :: (value.toList ++ ['"'])

def Attribute.print (a : Attribute) : List Char :=
  a.name.toList ++ printValue a.value

def printAttributes (attributes : List Attribute) : List Char :=
  attributes.flatMap fun a => ' ' :: a.print

def printOpening (tag : String) (attributes : List Attribute) : List Char :=
  '<' :: (tag.toList ++ (printAttributes attributes ++ ['>']))

def printEnding (tag : String) : List Char :=
  '<' :: '/' :: (tag.toList ++ ['>'])

def printComment (text : String) : List Char :=
  '<' :: '!' :: '-' :: '-' :: (text.toList ++ ['-', '-', '>'])

mutual

def Node.print : Node → List Char
  | .element tag attributes children =>
    printOpening tag attributes ++
      if TagName.isVoid ⟨tag⟩ then [] else printForest children ++ printEnding tag
  | .comment text => printComment text
  | .text text => text.toList

def printForest : List Node → List Char
  | [] => []
  | node :: nodes => node.print ++ printForest nodes

end

/--
A name in lower case made of letters, digits and dashes that starts with a letter.
-/
def TagShaped (tag : String) : Prop :=
  (∃ c, tag.toList.head? = some c ∧ c.isLower = true) ∧
    ∀ c ∈ tag.toList, (c.isLower || c.isDigit || c = '-') = true

/--
The elements whose end tag may be left out in front of certain other tags.
-/
def optionalEndNames : List String :=
  ["li", "dt", "dd", "p", "rb", "rt", "rp", "optgroup", "tr", "td", "th", "colgroup"]

/--
The name of an element that holds any markup and always has an end tag.
-/
structure PlainTag (tag : String) : Prop where
  shaped : TagShaped tag
  notRaw : tag ≠ "script" ∧ tag ≠ "style"
  notOptional : tag ∉ optionalEndNames
  notVoid : TagName.isVoid ⟨tag⟩ = false

/--
The void elements that a normal forest may hold.
-/
def plainVoidNames : List String :=
  ["br", "hr", "img", "input"]

def HasNul (text : String) : Prop :=
  '\x00' ∈ text.toList

instance (text : String) : Decidable (HasNul text) :=
  inferInstanceAs (Decidable (_ ∈ _))

structure Attribute.Normal (a : Attribute) : Prop where
  nonempty : a.name.toList ≠ []
  name : ∀ c ∈ a.name.toList, isAttributeNameChar c = true
  value : ∀ value, a.value = some value → '"' ∉ value.toList
  noNul : ¬ HasNul a.name ∧ ∀ value, a.value = some value → ¬ HasNul value

structure NormalComment (text : String) : Prop where
  noEnd : ¬ ['-', '-', '>'] <:+: text.toList
  noNul : ¬ HasNul text

structure NormalText (text : String) : Prop where
  nonempty : text.toList ≠ []
  chars : ∀ c ∈ text.toList, isTextChar c = true
  noNul : ¬ HasNul text
  head : ∀ c, text.toList.head? = some c → isAsciiBlank c = false
  last : ∀ c, text.toList.getLast? = some c → isAsciiBlank c = false

def Node.isText : Node → Bool
  | .text _ => true
  | _ => false

def Node.isElement : Node → Bool
  | .element _ _ _ => true
  | _ => false

mutual

def Node.Normal : Node → Prop
  | .element tag attributes children =>
    (PlainTag tag ∨ tag ∈ plainVoidNames ∧ children = []) ∧
      (∀ a ∈ attributes, a.Normal) ∧ NormalForest children
  | .comment text => NormalComment text
  | .text text => NormalText text

/--
A forest of normal nodes in which no two texts are adjacent.
-/
def NormalForest : List Node → Prop
  | [] => True
  | node :: nodes =>
    node.Normal ∧ (node.isText = true → ∀ next, nodes.head? = some next → next.isText = false) ∧
      NormalForest nodes

end

/--
Whether a value in quotes starts with what is read as a comment in front of the value.
-/
def StartsComment (value : String) : Prop :=
  ['<', '!', '-', '-'] <+: value.toList.dropWhile isAsciiBlank

instance (value : String) : Decidable (StartsComment value) :=
  inferInstanceAs (Decidable (_ <+: _))

mutual

/--
Whether nothing in a node is lost on the way: no value starts with a comment, no name is cut, and
the names on each way down take fewer than `room` bytes together.
-/
def Node.Plain : Node → Nat → Prop
  | .element tag attributes children, room =>
    (∀ a ∈ attributes, ∀ value, a.value = some value → ¬ StartsComment value) ∧
      tag.length ≤ TagName.keptLength ∧ TagName.weight ⟨tag⟩ < room ∧
        PlainForest children (room - TagName.weight ⟨tag⟩)
  | .comment _, _ => True
  | .text _, _ => True

def PlainForest : List Node → Nat → Prop
  | [], _ => True
  | node :: nodes, room => node.Plain room ∧ PlainForest nodes room

end

end ComponentDoc.Markup
