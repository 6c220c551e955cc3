/-!
Nodes of a template: elements with attributes and children, comments and texts.
-/

namespace ComponentDoc.Markup

/--
An attribute of an element. An attribute without `=` has no value.
-/
structure Attribute where
  name : String
  value : Option String
deriving Repr, DecidableEq, Inhabited

inductive Node where
  | element (tag : String) (attributes : List Attribute) (children : List Node)
  | comment (text : String)
  | text (text : String)
deriving Repr, Inhabited

mutual

def Node.decEq : (a b : Node) → Decidable (a = b)
  | .element tag attributes children, .element tag' attributes' children' =>
    have := Node.decEqForest children children'
    decidable_of_iff (tag = tag' ∧ attributes = attributes' ∧ children = children') (by simp)
  | .comment x, .comment y => decidable_of_iff (x = y) (by simp)
  | .text x, .text y => decidable_of_iff (x = y) (by simp)
  | .element _ _ _, .comment _ => isFalse nofun
  | .element _ _ _, .text _ => isFalse nofun
  | .comment _, .element _ _ _ => isFalse nofun
  | .comment _, .text _ => isFalse nofun
  | .text _, .element _ _ _ => isFalse nofun
  | .text _, .comment _ => isFalse nofun

def Node.decEqForest : (as bs : List Node) → Decidable (as = bs)
  | [], [] => isTrue rfl
  | a :: as, b :: bs =>
    have := Node.decEq a b
    have := Node.decEqForest as bs
    decidable_of_iff (a = b ∧ as = bs) (by simp)
  | [], _ :: _ => isFalse nofun
  | _ :: _, [] => isFalse nofun

end

instance : DecidableEq Node :=
  Node.decEq

/--
The value of the first attribute with a given name, if that attribute exists and has one.
-/
def attributeValue (attributes : List Attribute) (name : String) : Option String :=
  (attributes.find? (fun a => a.name = name)).bind Attribute.value

end ComponentDoc.Markup
