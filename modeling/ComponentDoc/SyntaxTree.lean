/-!
Syntax trees over a source text. Every node covers a stretch of the source, given by offsets in
characters. Besides the nodes of a grammar a tree can hold two kinds of faults: stretches that
fit nowhere, and places where something required is missing. `SyntaxTree.firstFault` locates the
first of them, `Position.of` turns an offset into a line and a column.
-/

namespace ComponentDoc

/--
The stretch of a text between two offsets, counted in characters.
-/
structure Span where
  start : Nat
  stop : Nat
deriving Repr, DecidableEq, Inhabited

def Span.slice (span : Span) (source : List Char) : List Char :=
  (source.drop span.start).take (span.stop - span.start)

def Span.text (span : Span) (source : List Char) : String :=
  String.ofList (span.slice source)

/--
A line and a column, both counted from one, the column in bytes of UTF-8.
-/
structure Position where
  line : Nat
  column : Nat
deriving Repr, DecidableEq, Inhabited

def Position.advance (position : Position) (c : Char) : Position :=
  if c = '\n' then ⟨position.line + 1, 1⟩ else ⟨position.line, position.column + c.utf8Size⟩

def Position.of (source : List Char) (offset : Nat) : Position :=
  (source.take offset).foldl Position.advance ⟨1, 1⟩

inductive SyntaxTree (κ : Type) where
  | node (label : κ) (span : Span) (children : List (SyntaxTree κ))
  /-- A stretch of source that fits nowhere, with the nodes salvaged from it. -/
  | error (span : Span) (children : List (SyntaxTree κ))
  /-- A place where `label` is required and missing. -/
  | missing (label : κ) (position : Nat)
deriving Repr, Inhabited

namespace SyntaxTree

variable {κ : Type}

def span : SyntaxTree κ → Span
  | .node _ span _ => span
  | .error span _ => span
  | .missing _ position => ⟨position, position⟩

def label? : SyntaxTree κ → Option κ
  | .node label _ _ => some label
  | .error _ _ => none
  | .missing label _ => some label

def children : SyntaxTree κ → List (SyntaxTree κ)
  | .node _ _ children => children
  | .error _ children => children
  | .missing _ _ => []

def isFault : SyntaxTree κ → Bool
  | .node _ _ _ => false
  | .error _ _ => true
  | .missing _ _ => true

mutual

/--
The nodes of a tree, every node before its children and these from left to right.
-/
def preorder : SyntaxTree κ → List (SyntaxTree κ)
  | .node label span children => .node label span children :: preorderForest children
  | .error span children => .error span children :: preorderForest children
  | .missing label position => [.missing label position]

def preorderForest : List (SyntaxTree κ) → List (SyntaxTree κ)
  | [] => []
  | t :: ts => preorder t ++ preorderForest ts

end

mutual

/--
The offset of the first fault of a tree, found without visiting what comes after it.
-/
def firstFault : SyntaxTree κ → Option Nat
  | .node _ _ children => firstFaultForest children
  | .error span _ => some span.start
  | .missing _ position => some position

def firstFaultForest : List (SyntaxTree κ) → Option Nat
  | [] => none
  | t :: ts =>
    match firstFault t with
    | some offset => some offset
    | none => firstFaultForest ts

end

def text (source : List Char) (t : SyntaxTree κ) : String :=
  t.span.text source

end SyntaxTree

end ComponentDoc
