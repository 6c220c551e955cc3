import ComponentDoc.Markup.Document
import ComponentDoc.RepairCost

/-!
What becomes of elements and tags that are still open at the end of the text. Either each of them
lacks its end, or all that was read since the outermost one started is one stretch that fits
nowhere, from which the complete nodes are salvaged. The cheaper of the two repairs is taken: a
missing end has a fixed cost, a stretch that fits nowhere costs by the nodes, characters and lines
it takes in.
-/

namespace ComponentDoc.Markup

/--
The difference in cost, times the number of nodes read, beyond which the worse repair is not
considered.
-/
def costMargin : Nat :=
  1800

def Tree.isMissingEnd : Tree → Bool
  | .missing .elementEnd _ => true
  | _ => false

def Tree.isCutTag : Tree → Bool
  | .node .selfClosingTag _ parts =>
    parts.any fun
      | .missing .tagEnd _ => true
      | _ => false
  | _ => false

mutual

def openCount : Tree → Nat
  | .node .element _ children => openCountForest children
  | _ => 0

def openCountForest : List Tree → Nat
  | [] => 0
  | t :: ts => (if t.isMissingEnd || t.isCutTag then 1 else openCount t) + openCountForest ts

end

mutual

/--
What an open element consists of when it is taken apart, down to the innermost open one.
-/
def salvage : Tree → List Tree
  | .node .element span children =>
    if children.any (fun t => Tree.isMissingEnd t || Tree.isCutTag t) then salvageForest children
    else [.node .element span children]
  | t => [t]

/--
What the children of an open element consist of, without the marks of missing ends.
-/
def salvageForest : List Tree → List Tree
  | [] => []
  | t :: ts => if t.isMissingEnd then salvageForest ts else salvage t ++ salvageForest ts

end

mutual

def nodeCount : Tree → Nat
  | .node _ _ children => 1 + nodeCountForest children
  | .error _ children => 1 + nodeCountForest children
  | .missing _ _ => 1

def nodeCountForest : List Tree → Nat
  | [] => 0
  | t :: ts => nodeCount t + nodeCountForest ts

end

def tagParts (parts : List Tree) : Nat :=
  (parts.filter fun t => !Tree.is t .tagName && !Tree.is t .tagEnd && !Tree.is t .comment).length

/--
The number of nodes that a salvaged tree counts for. Comments count for none, and a tag with a
fault counts for its brackets and each of its parts beside the name.
-/
def strayNodes : Tree → Nat
  | .node .comment _ _ => 0
  | .node .startTag _ parts =>
    if (SyntaxTree.firstFaultForest parts).isSome then 2 + tagParts parts else 1
  | .node .selfClosingTag _ parts => 1 + tagParts parts
  | _ => 1

def innerCost (t : Tree) : Nat :=
  (t.preorder.filter SyntaxTree.isFault).length * (faultCost + strayNodeCost)

/--
The last node of a document that has open elements, repaired. `before` are the nodes in front of
it.
-/
def repairLast (source : List Char) (before : List Tree) (last : Tree) : Tree :=
  let count := openCount last
  let parts := salvage last
  let span := last.span
  let stretch := span.slice source
  -- Two repairs compete: to take the element apart, or to add the ends that are missing.
  let strayCost := faultCost + strayNodeCost * totalCost (parts.map strayNodes) + stretch.length
    + strayLineCost * stretch.count '\n'
  let missingEndCost := (faultCost + missingCost) * count
    + totalCost (parts.map fun t => if Tree.is t .startTag then innerCost t else 0)
  let nodes := nodeCountForest before + nodeCountForest parts
  let first := faultCost + missingCost
  let hasSiblings := before.any fun t => !t.is .comment
  let tooCostly :=
    if count = 1 then hasSiblings else (strayCost - first) * (1 + nodes) > costMargin
  if strayCost < missingEndCost && !tooCostly then
    .error span parts
  else last

def repair (source : List Char) (nodes : List Tree) : List Tree :=
  match nodes.reverse with
  | [] => []
  | last :: before =>
    if openCount last = 0 then nodes
    else before.reverse ++ [repairLast source before.reverse last]

def isByteOrderMark (c : Char) : Bool :=
  c.toNat = 0xFEFF

/--
The syntax tree of a document. A byte order mark at its start is passed over.
-/
def parseDocument (source : List Char) : Tree :=
  let start := Cursor.ofSource source
  let first := if (source.head?.map isByteOrderMark).getD false then start.advance 1 else start
  let (nodes, stop) := content (source.length + 1) [] first
  .node .document ⟨0, stop.offset⟩ (repair source nodes)

end ComponentDoc.Markup
