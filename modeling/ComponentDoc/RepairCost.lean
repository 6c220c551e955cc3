/-!
What it costs to repair a text that leaves its grammar. Of several repairs the cheapest is taken,
and its faults are the ones that are reported.
-/

namespace ComponentDoc

def faultCost : Nat :=
  500

def missingCost : Nat :=
  110

def strayNodeCost : Nat :=
  100

/--
The additional cost of a line that fits nowhere; a character costs one.
-/
def strayLineCost : Nat :=
  30

def totalCost : List Nat → Nat
  | [] => 0
  | cost :: costs => cost + totalCost costs

end ComponentDoc
