/-!
Expressions of a script as far as documentation looks at them: object and array literals,
identifiers, strings, booleans, functions and calls. Everything else keeps only the name of its
kind and its source text.
-/

namespace ComponentDoc.Script

structure Comment where
  text : String
  block : Bool
deriving Repr, DecidableEq, Inhabited

structure Entry (ε : Type) where
  key : String
  value : ε
  text : String
  /-- The comments in front of the entry, in source order. -/
  comments : List Comment
deriving Repr, DecidableEq, Inhabited

inductive Statement (ε : Type) where
  | return (value : Option ε)
  | other
deriving Repr, DecidableEq, Inhabited

inductive FunctionBody (ε : Type) where
  | block (statements : List (Statement ε))
  | expression (value : ε)
deriving Repr, DecidableEq, Inhabited

inductive Expr where
  | object (entries : List (Entry Expr))
  | array (items : List Expr)
  | identifier (name : String)
  /-- A string without its quotes; escapes stay as they are written. -/
  | string (value : String)
  | boolean (value : Bool)
  | function (body : FunctionBody Expr)
  | call (callee : Expr) (args : List Expr)
  | other (kind text : String)
deriving Repr, Inhabited

def Expr.kind : Expr → String
  | .object _ => "object"
  | .array _ => "array"
  | .identifier _ => "identifier"
  | .string _ => "string"
  | .boolean _ => "boolean"
  | .function _ => "function"
  | .call _ _ => "call"
  | .other kind _ => kind

def Statement.firstReturn {ε : Type} : List (Statement ε) → Option ε
  | [] => none
  | .return value :: _ => value
  | .other :: rest => firstReturn rest

/--
What a function returns: its expression, or the value of its first `return` at top level. A bare
`return` hides the later ones.
-/
def FunctionBody.returned {ε : Type} : FunctionBody ε → Option ε
  | .expression value => some value
  | .block statements => Statement.firstReturn statements

end ComponentDoc.Script
