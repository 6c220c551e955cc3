/-!
The dialects in which a script can be written.
-/

namespace ComponentDoc.Script

inductive Dialect where
  | javaScript
  | typeScript
  | tsx
deriving Repr, DecidableEq, Inhabited

namespace Dialect

/--
The dialect named by a `lang` attribute, read without regard to case. Whatever is not known is
plain JavaScript.
-/
def ofLang (lang : Option String) : Dialect :=
  match lang.map String.toLower with
  | some "ts" => .typeScript
  | some "typescript" => .typeScript
  | some "tsx" => .tsx
  | _ => .javaScript

def hasTypes : Dialect → Bool
  | .javaScript => false
  | .typeScript => true
  | .tsx => true

end Dialect

end ComponentDoc.Script
