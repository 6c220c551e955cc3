/-!
Lines of a text. A line ends at a line feed; a carriage return directly before that line feed
belongs to the line ending and not to the line. A text that ends in a line feed has no empty
line after it.
-/

namespace ComponentDoc.Text

def dropCarriageReturn (line : List Char) : List Char :=
  match line.reverse with
  | '\r' :: rest => rest.reverse
  | _ => line

def charLines (cs : List Char) : List (List Char) :=
  go [] cs
where
  /-- Collect lines; `line` holds the current one in reverse. -/
  go (line : List Char) : List Char → List (List Char)
    | [] => if line.isEmpty then [] else [line.reverse]
    | '\n' :: rest => dropCarriageReturn line.reverse :: go [] rest
    | c :: rest => go (c :: line) rest

end ComponentDoc.Text
