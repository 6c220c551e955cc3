import ComponentDoc.Text.Blank
import ComponentDoc.Text.Lines
import ComponentDoc.Script.Expr

/-!
Descriptions are taken from comments. A line comment is trimmed. A block comment loses the stars
that decorate its lines, and its lines that are not blank are joined by single spaces.
-/

namespace ComponentDoc

open Text

/--
Drop the decoration in front of a line of a block comment: blanks, at least one star and at most
one more blank. A line without a star stays as it is.
-/
def dropStars (line : List Char) : List Char :=
  match line.dropWhile isBlank with
  | '*' :: rest =>
    match rest.dropWhile (· == '*') with
    | c :: more => if isBlank c then more else c :: more
    | [] => []
  | _ => line

def commentLine (line : List Char) : List Char :=
  trimChars (dropStars line)

def cleanComment (text : String) (block : Bool) : String :=
  if block then
    " ".intercalate
      ((((charLines text.toList).map commentLine).filter (fun line => !line.isEmpty)).map
        String.ofList)
  else
    trim text

/--
The description in front of an entry: that of the first comment, unless it is empty.
-/
def resolveComments (comments : List Script.Comment) : Option String :=
  match comments with
  | [] => none
  | comment :: _ =>
    let text := cleanComment comment.text comment.block
    if text.isEmpty then none else some text

end ComponentDoc
