import ComponentDoc.Text.Blank
import ComponentDoc.Cursor
import ComponentDoc.Markup.Syntax
import ComponentDoc.Markup.TagName

/-!
The smallest parts of markup: blanks, comments, names, attribute values, entities, texts and raw
text. Each reader takes a cursor and gives the cursor behind what it read.
-/

namespace ComponentDoc.Markup

open Text

def skipBlanks (c : Cursor) : Cursor :=
  c.skipWhile isAsciiBlank

/--
The number of characters of a comment's rest up to its end. A comment ends at the first `>` that
follows two or more dashes; `dashes` counts the dashes directly before.
-/
def commentLength (dashes : Nat) : List Char → Option Nat
  | [] => none
  | '-' :: rest => (commentLength (dashes + 1) rest).map (· + 1)
  | '>' :: rest =>
    if dashes ≥ 2 then some 1 else (commentLength 0 rest).map (· + 1)
  | _ :: rest => (commentLength 0 rest).map (· + 1)

def comment? (c : Cursor) : Option Cursor :=
  match c.rest with
  | '<' :: '!' :: '-' :: '-' :: rest => (commentLength 0 rest).map fun n => c.advance (n + 4)
  | _ => none

def leaf (kind : Kind) (start stop : Cursor) : Tree :=
  .node kind ⟨start.offset, stop.offset⟩ []

/--
Move over blanks and comments: the comments and the cursor behind the last one, and the cursor
at the next character that is neither.
-/
def skipTrivia : Nat → Cursor → List Tree × Cursor
  | 0, c => ([], skipBlanks c)
  | fuel + 1, c =>
    let d := skipBlanks c
    match comment? d with
    | some e =>
      let (comments, f) := skipTrivia fuel e
      (leaf .comment d e :: comments, f)
    | none => ([], d)

/--
Move over the comments in front of a text that takes in blanks: these count for the text unless a
comment follows them.
-/
def leadingComments : Nat → Cursor → List Tree × Cursor
  | 0, c => ([], c)
  | fuel + 1, c =>
    let d := skipBlanks c
    match comment? d with
    | some e =>
      let (comments, f) := leadingComments fuel e
      (leaf .comment d e :: comments, f)
    | none => ([], c)

def isTagNameChar (c : Char) : Bool :=
  c.isAlphanum || c = '-' || c = ':'

def tagNameChars (c : Cursor) : List Char :=
  c.rest.takeWhile isTagNameChar

def isAttributeNameChar (c : Char) : Bool :=
  !(c = '<' || c = '>' || c = '"' || c = '\'' || c = '/' || c = '=' || isAsciiBlank c)

def isBareValueChar (c : Char) : Bool :=
  !(c = '<' || c = '>' || c = '"' || c = '\'' || c = '=' || isAsciiBlank c)

def isTextChar (c : Char) : Bool :=
  !(c = '<' || c = '>' || c = '&')

/--
The length of the text that starts at a cursor. Blanks at its end do not belong to it.
-/
def textLength (c : Cursor) : Nat :=
  (dropEndWhile isAsciiBlank (c.rest.takeWhile isTextChar)).length

def isHexDigit (c : Char) : Bool :=
  c.isDigit || ('a' ≤ c && c ≤ 'f') || ('A' ≤ c && c ≤ 'F')

def runLength (p : Char → Bool) (n : Nat) (cs : List Char) : Nat :=
  ((cs.take n).takeWhile p).length

/--
The length of the body of an entity: a letter run, or a number sign with a decimal or
hexadecimal number.
-/
def entityBodyLength : List Char → Nat
  | '#' :: x :: rest =>
    if x = 'x' || x = 'X' then
      let n := runLength isHexDigit 6 rest
      if n = 0 then 0 else n + 2
    else
      let n := runLength Char.isDigit 5 (x :: rest)
      if n = 0 then 0 else n + 1
  | cs => runLength Char.isAlpha 30 cs

def entity? (c : Cursor) : Option Cursor :=
  match c.rest with
  | '&' :: rest =>
    let n := entityBodyLength rest
    if n = 0 then none
    else if (rest.drop n).head? = some ';' then some (c.advance (n + 2))
    else some (c.advance (n + 1))
  | _ => none

/--
The length of a raw text that ends at `delimiter`, given in upper case. `seen` counts the
characters before the rest that may be the start of the delimiter, of which `pending` is left.
A character that breaks a half-made match is part of the text and cannot start a new match.
-/
def rawTextLength (delimiter : List Char) (pending : List Char) (seen : Nat) :
    List Char → Nat
  | [] => 0
  | c :: rest =>
    match pending with
    | [] => 0
    | d :: more =>
      if c.toUpper = d then
        if more.isEmpty then 0 else rawTextLength delimiter more (seen + 1) rest
      else seen + 1 + rawTextLength delimiter delimiter 0 rest

/--
The end of the raw text in an element that is known by `name`.
-/
def rawTextEnd (name : TagName) (c : Cursor) : Cursor :=
  let ending := if name.name = "script" then "script" else "style"
  let delimiter := '<' :: '/' :: ending.toList.map Char.toUpper
  c.advance (rawTextLength delimiter delimiter 0 c.rest)

end ComponentDoc.Markup
