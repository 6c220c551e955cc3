import ComponentDoc.Script.Lexeme

/-!
Where a semicolon may be left out. It may at the end of the text, before a closing brace, and
after a line break unless what follows reads as a continuation. The dialects differ in details.
-/

namespace ComponentDoc.Script

structure SemicolonContext where
  /-- An operator with two operands could follow. -/
  operator : Bool := true
  /-- The body of a function could follow. -/
  functionBody : Bool := false
deriving Repr, DecidableEq, Inhabited

/--
Move over plain blanks and comments; `skip` characters at hand belong to a comment. There is no
result at a slash that starts no comment.
-/
def overComments (skip : Nat) : List Char → Option (List Char)
  | [] => some []
  | c :: rest =>
    match skip with
    | skip + 1 => overComments skip rest
    | 0 =>
      if isPlainBlank c then overComments 0 rest
      else if c = '/' then
        match rest with
        | '/' :: line => overComments ((line.takeWhile (fun c => c != '\n')).length + 1) rest
        | '*' :: block =>
          match blockCommentLength block with
          | some n => overComments (n + 1) rest
          | none => some []
        | _ => none
      else some (c :: rest)

def startsRelation (cs : List Char) : Bool :=
  let word := cs.takeWhile Char.isAlpha
  word = ['i', 'n'] || word = ['i', 'n', 's', 't', 'a', 'n', 'c', 'e', 'o', 'f']

def startsStatement (types : Bool) (context : SemicolonContext) (cs : List Char) : Bool :=
  match cs with
  | [] => true
  | c :: rest =>
    -- With one of these the statement before the line break goes on.
    if ['`', ',', ':', ';', '*', '%', '>', '<', '=', '?', '^', '|', '&', '/'].contains c then
      false
    else if c = '(' || c = '[' then
      types && !context.operator
    else if c = '{' then
      !(types && context.functionBody)
    else if c = '.' then
      !types && (rest.head?.map Char.isDigit).getD false
    else if c = '+' then
      rest.head? = some '+'
    else if c = '-' then
      rest.head? = some '-'
    else if c = '!' then
      rest.head? != some '='
    else
      !startsRelation cs

/--
Whether a semicolon may be left out before the characters at hand, as far as can be told without
passing over a comment; `skip` characters at hand belong to a comment.
-/
def omitsHere (types : Bool) (context : SemicolonContext) (skip : Nat) : List Char → Bool
  | [] => true
  | c :: rest =>
    match skip with
    | skip + 1 => omitsHere types context skip rest
    | 0 =>
      if c = '}' then
        if types && (rest.dropWhile isPlainBlank).head? = some ':' then context.operator else true
      else if c = '/' then
        match rest with
        | '/' :: line =>
          -- A comment stands for the line break that ends it where no operator can follow.
          !types && !context.operator &&
            match overComments 0 (line.dropWhile (fun c => c != '\n')) with
            | some (c :: _) => c != ',' && c != '='
            | _ => false
        | '*' :: block =>
          if types then false
          else
            match blockCommentLength block with
            | some n =>
              if (block.take n).contains '\n' && !context.operator then
                (block.drop n).head? != some ',' && (block.drop n).head? != some '='
              else omitsHere types context (n + 1) rest
            | none => false
        | _ => false
      else if c = '\n' || (!types && (c.toNat == 0x2028 || c.toNat == 0x2029)) then
        match overComments 0 rest with
        | some ds => startsStatement types context ds
        | none => false
      else if isPlainBlank c then omitsHere types context 0 rest
      else false

/--
Whether a semicolon may be left out at a cursor, or behind one of the comments that follow it.
Each round passes over a comment, so the text bounds the number of rounds.
-/
def omitsFrom (types : Bool) (context : SemicolonContext) : List Char → Cursor → Bool
  | [], c => omitsHere types context 0 c.rest
  | _ :: fuel, c =>
    if omitsHere types context 0 c.rest then true
    else
      let d := c.skipWhile isBlank
      match commentLength? d.rest with
      | some n => omitsFrom types context fuel (d.advance n)
      | none => false

def omitsSemicolon (types : Bool) (context : SemicolonContext) (c : Cursor) : Bool :=
  omitsFrom types context c.rest c

end ComponentDoc.Script
