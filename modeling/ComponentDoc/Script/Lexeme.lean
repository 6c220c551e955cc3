import ComponentDoc.Cursor
import ComponentDoc.Script.Dialect
import ComponentDoc.Script.Syntax

/-!
The lexemes of a script: blanks and comments, words, punctuators, numbers, strings, regular
expressions and the stretches of template strings. Readers take the characters at hand and give
the length of what they read. Which lexeme is tried depends on the place in the grammar, so there
is no token stream: a slash starts a regular expression only where an operand may stand. A null
character belongs to no lexeme, not even to a comment or a string.
-/

namespace ComponentDoc.Script

def isBlank (c : Char) : Bool :=
  let n := c.toNat
  (9 ≤ n && n ≤ 13) || n == 0x20 || n == 0x85 || n == 0xA0 || n == 0x1680
    || (0x2000 ≤ n && n ≤ 0x200B)
    || n == 0x2028 || n == 0x2029 || n == 0x202F || n == 0x205F || n == 0x2060 || n == 0x3000
    || n == 0xFEFF

/--
Whether a character is one of the six blanks of ASCII, which are the ones that matter for where a
semicolon may be left out.
-/
def isPlainBlank (c : Char) : Bool :=
  let n := c.toNat
  (9 ≤ n && n ≤ 13) || n == 0x20

def isLineEnd (c : Char) : Bool :=
  c = '\n' || c = '\r' || c.toNat == 0x2028 || c.toNat == 0x2029

def isNull (c : Char) : Bool :=
  c.toNat = 0

def blockCommentLength : List Char → Option Nat
  | [] => none
  | '*' :: '/' :: _ => some 2
  | c :: rest => if isNull c then none else (blockCommentLength rest).map (· + 1)

def commentLength? : List Char → Option Nat
  | '/' :: '/' :: rest =>
    some ((rest.takeWhile (fun c => !isLineEnd c && !isNull c)).length + 2)
  | '/' :: '*' :: rest => (blockCommentLength rest).map (· + 2)
  | _ => none

def markupCommentLength? (cs : List Char) : Option Nat :=
  if ['<', '!', '-', '-'].isPrefixOf cs || ['-', '-', '>'].isPrefixOf cs then
    some (cs.takeWhile (fun c =>
      c != '\n' && c.toNat != 0x2028 && c.toNat != 0x2029 && !isNull c)).length
  else none

/--
The kind and the length of the comment at hand. Comments in the style of markup are found only
where `markup` allows them.
-/
def commentAt? (markup : Bool) (cs : List Char) : Option (Kind × Nat) :=
  match commentLength? cs with
  | some n => some (.comment, n)
  | none => if markup then (markupCommentLength? cs).map fun n => (.markupComment, n) else none

/--
Move over blanks and comments; `skip` characters at hand belong to a comment.
-/
def skipTriviaFrom (markup : Bool) (skip offset : Nat) : List Char → Cursor
  | [] => ⟨[], offset⟩
  | c :: rest =>
    match skip with
    | skip + 1 => skipTriviaFrom markup skip (offset + 1) rest
    | 0 =>
      if isBlank c then skipTriviaFrom markup 0 (offset + 1) rest
      else
        match commentAt? markup (c :: rest) with
        | some (_, n) => skipTriviaFrom markup (n - 1) (offset + 1) rest
        | none => ⟨c :: rest, offset⟩

def skipTrivia (markup : Bool) (c : Cursor) : Cursor :=
  skipTriviaFrom markup 0 c.offset c.rest

def commentsFrom (markup : Bool) (skip offset : Nat) : List Char → List Tree
  | [] => []
  | c :: rest =>
    match skip with
    | skip + 1 => commentsFrom markup skip (offset + 1) rest
    | 0 =>
      if isBlank c then commentsFrom markup 0 (offset + 1) rest
      else
        match commentAt? markup (c :: rest) with
        | some (kind, n) =>
          .node ⟨kind, .plain⟩ ⟨offset, offset + n⟩ []
            :: commentsFrom markup (n - 1) (offset + 1) rest
        | none => []

def trivia (markup : Bool) (c : Cursor) : List Tree × Cursor :=
  (commentsFrom markup 0 c.offset c.rest, skipTrivia markup c)

def isHexDigit (c : Char) : Bool :=
  c.isDigit || ('a' ≤ c && c ≤ 'f') || ('A' ≤ c && c ≤ 'F')

def isWordChar (c : Char) : Bool :=
  if c.toNat < 128 then
    c.isAlphanum || c = '_' || c = '$' || c.toNat = 127
  else !isBlank c

/--
The length of an escaped character of a word: a backslash, `u`, and four hexadecimal digits or
any number of them in braces.
-/
def wordEscapeLength? : List Char → Option Nat
  | '\\' :: 'u' :: '{' :: rest =>
    let n := (rest.takeWhile isHexDigit).length
    if n > 0 && (rest.drop n).head? = some '}' then some (n + 4) else none
  | '\\' :: 'u' :: rest =>
    if ((rest.take 4).filter isHexDigit).length = 4 then some 6 else none
  | _ => none

def wordRun (skip : Nat) : List Char → Nat
  | [] => 0
  | c :: rest =>
    match skip with
    | skip + 1 => wordRun skip rest + 1
    | 0 =>
      if isWordChar c then wordRun 0 rest + 1
      else
        match wordEscapeLength? (c :: rest) with
        | some n => wordRun (n - 1) rest + 1
        | none => 0

/--
The length of the word at hand. A word does not start with a digit.
-/
def wordLength (cs : List Char) : Nat :=
  match cs with
  | c :: _ => if c.isDigit then 0 else wordRun 0 cs
  | [] => 0

def word? (c : Cursor) : Option (String × Cursor) :=
  let n := wordLength c.rest
  if n = 0 then none else some (String.ofList (c.rest.take n), c.advance n)

def punctuator : List Char → String
  | '{' :: _ => "\x7b"
  | '}' :: _ => "\x7d"
  | '(' :: _ => "("
  | ')' :: _ => ")"
  | '[' :: _ => "["
  | ']' :: _ => "]"
  | ';' :: _ => ";"
  | ',' :: _ => ","
  | ':' :: _ => ":"
  | '~' :: _ => "~"
  | '@' :: _ => "@"
  | '`' :: _ => "`"
  | '.' :: '.' :: '.' :: _ => "..."
  | '.' :: _ => "."
  | '?' :: '?' :: '=' :: _ => "??="
  | '?' :: '?' :: _ => "??"
  -- In front of a digit the point belongs to a number.
  | '?' :: '.' :: c :: _ => if c.isDigit then "?" else "?."
  | '?' :: '.' :: _ => "?."
  | '?' :: _ => "?"
  | '=' :: '=' :: '=' :: _ => "==="
  | '=' :: '=' :: _ => "=="
  | '=' :: '>' :: _ => "=>"
  | '=' :: _ => "="
  | '!' :: '=' :: '=' :: _ => "!=="
  | '!' :: '=' :: _ => "!="
  | '!' :: _ => "!"
  | '+' :: '+' :: _ => "++"
  | '+' :: '=' :: _ => "+="
  | '+' :: _ => "+"
  | '-' :: '-' :: _ => "--"
  | '-' :: '=' :: _ => "-="
  | '-' :: _ => "-"
  | '*' :: '*' :: '=' :: _ => "**="
  | '*' :: '*' :: _ => "**"
  | '*' :: '=' :: _ => "*="
  | '*' :: _ => "*"
  | '/' :: '=' :: _ => "/="
  | '/' :: _ => "/"
  | '%' :: '=' :: _ => "%="
  | '%' :: _ => "%"
  | '<' :: '<' :: '=' :: _ => "<<="
  | '<' :: '<' :: _ => "<<"
  | '<' :: '=' :: _ => "<="
  | '<' :: _ => "<"
  | '>' :: '>' :: '>' :: '=' :: _ => ">>>="
  | '>' :: '>' :: '>' :: _ => ">>>"
  | '>' :: '>' :: '=' :: _ => ">>="
  | '>' :: '>' :: _ => ">>"
  | '>' :: '=' :: _ => ">="
  | '>' :: _ => ">"
  | '&' :: '&' :: '=' :: _ => "&&="
  | '&' :: '&' :: _ => "&&"
  | '&' :: '=' :: _ => "&="
  | '&' :: _ => "&"
  | '|' :: '|' :: '=' :: _ => "||="
  | '|' :: '|' :: _ => "||"
  | '|' :: '=' :: _ => "|="
  | '|' :: _ => "|"
  | '^' :: '=' :: _ => "^="
  | '^' :: _ => "^"
  | _ => ""

def digitTail (digit : Char → Bool) : List Char → Nat
  | [] => 0
  | c :: rest =>
    if digit c then digitTail digit rest + 1
    else
      match c, rest with
      | '_', d :: _ => if digit d then digitTail digit rest + 1 else 0
      | _, _ => 0

/--
The length of a run of digits with single underscores between them, given which digits count. A
run does not start with an underscore.
-/
def digitRun (digit : Char → Bool) (cs : List Char) : Nat :=
  match cs with
  | c :: _ => if digit c then digitTail digit cs else 0
  | [] => 0

def exponentLength : List Char → Nat
  | e :: rest =>
    if e = 'e' || e = 'E' then
      match rest with
      | s :: more =>
        if s = '+' || s = '-' then
          let n := digitRun Char.isDigit more
          if n = 0 then 0 else n + 2
        else
          let n := digitRun Char.isDigit rest
          if n = 0 then 0 else n + 1
      | [] => 0
    else 0
  | [] => 0

def basedLength (digit : Char → Bool) (rest : List Char) : Nat :=
  let n := digitRun digit rest
  if n = 0 then 0
  else if (rest.drop n).head? = some 'n' then n + 3
  else n + 2

/--
Whether digits may stand in front of a point or an exponent: behind a zero only if a digit other
than zero comes next.
-/
def isWholePart : List Char → Bool
  | ['0'] => true
  | '0' :: c :: _ => '1' ≤ c && c ≤ '9'
  | _ => true

def decimalLength (cs : List Char) : Nat :=
  let whole := digitRun Char.isDigit cs
  let rest := cs.drop whole
  let isWhole := isWholePart (cs.take whole)
  match rest with
  | '.' :: more =>
    let fraction := digitRun Char.isDigit more
    if whole = 0 && fraction = 0 then 0
    else if isWhole then whole + 1 + fraction + exponentLength (more.drop fraction)
    else whole
  | 'n' :: _ => if whole = 0 then 0 else whole + 1
  | _ => if whole = 0 then 0 else if isWhole then whole + exponentLength rest else whole

def numberLength (cs : List Char) : Nat :=
  match cs with
  | '0' :: x :: rest =>
    if x = 'x' || x = 'X' then basedLength isHexDigit rest
    else if x = 'b' || x = 'B' then basedLength (fun c => c = '0' || c = '1') rest
    else if x = 'o' || x = 'O' then basedLength (fun c => '0' ≤ c && c ≤ '7') rest
    else decimalLength cs
  | _ => decimalLength cs

def escapeLength? : List Char → Option Nat
  | '\\' :: 'x' :: a :: b :: _ => if isHexDigit a && isHexDigit b then some 4 else none
  | '\\' :: 'x' :: _ => none
  | '\\' :: 'u' :: '{' :: rest =>
    let n := (rest.takeWhile isHexDigit).length
    if n > 0 && (rest.drop n).head? = some '}' then some (n + 4) else none
  | '\\' :: 'u' :: rest =>
    if ((rest.take 4).filter isHexDigit).length = 4 then some 6 else none
  -- An octal escape takes up to three digits; any other character stands for itself.
  | '\\' :: c :: rest =>
    if '0' ≤ c && c ≤ '7' then
      some (2 + ((rest.take 2).takeWhile (fun d => '0' ≤ d && d ≤ '7')).length)
    else if isNull c then none
    else if (c = '\r' || c = '?') && (rest.head?.map (fun d => d != '\r' && isLineEnd d)).getD false
    then some 3
    else some 2
  | _ => none

/--
The length of the rest of a string up to and with its closing quote; `skip` characters are
already accounted for by an escape sequence.
-/
def stringRest (quote : Char) (skip : Nat) : List Char → Option Nat
  | [] => none
  | c :: rest =>
    match skip with
    | skip + 1 => (stringRest quote skip rest).map (· + 1)
    | 0 =>
      if c = quote then some 1
      else if c = '\\' then
        match escapeLength? (c :: rest) with
        | some n => (stringRest quote (n - 1) rest).map (· + 1)
        | none => none
      else if c = '\n' || c = '\r' || isNull c then none
      else (stringRest quote 0 rest).map (· + 1)

def stringLength? : List Char → Option Nat
  | '"' :: rest => (stringRest '"' 0 rest).map (· + 1)
  | '\'' :: rest => (stringRest '\'' 0 rest).map (· + 1)
  | _ => none

/--
The length of the rest of a regular expression up to and with its closing slash. Inside a class
a slash is an ordinary character.
-/
def regexRest (inClass escaped : Bool) : List Char → Option Nat
  | [] => none
  | c :: rest =>
    if c = '\n' || isNull c then none
    else if escaped then (regexRest inClass false rest).map (· + 1)
    else if c = '\\' then (regexRest inClass true rest).map (· + 1)
    else if inClass then (regexRest (c != ']') false rest).map (· + 1)
    else if c = '[' then (regexRest true false rest).map (· + 1)
    else if c = '/' then some 1
    else (regexRest false false rest).map (· + 1)

def regexLength? : List Char → Option Nat
  | '/' :: '/' :: _ => none
  | '/' :: rest =>
    (regexRest false false rest).map fun n =>
      n + 1 + ((rest.drop n).takeWhile (fun c => 'a' ≤ c && c ≤ 'z')).length
  | _ => none

def templateRun : List Char → Nat
  | [] => 0
  | '`' :: _ => 0
  | '\\' :: _ => 0
  | '$' :: '{' :: _ => 0
  | c :: rest => if isNull c then 0 else templateRun rest + 1

end ComponentDoc.Script
