/-!
A place in a source text: what is still to be read and how much was read before it.
-/

namespace ComponentDoc

structure Cursor where
  rest : List Char
  offset : Nat
deriving Repr, DecidableEq, Inhabited

namespace Cursor

def ofSource (source : List Char) : Cursor :=
  ⟨source, 0⟩

/--
Move a cursor over `n` characters, or to the end if there are fewer.
-/
def advance (c : Cursor) : Nat → Cursor
  | 0 => c
  | n + 1 =>
    match c.rest with
    | [] => c
    | _ :: rest => advance ⟨rest, c.offset + 1⟩ n

def skipWhile (p : Char → Bool) (c : Cursor) : Cursor :=
  c.advance (c.rest.takeWhile p).length

def peek? (c : Cursor) : Option Char :=
  c.rest.head?

def atEnd (c : Cursor) : Bool :=
  c.rest.isEmpty

end Cursor

end ComponentDoc
