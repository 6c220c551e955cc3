import ComponentDoc.Script.Expr
import ComponentDoc.Script.Lexeme

/-!
Literals as they are written in a script: objects with comments in front of their entries, arrays,
identifiers, strings and booleans. `Literal.print` writes one without blanks, `Literal.toExpr` says
which expression it stands for, and `Literal.Valid` which texts may occur in it.
-/

namespace ComponentDoc.Script

inductive Key where
  | bare (name : String)
  | quoted (text : String)

structure LiteralEntry (ε : Type) where
  comments : List Comment
  key : Key
  value : ε

inductive Literal where
  | object (entries : List (LiteralEntry Literal))
  | array (items : List Literal)
  | identifier (name : String)
  | string (quote : Char) (text : String)
  | boolean (value : Bool)

def Comment.print (comment : Comment) : List Char :=
  if comment.block then '/' :: '*' :: (comment.text.toList ++ ['*', '/'])
  else '/' :: '/' :: (comment.text.toList ++ ['\n'])

def printComments (comments : List Comment) : List Char :=
  comments.flatMap Comment.print

def printString (quote : Char) (text : String) : List Char :=
  quote :: (text.toList ++ [quote])

def Key.print : Key → List Char
  | .bare name => name.toList
  | .quoted text => printString '\'' text

def Key.text : Key → String
  | .bare name => name
  | .quoted text => text

def printBoolean (value : Bool) : List Char :=
  if value then ['t', 'r', 'u', 'e'] else ['f', 'a', 'l', 's', 'e']

def printMore (parts : List (List Char)) : List Char :=
  parts.flatMap fun part => ',' :: part

/--
Printed parts with commas between them.
-/
def printSeparated : List (List Char) → List Char
  | [] => []
  | part :: parts => part ++ printMore parts

def printBracketed (opening closing : Char) (parts : List (List Char)) : List Char :=
  opening :: (printSeparated parts ++ [closing])

mutual

def Literal.print : Literal → List Char
  | .object entries => printBracketed '{' '}' (printEntries entries)
  | .array items => printBracketed '[' ']' (printItems items)
  | .identifier name => name.toList
  | .string quote text => printString quote text
  | .boolean value => printBoolean value

def printEntries : List (LiteralEntry Literal) → List (List Char)
  | [] => []
  | ⟨comments, key, value⟩ :: entries =>
    (printComments comments ++ (key.print ++ ':' :: value.print)) :: printEntries entries

def printItems : List Literal → List (List Char)
  | [] => []
  | item :: items => item.print :: printItems items

end

def printEntry (entry : LiteralEntry Literal) : List Char :=
  printComments entry.comments ++ (entry.key.print ++ ':' :: entry.value.print)

/--
A script whose default export is a literal.
-/
def printModule (e : Literal) : List Char :=
  "export default ".toList ++ e.print

mutual

def Literal.toExpr : Literal → Expr
  | .object entries => .object (toEntries entries)
  | .array items => .array (toItems items)
  | .identifier name => .identifier name
  | .string _ text => .string text
  | .boolean value => .boolean value

def toEntries : List (LiteralEntry Literal) → List (Entry Expr)
  | [] => []
  | ⟨comments, key, value⟩ :: entries =>
    ⟨key.text, value.toExpr, String.ofList value.print, comments⟩ :: toEntries entries

def toItems : List Literal → List Expr
  | [] => []
  | item :: items => item.toExpr :: toItems items

end

/--
The reserved and the contextual keywords of the dialects.
-/
def keywords : List String :=
  ["abstract", "accessor", "any", "as", "assert", "asserts", "async", "await", "bigint", "boolean",
    "break", "case", "catch", "class", "const", "constructor", "continue", "debugger", "declare",
    "default", "delete", "do", "else", "enum", "export", "extends", "false", "finally", "for",
    "from", "function", "get", "global", "if", "implements", "import", "in", "infer", "instanceof",
    "interface", "intrinsic", "is", "keyof", "let", "module", "namespace", "never", "new", "null",
    "number", "object", "of", "out", "override", "package", "private", "protected", "public",
    "readonly", "require", "return", "satisfies", "set", "static", "string", "super", "switch",
    "symbol", "this", "throw", "true", "try", "type", "typeof", "undefined", "unique", "unknown",
    "using", "var", "void", "while", "with", "yield"]

def isNameStart (c : Char) : Bool :=
  c.isAlpha || c = '_' || c = '$'

def isNameChar (c : Char) : Bool :=
  isNameStart c || c.isDigit

structure ValidName (name : String) : Prop where
  head : ∃ c, name.toList.head? = some c ∧ isNameStart c = true
  chars : ∀ c ∈ name.toList, isNameChar c = true
  free : name ∉ keywords

/--
Whether a character stands for itself in a string.
-/
def isStringChar (c : Char) : Bool :=
  !(c = '"' || c = '\'' || c = '\\' || c = '<' || c = '>' || c.toNat < 0x20
    || c.toNat = 0x2028 || c.toNat = 0x2029)

def ValidString (text : String) : Prop :=
  ∀ c ∈ text.toList, isStringChar c = true

instance (text : String) : Decidable (ValidString text) :=
  List.decidableBAll (fun c => isStringChar c = true) text.toList

def Key.Valid : Key → Prop
  | .bare name => ValidName name
  | .quoted text => ValidString text

structure Comment.Valid (comment : Comment) : Prop where
  noAngle : ∀ c ∈ comment.text.toList, c ≠ '<' ∧ c ≠ '>'
  noNull : ∀ c ∈ comment.text.toList, isNull c = false
  line : comment.block = false → ∀ c ∈ comment.text.toList, isLineEnd c = false
  block : comment.block = true → ¬ ['*', '/'] <:+: comment.text.toList

mutual

def Literal.Valid : Literal → Prop
  | .object entries => ValidEntries entries
  | .array items => ValidItems items
  | .identifier name => ValidName name
  | .string quote text => (quote = '"' ∨ quote = '\'') ∧ ValidString text
  | .boolean _ => True

def ValidEntries : List (LiteralEntry Literal) → Prop
  | [] => True
  | ⟨comments, key, value⟩ :: entries =>
    (∀ comment ∈ comments, comment.Valid) ∧ key.Valid ∧ value.Valid ∧ ValidEntries entries

def ValidItems : List Literal → Prop
  | [] => True
  | item :: items => item.Valid ∧ ValidItems items

end

section Parts

theorem Literal.print_array (items : List Literal) :
    (Literal.array items).print = printBracketed '[' ']' (items.map Literal.print) := by
  have hitems : printItems items = items.map Literal.print := by
    induction items with
    | nil => rfl
    | cons e items ih => rw [printItems, ih, List.map_cons]
  rw [Literal.print, hitems]

theorem Literal.print_object (entries : List (LiteralEntry Literal)) :
    (Literal.object entries).print = printBracketed '{' '}' (entries.map printEntry) := by
  have hentries : printEntries entries = entries.map printEntry := by
    induction entries with
    | nil => rfl
    | cons entry entries ih =>
      rw [printEntries, ih, List.map_cons]
      rfl
  rw [Literal.print, hentries]

theorem printMore_cons (part : List Char) (parts : List (List Char)) (rest : List Char) :
    printMore (part :: parts) ++ rest = ',' :: (part ++ (printMore parts ++ rest)) := by
  simp [printMore]

theorem length_printMore_cons (part : List Char) (parts : List (List Char)) :
    (printMore (part :: parts)).length = part.length + (printMore parts).length + 1 := by
  simp only [printMore, List.flatMap_cons, List.length_append, List.length_cons]
  omega

/--
What stands behind a printed part: a comma and the next part, or the closing bracket.
-/
theorem exists_printMore_cons (parts : List (List Char)) (close : Char) (rest : List Char) :
    ∃ x tail, printMore parts ++ close :: rest = x :: tail ∧ (x = ',' ∨ x = close) := by
  cases parts with
  | nil => exact ⟨close, rest, rfl, Or.inr rfl⟩
  | cons part parts => exact ⟨',', _, rfl, Or.inl rfl⟩

theorem length_lt_printMore {part : List Char} {parts : List (List Char)} (h : part ∈ parts) :
    part.length < (printMore parts).length := by
  induction parts with
  | nil => cases h
  | cons first parts ih =>
    rw [length_printMore_cons]
    cases h with
    | head => omega
    | tail _ h =>
      have hmore := ih h
      omega

theorem length_le_printSeparated {part : List Char} {parts : List (List Char)}
    (h : part ∈ parts) : part.length ≤ (printSeparated parts).length := by
  cases parts with
  | nil => cases h
  | cons first parts =>
    rw [printSeparated, List.length_append]
    cases h with
    | head => exact Nat.le_add_right _ _
    | tail _ h =>
      have hmore := length_lt_printMore h
      omega

theorem printBracketed_append (opening closing : Char) (parts : List (List Char))
    (rest : List Char) :
    printBracketed opening closing parts ++ rest =
      opening :: (printSeparated parts ++ closing :: rest) := by
  simp [printBracketed]

theorem length_printBracketed (opening closing : Char) (parts : List (List Char)) :
    (printBracketed opening closing parts).length = (printSeparated parts).length + 2 := by
  simp [printBracketed]

theorem length_item_lt {items : List Literal} {e : Literal} (h : e ∈ items) :
    e.print.length < (Literal.array items).print.length := by
  have hpart := length_le_printSeparated (List.mem_map_of_mem (f := Literal.print) h)
  rw [Literal.print_array, length_printBracketed]
  omega

theorem length_value_lt {entries : List (LiteralEntry Literal)} {entry : LiteralEntry Literal}
    (h : entry ∈ entries) :
    entry.value.print.length < (Literal.object entries).print.length := by
  have hpart := length_le_printSeparated (List.mem_map_of_mem (f := printEntry) h)
  rw [printEntry, List.length_append, List.length_append, List.length_cons] at hpart
  rw [Literal.print_object, length_printBracketed]
  omega

end Parts

theorem ValidItems.of_mem {items : List Literal} (h : ValidItems items) :
    ∀ e ∈ items, e.Valid := by
  induction items with
  | nil =>
    intro e he
    cases he
  | cons f items ih =>
    rw [ValidItems] at h
    intro e he
    cases he with
    | head => exact h.1
    | tail _ he => exact ih h.2 e he

theorem ValidEntries.of_mem {entries : List (LiteralEntry Literal)} (h : ValidEntries entries) :
    ∀ entry ∈ entries,
      (∀ comment ∈ entry.comments, comment.Valid) ∧ entry.key.Valid ∧ entry.value.Valid := by
  induction entries with
  | nil =>
    intro entry hentry
    cases hentry
  | cons other entries ih =>
    rw [ValidEntries] at h
    intro entry hentry
    cases hentry with
    | head => exact ⟨h.1, h.2.1, h.2.2.1⟩
    | tail _ hentry => exact ih h.2.2.2 entry hentry

end ComponentDoc.Script
