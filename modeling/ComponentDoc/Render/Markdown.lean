import ComponentDoc.Text.Blank
import ComponentDoc.Record
import ComponentDoc.Columns

/-!
Documents in Markdown: the component name as a heading, then a heading and a table for every
category that has records and columns, in the order props, slots, data, methods.
-/

namespace ComponentDoc.Markdown

open Text

def escapeBars : List Char → List Char
  | [] => []
  | '|' :: rest => '\\' :: '|' :: escapeBars rest
  | c :: rest => c :: escapeBars rest

/--
Turn every line break, with the carriage return before it, into a break of the cell.
-/
def breakLines : List Char → List Char
  | [] => []
  | '\r' :: '\n' :: rest => '<' :: 'b' :: 'r' :: '>' :: breakLines rest
  | '\n' :: rest => '<' :: 'b' :: 'r' :: '>' :: breakLines rest
  | c :: rest => c :: breakLines rest

/--
The text of a cell: bars escaped, blanks trimmed, line breaks turned into breaks of the cell.
-/
def escapeCell (text : String) : String :=
  String.ofList (breakLines (trimChars (escapeBars text.toList)))

def row (cells : List String) : String :=
  "| " ++ " | ".intercalate cells ++ " |"

def cells {ρ : Type} [Columnar ρ] (columns : Columns) (record : ρ) : List String :=
  columns.keys.map fun key => escapeCell ((Columnar.column record key).getD "")

def tableLines {ρ : Type} [Columnar ρ] (columns : Columns) (records : List ρ) : List String :=
  row (columns.values.map escapeCell)
    :: row (columns.values.map fun _ => "---")
    :: records.map fun record => row (cells columns record)

def tableSection {ρ : Type} [Columnar ρ] (title : String) (columns : Columns)
    (records : Option (OrderedMap String ρ)) : List String :=
  match records with
  | none => []
  | some records =>
    if records.isEmpty || columns.isEmpty then
      []
    else
      [s!"## {title}\n\n" ++ "\n".intercalate (tableLines columns records.values) ++ "\n"]

def sections (info : ComponentInfo) (config : ColumnConfig) : List String :=
  (info.name.map fun name => s!"# {name}\n").toList
    ++ tableSection "Props" config.props info.props
    ++ tableSection "Slots" config.slots info.slots
    ++ tableSection "Data" config.data info.data
    ++ tableSection "Methods" config.methods info.methods

def render (info : ComponentInfo) (config : ColumnConfig) : String :=
  "\n".intercalate (sections info config)

end ComponentDoc.Markdown
