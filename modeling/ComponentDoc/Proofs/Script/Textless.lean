import ComponentDoc.Script.Expr

/-!
Expressions without the source text that they keep: the text of an entry's value, and that of an
expression of which only the kind is known. Keys, comments, names and literals stay.
-/

namespace ComponentDoc.Script

mutual

def Expr.textless : Expr → Expr
  | .object entries => .object (textlessEntries entries)
  | .array items => .array (textlessItems items)
  | .identifier name => .identifier name
  | .string value => .string value
  | .boolean value => .boolean value
  | .function body => .function (textlessBody body)
  | .call callee args => .call callee.textless (textlessItems args)
  | .other kind _ => .other kind ""

def textlessItems : List Expr → List Expr
  | [] => []
  | item :: items => item.textless :: textlessItems items

def textlessValue : Option Expr → Option Expr
  | none => none
  | some value => some value.textless

def textlessEntry : Entry Expr → Entry Expr
  | ⟨key, value, _, comments⟩ => ⟨key, value.textless, "", comments⟩

def textlessEntries : List (Entry Expr) → List (Entry Expr)
  | [] => []
  | entry :: entries => textlessEntry entry :: textlessEntries entries

def textlessBody : FunctionBody Expr → FunctionBody Expr
  | .block statements => .block (textlessStatements statements)
  | .expression value => .expression value.textless

def textlessStatement : Statement Expr → Statement Expr
  | .return value => .return (textlessValue value)
  | .other => .other

def textlessStatements : List (Statement Expr) → List (Statement Expr)
  | [] => []
  | statement :: statements => textlessStatement statement :: textlessStatements statements

end

theorem textlessValue_eq_map (value : Option Expr) :
    textlessValue value = value.map Expr.textless := by
  cases value with
  | none => rw [textlessValue, Option.map_none]
  | some value => rw [textlessValue, Option.map_some]

section Entries

variable (entry : Entry Expr)

@[simp]
theorem key_textlessEntry : (textlessEntry entry).key = entry.key := by
  rw [textlessEntry]

@[simp]
theorem value_textlessEntry : (textlessEntry entry).value = entry.value.textless := by
  rw [textlessEntry]

@[simp]
theorem text_textlessEntry : (textlessEntry entry).text = "" := by
  rw [textlessEntry]

@[simp]
theorem comments_textlessEntry : (textlessEntry entry).comments = entry.comments := by
  rw [textlessEntry]

theorem textlessEntries_eq_map (entries : List (Entry Expr)) :
    textlessEntries entries = entries.map textlessEntry := by
  induction entries with
  | nil => rfl
  | cons entry entries ih => rw [textlessEntries, ih, List.map_cons]

end Entries

end ComponentDoc.Script
