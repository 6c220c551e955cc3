import ComponentDoc.Proofs.Script.RoundTrip
import ComponentDoc.Proofs.Script.StaysStatements

/-!
The names of the entries in an expression are those in the syntax tree it comes from: what holds
of all names in a tree holds of all names in the expression it is lowered to.
-/

namespace ComponentDoc.Script

variable {source : List Char} {P Q : String → Prop}

def Statement.values {ε : Type} : Statement ε → List ε
  | .return value => value.toList
  | .other => []

/--
The values that a function may return at top level.
-/
def FunctionBody.values {ε : Type} : FunctionBody ε → List ε
  | .expression value => [value]
  | .block statements => statements.flatMap Statement.values

/--
Whether the names of all entries in an expression satisfy a property.
-/
inductive Expr.AllNames (P : String → Prop) : Expr → Prop where
  | object (entries : List (Entry Expr)) (names : ∀ entry ∈ entries, P entry.key)
    (values : ∀ entry ∈ entries, AllNames P entry.value) : AllNames P (.object entries)
  | array (items : List Expr) (parts : ∀ item ∈ items, AllNames P item) :
    AllNames P (.array items)
  | identifier (name : String) : AllNames P (.identifier name)
  | string (value : String) : AllNames P (.string value)
  | boolean (value : Bool) : AllNames P (.boolean value)
  | function (body : FunctionBody Expr) (values : ∀ value ∈ body.values, AllNames P value) :
    AllNames P (.function body)
  | call (callee : Expr) (args : List Expr) (called : AllNames P callee)
    (parts : ∀ arg ∈ args, AllNames P arg) : AllNames P (.call callee args)
  | other (kind text : String) : AllNames P (.other kind text)

theorem Expr.AllNames.mono {e : Expr} (h : e.AllNames P) (himp : ∀ name, P name → Q name) :
    e.AllNames Q := by
  induction h with
  | object entries names values ih =>
    exact .object entries (fun entry hentry => himp _ (names entry hentry)) ih
  | array items parts ih => exact .array items ih
  | identifier name => exact .identifier name
  | string value => exact .string value
  | boolean value => exact .boolean value
  | function body values ih => exact .function body ih
  | call callee args called parts ihCallee ih => exact .call callee args ihCallee ih
  | other kind text => exact .other kind text

/--
Whether all names in a tree satisfy a property.
-/
def Tree.AllNames (P : String → Prop) (source : List Char) (t : Tree) : Prop :=
  ∀ u ∈ SyntaxTree.preorder t,
    (Tree.hasRole u .key = true → P (keyText source u)) ∧
      (Tree.kind? u = some .shorthand → P (u.text source))

namespace Tree

variable {t : Tree} {label : Label} {span : Span} {parts : List Tree} {key : String}

theorem AllNames.part (h : AllNames P source (.node label span parts)) :
    ∀ part ∈ parts, AllNames P source part := by
  intro part hpart u hu
  exact h u (SyntaxTree.mem_preorder_node.2 (.inr ⟨part, hpart, hu⟩))

theorem AllNames.self (h : AllNames P source t) :
    (t.hasRole .key = true → P (keyText source t)) ∧
      (t.kind? = some .shorthand → P (t.text source)) :=
  h t (SyntaxTree.self_mem_preorder t)

theorem AllNames.keyOf? (h : ∀ part ∈ parts, AllNames P source part)
    (hkey : keyOf? source parts = some key) : P key := by
  unfold Script.keyOf? at hkey
  obtain ⟨t, ht, rfl⟩ := Option.map_eq_some_iff.1 hkey
  have hrole : t.hasRole .key = true := @List.find?_some _ (fun u : Tree => u.hasRole .key) _ _ ht
  exact (h t (List.mem_of_find?_eq_some ht)).self.1 hrole

end Tree

theorem allNames_getD {found : Option Expr} {kind text : String}
    (h : ∀ e, found = some e → e.AllNames P) : (found.getD (.other kind text)).AllNames P := by
  cases found with
  | none => exact .other kind text
  | some e => exact h e rfl

mutual

theorem allNames_lowerExpr (t : Tree) (h : t.AllNames P source) :
    (lowerExpr source t).AllNames P := by
  cases t with
  | error => exact .other _ _
  | missing => exact .other _ _
  | node label span parts =>
    have hparts := h.part
    unfold lowerExpr
    split
    . have hentries := allNames_lowerEntries [] parts hparts
      exact .object _ (fun entry hentry => (hentries entry hentry).1)
        (fun entry hentry => (hentries entry hentry).2)
    . exact .array _ (allNames_lowerValues parts hparts)
    . exact .identifier _
    . exact .string _
    . split
      . exact .string _
      . exact .other _ _
    . exact .boolean _
    . exact .boolean _
    . exact .function _ (allNames_lowerFunction parts hparts)
    . exact .function _ (allNames_lowerFunction parts hparts)
    . exact .function _ (allNames_lowerFunction parts hparts)
    . exact .function _ (allNames_lowerFunction parts hparts)
    . exact .function _ (allNames_lowerFunction parts hparts)
    . exact .call _ _ (allNames_getD (allNames_lowerRole .callee parts hparts))
        (allNames_lowerArguments parts hparts)
    . exact allNames_getD (allNames_lowerFirst parts hparts)
    . exact allNames_getD (allNames_lowerFirst parts hparts)
    . exact allNames_getD (allNames_lowerFirst parts hparts)
    . exact allNames_getD (allNames_lowerFirst parts hparts)
    . exact .other _ _

theorem allNames_lowerValues (ts : List Tree) (h : ∀ t ∈ ts, t.AllNames P source) :
    ∀ e ∈ lowerValues source ts, e.AllNames P := by
  cases ts with
  | nil => exact List.forall_mem_nil _
  | cons t ts =>
    have hrest := allNames_lowerValues ts (List.forall_mem_cons.1 h).2
    unfold lowerValues
    split
    . exact hrest
    . exact List.forall_mem_cons.2 ⟨allNames_lowerExpr t (h t List.mem_cons_self), hrest⟩

theorem allNames_lowerFirst (ts : List Tree) (h : ∀ t ∈ ts, t.AllNames P source) :
    ∀ e, lowerFirst source ts = some e → e.AllNames P := by
  cases ts with
  | nil => nofun
  | cons t ts =>
    unfold lowerFirst
    split
    . exact allNames_lowerFirst ts (List.forall_mem_cons.1 h).2
    . intro e he
      cases he
      exact allNames_lowerExpr t (h t List.mem_cons_self)

theorem allNames_lowerRole (role : Role) (ts : List Tree) (h : ∀ t ∈ ts, t.AllNames P source) :
    ∀ e, lowerRole source role ts = some e → e.AllNames P := by
  cases ts with
  | nil => nofun
  | cons t ts =>
    unfold lowerRole
    split
    . intro e he
      cases he
      exact allNames_lowerExpr t (h t List.mem_cons_self)
    . exact allNames_lowerRole role ts (List.forall_mem_cons.1 h).2

theorem allNames_lowerArguments (ts : List Tree) (h : ∀ t ∈ ts, t.AllNames P source) :
    ∀ e ∈ lowerArguments source ts, e.AllNames P := by
  cases ts with
  | nil => exact List.forall_mem_nil _
  | cons t ts =>
    have hrest := allNames_lowerArguments ts (List.forall_mem_cons.1 h).2
    cases t with
    | error => exact hrest
    | missing => exact hrest
    | node label span parts =>
      unfold lowerArguments
      split
      . exact allNames_lowerValues parts (h _ List.mem_cons_self).part
      . exact hrest

theorem allNames_lowerFunction (ts : List Tree) (h : ∀ t ∈ ts, t.AllNames P source) :
    ∀ value ∈ (lowerFunction source ts).values, value.AllNames P := by
  cases ts with
  | nil => exact List.forall_mem_nil _
  | cons t ts =>
    have hrest := allNames_lowerFunction ts (List.forall_mem_cons.1 h).2
    cases t with
    | error => exact hrest
    | missing => exact hrest
    | node label span parts =>
      have hself := h _ List.mem_cons_self
      unfold lowerFunction
      split
      . split
        . exact allNames_lowerStatements parts hself.part
        . exact List.forall_mem_singleton.2 (allNames_lowerExpr (.node label span parts) hself)
      . exact hrest

theorem allNames_lowerStatements (ts : List Tree) (h : ∀ t ∈ ts, t.AllNames P source) :
    ∀ value ∈ FunctionBody.values (.block (lowerStatements source ts)), value.AllNames P := by
  cases ts with
  | nil => exact List.forall_mem_nil _
  | cons t ts =>
    have hrest := allNames_lowerStatements ts (List.forall_mem_cons.1 h).2
    cases t with
    | error => exact hrest
    | missing => exact hrest
    | node label span parts =>
      have hfirst := allNames_lowerFirst parts (h _ List.mem_cons_self).part
      unfold lowerStatements
      split
      . exact hrest
      . split
        . refine List.forall_mem_append.2 ⟨?_, hrest⟩
          intro value hvalue
          exact hfirst value (Option.mem_toList.1 hvalue)
        . exact hrest

theorem allNames_lowerEntries (pending : List Comment) (ts : List Tree)
    (h : ∀ t ∈ ts, t.AllNames P source) :
    ∀ entry ∈ lowerEntries source pending ts, P entry.key ∧ entry.value.AllNames P := by
  cases ts with
  | nil => exact List.forall_mem_nil _
  | cons t ts =>
    have hrest pending :=
      allNames_lowerEntries pending ts (List.forall_mem_cons.1 h).2
    cases t with
    | error => exact hrest pending
    | missing => exact hrest pending
    | node label span parts =>
      have hself := h _ List.mem_cons_self
      unfold lowerEntries
      split
      . exact hrest _
      . split
        . next key value hkey hvalue =>
          refine List.forall_mem_cons.2 ⟨⟨Tree.AllNames.keyOf? hself.part hkey, ?_⟩, hrest _⟩
          exact allNames_lowerRole .value parts hself.part value hvalue
        . exact hrest _
      . split
        . next key hkey =>
          refine List.forall_mem_cons.2 ⟨⟨Tree.AllNames.keyOf? hself.part hkey, ?_⟩, hrest _⟩
          exact .function _ (allNames_lowerFunction parts hself.part)
        . exact hrest _
      . next hkind =>
        refine List.forall_mem_cons.2 ⟨⟨hself.self.2 ?_, .identifier _⟩, hrest _⟩
        exact congrArg some hkind
      . exact hrest _
      . exact hrest _

end

theorem allNames_defaultExportOf (ts : List Tree) (h : ∀ t ∈ ts, t.AllNames P source) :
    ∀ e, defaultExportOf source ts = some e → e.AllNames P := by
  induction ts with
  | nil => nofun
  | cons t ts ih =>
    unfold defaultExportOf
    split
    . apply allNames_lowerRole
      have hself := h t List.mem_cons_self
      cases t with
      | node label span parts => exact hself.part
      | error span parts => contradiction
      | missing label position => exact List.forall_mem_nil _
    . exact ih (List.forall_mem_cons.1 h).2

section EmptyKeys

variable {dialect : Dialect} {text : String} {t : Tree}

/--
Whether a tree is a key written as a string of no characters.
-/
def Tree.IsEmptyKey (source : List Char) (t : Tree) : Prop :=
  t.hasRole .key = true ∧ t.kind? = some .string ∧
    ∃ quote, t.span.slice source = [quote, quote]

/--
Whether some entry of an object in a script has a key written as a string of no characters.
-/
def HasEmptyKey (dialect : Dialect) (text : String) : Prop :=
  ∃ t ∈ (parseProgram dialect text.toList).preorder, Tree.IsEmptyKey text.toList t

theorem exists_quotes_of_unquote {cs : List Char} (hne : cs ≠ []) (h : unquote cs = []) :
    ∃ quote, cs = [quote, quote] := by
  cases cs with
  | nil => exact absurd rfl hne
  | cons quote rest =>
    rw [unquote] at h
    split at h
    . next hquoted =>
      rw [Bool.and_eq_true, decide_eq_true_iff] at hquoted
      obtain ⟨front, rfl⟩ := List.getLast?_eq_some_iff.1 hquoted.2
      rw [List.dropLast_concat] at h
      rw [h]
      exact ⟨quote, rfl⟩
    . cases h

theorem isEmptyKey_of_keyText (hcovers : t.Covers source) (hkey : t.hasRole .key = true)
    (h : keyText source t = "") : t.IsEmptyKey source := by
  unfold keyText at h
  split at h
  . next hkind =>
    exact ⟨hkey, hkind, exists_quotes_of_unquote hcovers (String.ofList_eq_empty_iff.1 h)⟩
  . exact absurd (String.ofList_eq_empty_iff.1 h) hcovers

theorem namesCover_parseProgram (h : (parseProgram dialect source).firstFault = none) :
    Tree.NamesCover source (parseProgram dialect source) := by
  unfold parseProgram at h ⊢
  cases hparse : parseStatements dialect source with
  | ok items =>
    apply Tree.namesCover_node
    . intro hname
      exact absurd hname (not_isName_plain (by decide))
    . exact namesCover_of_parseStatements hparse
  | error fault =>
    obtain ⟨offset, hoffset⟩ := exists_firstFault_tree dialect source fault
    rw [hparse, SyntaxTree.firstFault] at h
    dsimp only at h
    rw [SyntaxTree.firstFaultForest, hoffset] at h
    cases h

theorem allNames_parseModule {e : Expr} (h : parseModule dialect text = .ok (some e)) :
    e.AllNames fun name => name = "" → HasEmptyKey dialect text := by
  unfold parseModule at h
  dsimp only at h
  split at h
  . cases h
  . next hsound =>
    have hcover := namesCover_parseProgram hsound
    have hnames : Tree.AllNames (fun name => name = "" → HasEmptyKey dialect text) text.toList
        (parseProgram dialect text.toList) := by
      intro t ht
      constructor
      . intro hkey hempty
        exact ⟨t, ht, isEmptyKey_of_keyText (hcover t ht (.inl hkey)) hkey hempty⟩
      . intro hkind hempty
        exact absurd (String.ofList_eq_empty_iff.1 hempty) (hcover t ht (.inr hkind))
    injection h with h
    exact allNames_defaultExportOf _ hnames.part e h

end EmptyKeys

end ComponentDoc.Script
