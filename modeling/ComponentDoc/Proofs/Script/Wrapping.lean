import Mathlib.Data.List.Forall2
import ComponentDoc.Script.Module
import ComponentDoc.Proofs.Script.Textless

/-!
Parentheses and type marks around expressions do not show in the default export: wrapping
expressions of a script, any of them and any number of times, changes no more of it than the
source text that it keeps.
-/

namespace ComponentDoc.Script

/--
The kinds of the nodes that stand for the expression inside them.
-/
def Kind.isWrapper : Kind → Bool
  | .parenthesized => true
  | .asExpression => true
  | .satisfiesExpression => true
  | .nonNullExpression => true
  | _ => false

/--
Whether a part of a node of some kind is an expression, by what it is to the node.
-/
def Kind.holdsExpression (kind : Kind) (role : Role) : Bool :=
  match kind with
  | .exportDefault => role = .value
  | .pair => role = .value
  | .arrowFunction => role = .body
  | .array | .arguments | .returnStatement | .callExpression | .newExpression
  | .parenthesized | .asExpression | .satisfiesExpression | .nonNullExpression
  | .spreadElement | .computedName | .templateSubstitution | .awaitExpression | .yieldExpression
  | .unaryExpression | .binaryExpression | .ternaryExpression | .updateExpression
  | .assignmentExpression | .augmentedAssignment | .sequenceExpression | .memberExpression
  | .subscriptExpression | .instantiation | .typeAssertion => role ≠ .key && role ≠ .arguments
  | _ => false

/--
The nodes whose text stays when expressions are wrapped, as they contain none: names, strings,
comments and keys. With `inNames` computed keys are not among them.
-/
def KeepsText (inNames : Bool) (label : Label) (parts : List Tree) : Prop :=
  label.kind ∈ [.identifier, .string, .comment, .shorthand] ∨
    (label.kind = .templateString ∧ isPlainTemplate parts = true) ∨
      (label.role = .key ∧ ¬(inNames = true ∧ label.kind = .computedName))

instance (inNames : Bool) (label : Label) (parts : List Tree) :
    Decidable (KeepsText inNames label parts) :=
  inferInstanceAs (Decidable (_ ∨ _ ∨ _))

namespace Tree

def role (t : Tree) : Role :=
  (t.label?.map Label.role).getD .plain

end Tree

/--
Whether a tree over a source comes from another by wrapping expressions. A wrapper takes the
place of the expression, with comments and punctuation in front of it and anything behind it.
`free` says whether the root itself may be wrapped.
-/
inductive Wrapped (source source' : List Char) (inNames : Bool) : Bool → Tree → Tree → Prop where
  | node {free : Bool} {label : Label} {span span' : Span} {parts parts' : List Tree}
    (text : KeepsText inNames label parts → span.slice source = span'.slice source')
    (length : parts.length = parts'.length)
    (each : ∀ p ∈ parts.zip parts',
      Wrapped source source' inNames (label.kind.holdsExpression p.1.role) p.1 p.2) :
    Wrapped source source' inNames free (.node label span parts) (.node label span' parts')
  | error (free : Bool) (span span' : Span) (parts parts' : List Tree) :
    Wrapped source source' inNames free (.error span parts) (.error span' parts')
  | missing (free : Bool) (label : Label) (position position' : Nat) :
    Wrapped source source' inNames free (.missing label position) (.missing label position')
  | wrapper {t : Tree} {inner span : Span} {parts : List Tree} {kind : Kind} (label : Label)
    (role : Role) (before after : List Tree)
    (h : Wrapped source source' inNames true t (.node label inner parts))
    (hexpression : label.kind ∉ [.comment, .punctuation, .statementBlock])
    (hkind : kind.isWrapper = true) (hbefore : ∀ u ∈ before, Tree.isTrivial u = true) :
    Wrapped source source' inNames true t
      (.node ⟨kind, label.role⟩ span (before ++ .node { label with role } inner parts :: after))

variable {source source' : List Char} {t t' : Tree} {parts parts' : List Tree} {free : Bool}

theorem Wrapped.of_forall₂ {inNames : Bool} {label : Label} {span span' : Span}
    (text : KeepsText inNames label parts → span.slice source = span'.slice source')
    (each : List.Forall₂ (fun u u' => Wrapped source source' inNames
      (label.kind.holdsExpression u.role) u u') parts parts') :
    Wrapped source source' inNames free (.node label span parts) (.node label span' parts') := by
  obtain ⟨hlength, hzip⟩ := List.forall₂_iff_zip.1 each
  exact .node text hlength fun _ hmem => hzip hmem

/--
What is lowered from the parts of two nodes is the same but for texts.
-/
structure PartsAlike (source source' : List Char) (parts parts' : List Tree) : Prop where
  values : textlessItems (lowerValues source parts) = textlessItems (lowerValues source' parts')
  first : textlessValue (lowerFirst source parts) = textlessValue (lowerFirst source' parts')
  role : ∀ role,
    textlessValue (lowerRole source role parts) = textlessValue (lowerRole source' role parts')
  key : keyOf? source parts = keyOf? source' parts'
  arguments :
    textlessItems (lowerArguments source parts) = textlessItems (lowerArguments source' parts')
  function :
    textlessBody (lowerFunction source parts) = textlessBody (lowerFunction source' parts')

/--
Two trees look the same to the node that they are parts of, and are lowered to the same but for
texts.
-/
structure Alike (source source' : List Char) (t t' : Tree) : Prop where
  expr : (lowerExpr source t).textless = (lowerExpr source' t').textless
  role : t.label?.map Label.role = t'.label?.map Label.role
  fault : t.isFault = t'.isFault
  trivial : t.isTrivial = t'.isTrivial
  block : t.kind? = some .statementBlock ↔ t'.kind? = some .statementBlock
  statements : t.kind? = some .statementBlock →
    textlessStatements (lowerStatements source t.children) =
      textlessStatements (lowerStatements source' t'.children)

/--
Neither of two trees is the other with a wrapper around it, and their parts are alike.
-/
structure SameRoot (source source' : List Char) (t t' : Tree) : Prop where
  kind : t.kind? = t'.kind?
  text : t.kind? = some .comment ∨ t.kind? = some .shorthand ∨ t.hasRole .key = true →
    t.span.slice source = t'.span.slice source'
  parts : ∀ kind, t.kind? = some kind → PartsAlike source source' t.children t'.children

/--
Parts of two nodes of a kind, alike in pairs, with the same root unless the part is an expression.
-/
abbrev AllAlike (source source' : List Char) (kind : Kind) : List Tree → List Tree → Prop :=
  List.Forall₂ fun t t' => Alike source source' t t' ∧
    (kind.holdsExpression t.role = false → SameRoot source source' t t')

abbrev AllSameRoot (source source' : List Char) : List Tree → List Tree → Prop :=
  List.Forall₂ fun t t' => Alike source source' t t' ∧ SameRoot source source' t t'

theorem Kind.holdsExpression_key (kind : Kind) : kind.holdsExpression .key = false := by
  unfold Kind.holdsExpression
  split
  all_goals rfl

theorem Kind.holdsExpression_arguments (kind : Kind) :
    kind.holdsExpression .arguments = false := by
  unfold Kind.holdsExpression
  split
  all_goals rfl

theorem Tree.role_of_hasRole {role : Role} (h : t.hasRole role = true) : t.role = role := by
  unfold Tree.hasRole at h
  unfold Tree.role
  rw [of_decide_eq_true h]
  rfl

theorem Tree.exists_kind_of_hasRole {role : Role} (h : t.hasRole role = true) :
    ∃ kind, t.kind? = some kind := by
  obtain ⟨label, hlabel, -⟩ := Option.map_eq_some_iff.1 (of_decide_eq_true h)
  exact ⟨label.kind, by rw [Tree.kind?, hlabel]; rfl⟩

theorem lowerArguments_cons (source : List Char) (t : Tree) (ts : List Tree) :
    lowerArguments source (t :: ts) =
      if t.isFault = false ∧ t.hasRole .arguments = true then lowerValues source t.children
      else lowerArguments source ts := by
  cases t with
  | node label span parts =>
    rw [lowerArguments]
    simp [SyntaxTree.isFault, Tree.hasRole, SyntaxTree.label?, SyntaxTree.children]
  | error => simp [lowerArguments, SyntaxTree.isFault]
  | missing => simp [lowerArguments, SyntaxTree.isFault]

theorem lowerFunction_cons (source : List Char) (t : Tree) (ts : List Tree) :
    lowerFunction source (t :: ts) =
      if t.isFault = false ∧ t.hasRole .body = true then
        if t.kind? = some .statementBlock then .block (lowerStatements source t.children)
        else .expression (lowerExpr source t)
      else lowerFunction source ts := by
  cases t with
  | node label span parts =>
    rw [lowerFunction]
    simp [SyntaxTree.isFault, Tree.hasRole, Tree.kind?, SyntaxTree.label?, SyntaxTree.children]
  | error => simp [lowerFunction, SyntaxTree.isFault]
  | missing => simp [lowerFunction, SyntaxTree.isFault]

theorem lowerStatements_cons (source : List Char) (t : Tree) (ts : List Tree) :
    lowerStatements source (t :: ts) =
      if t.isFault = false ∧ t.isTrivial = true then lowerStatements source ts
      else if t.isFault = false ∧ t.kind? = some .returnStatement then
        .return (lowerFirst source t.children) :: lowerStatements source ts
      else .other :: lowerStatements source ts := by
  cases t with
  | node label span parts =>
    rw [lowerStatements]
    simp [SyntaxTree.isFault, Tree.isTrivial, Tree.kind?, SyntaxTree.label?, SyntaxTree.children]
  | error => simp [lowerStatements, SyntaxTree.isFault]
  | missing => simp [lowerStatements, SyntaxTree.isFault]

theorem Alike.hasRole_eq (h : Alike source source' t t') (role : Role) :
    t.hasRole role = t'.hasRole role := by
  unfold Tree.hasRole
  rw [h.role]

namespace AllAlike

variable {kind : Kind}

theorem values (h : AllAlike source source' kind parts parts') :
    textlessItems (lowerValues source parts) = textlessItems (lowerValues source' parts') := by
  induction h with
  | nil => rfl
  | cons hpart _ ih =>
    rw [lowerValues, lowerValues, hpart.1.trivial]
    split
    . exact ih
    . rw [textlessItems, textlessItems, hpart.1.expr, ih]

theorem first (h : AllAlike source source' kind parts parts') :
    textlessValue (lowerFirst source parts) = textlessValue (lowerFirst source' parts') := by
  induction h with
  | nil => rfl
  | cons hpart _ ih =>
    rw [lowerFirst, lowerFirst, hpart.1.trivial]
    split
    . exact ih
    . rw [textlessValue, textlessValue, hpart.1.expr]

theorem role (h : AllAlike source source' kind parts parts') (role : Role) :
    textlessValue (lowerRole source role parts) =
      textlessValue (lowerRole source' role parts') := by
  induction h with
  | nil => rfl
  | cons hpart _ ih =>
    rw [lowerRole, lowerRole, hpart.1.hasRole_eq]
    split
    . rw [textlessValue, textlessValue, hpart.1.expr]
    . exact ih

theorem key (h : AllAlike source source' kind parts parts') :
    keyOf? source parts = keyOf? source' parts' := by
  induction h with
  | nil => rfl
  | @cons t t' ts ts' hpart _ ih =>
    unfold keyOf? at ih ⊢
    rw [List.find?_cons, List.find?_cons, ← hpart.1.hasRole_eq]
    cases hkey : t.hasRole .key with
    | false => exact ih
    | true =>
      -- A key is no expression, so it is not wrapped itself and its text stays.
      have hrole := Tree.role_of_hasRole hkey
      have hroot := hpart.2 (by rw [hrole, Kind.holdsExpression_key])
      have htext := hroot.text (.inr (.inr hkey))
      dsimp only
      rw [Option.map_some, Option.map_some, keyText, keyText, hroot.kind, SyntaxTree.text,
        SyntaxTree.text, Span.text, Span.text, htext]

theorem arguments (h : AllAlike source source' kind parts parts') :
    textlessItems (lowerArguments source parts) =
      textlessItems (lowerArguments source' parts') := by
  induction h with
  | nil => rfl
  | @cons t t' ts ts' hpart _ ih =>
    rw [lowerArguments_cons, lowerArguments_cons, ← hpart.1.fault, ← hpart.1.hasRole_eq]
    split
    . next harguments =>
      have hrole := Tree.role_of_hasRole harguments.2
      have hroot := hpart.2 (by rw [hrole, Kind.holdsExpression_arguments])
      obtain ⟨kind, hkind⟩ := Tree.exists_kind_of_hasRole harguments.2
      exact (hroot.parts kind hkind).values
    . exact ih

theorem function (h : AllAlike source source' kind parts parts') :
    textlessBody (lowerFunction source parts) = textlessBody (lowerFunction source' parts') := by
  induction h with
  | nil => rfl
  | @cons t t' ts ts' hpart _ ih =>
    rw [lowerFunction_cons, lowerFunction_cons, ← hpart.1.fault, ← hpart.1.hasRole_eq]
    split
    . simp only [← hpart.1.block]
      -- A wrapped body is an expression before and after.
      split
      . next hblock => rw [textlessBody, textlessBody, hpart.1.statements hblock]
      . rw [textlessBody, textlessBody, hpart.1.expr]
    . exact ih

theorem partsAlike (h : AllAlike source source' kind parts parts') :
    PartsAlike source source' parts parts' :=
  ⟨h.values, h.first, h.role, h.key, h.arguments, h.function⟩

theorem sameRoot (h : AllAlike source source' kind parts parts')
    (hkind : ∀ role, kind.holdsExpression role = false) :
    AllSameRoot source source' parts parts' :=
  h.imp fun _ _ hpart => ⟨hpart.1, hpart.2 (hkind _)⟩

end AllAlike

theorem AllSameRoot.statements (h : AllSameRoot source source' parts parts') :
    textlessStatements (lowerStatements source parts) =
      textlessStatements (lowerStatements source' parts') := by
  induction h with
  | nil => rfl
  | @cons t t' ts ts' hpart _ ih =>
    rw [lowerStatements_cons, lowerStatements_cons, ← hpart.1.fault, ← hpart.1.trivial,
      ← hpart.2.kind]
    split
    . exact ih
    . split
      . next hreturn =>
        rw [textlessStatements, textlessStatements, textlessStatement, textlessStatement, ih,
          (hpart.2.parts _ hreturn.2).first]
      . rw [textlessStatements, textlessStatements, ih]

section Nodes

variable {label label' : Label} {span span' : Span} {ts ts' : List Tree}

theorem PartsAlike.entries_cons (hparts : PartsAlike source source' parts parts')
    (hkind : label.kind = label'.kind)
    (htext : label.kind = .comment ∨ label.kind = .shorthand →
      span.slice source = span'.slice source')
    (hrest : ∀ pending, textlessEntries (lowerEntries source pending ts) =
      textlessEntries (lowerEntries source' pending ts')) (pending : List Comment) :
    textlessEntries (lowerEntries source pending (.node label span parts :: ts)) =
      textlessEntries (lowerEntries source' pending (.node label' span' parts' :: ts')) := by
  rw [lowerEntries, lowerEntries, ← hkind]
  split
  . next hcomment => rw [htext (.inl hcomment), hrest]
  . have hvalue := hparts.role .value
    rw [← hparts.key]
    generalize lowerRole source .value parts = value at hvalue ⊢
    generalize lowerRole source' .value parts' = value' at hvalue ⊢
    cases keyOf? source parts with
    | none => exact hrest []
    | some key =>
      cases value with
      | none =>
        cases value' with
        | none => exact hrest []
        | some value' => cases hvalue
      | some value =>
        cases value' with
        | none => cases hvalue
        | some value' =>
          dsimp only
          rw [textlessEntries, textlessEntries, textlessEntry, textlessEntry,
            Option.some.inj hvalue, hrest]
  . rw [← hparts.key]
    cases keyOf? source parts with
    | none => exact hrest []
    | some key =>
      dsimp only
      rw [textlessEntries, textlessEntries, textlessEntry, textlessEntry, Expr.textless,
        Expr.textless, hparts.function, hrest]
  . next hshorthand =>
    dsimp only
    rw [Span.text, Span.text, htext (.inr hshorthand), textlessEntries, textlessEntries, hrest]
  . exact hrest []
  . exact hrest pending

end Nodes

theorem lowerEntries_of_fault (h : t.isFault = true) (pending : List Comment) (ts : List Tree) :
    lowerEntries source pending (t :: ts) = lowerEntries source pending ts := by
  cases t with
  | node => cases h
  | error => simp only [lowerEntries]
  | missing => simp only [lowerEntries]

theorem AllSameRoot.entries (h : AllSameRoot source source' parts parts') (pending : List Comment) :
    textlessEntries (lowerEntries source pending parts) =
      textlessEntries (lowerEntries source' pending parts') := by
  induction h generalizing pending with
  | nil => rfl
  | @cons t t' ts ts' hpart _ ih =>
    obtain ⟨halike, hroot⟩ := hpart
    cases hfault : t.isFault with
    | true =>
      rw [lowerEntries_of_fault hfault, lowerEntries_of_fault (halike.fault ▸ hfault), ih]
    | false =>
      have hfault' : t'.isFault = false := halike.fault ▸ hfault
      cases t with
      | node label span parts =>
        cases t' with
        | node label' span' parts' =>
          apply (hroot.parts _ rfl).entries_cons (Option.some.inj hroot.kind) ?_ ih
          rintro (hcomment | hshorthand)
          . exact hroot.text (.inl (congrArg some hcomment))
          . exact hroot.text (.inr (.inl (congrArg some hshorthand)))
        | error => cases hfault'
        | missing => cases hfault'
      | error => cases hfault
      | missing => cases hfault

theorem AllSameRoot.defaultExportOf (h : AllSameRoot source source' parts parts') :
    textlessValue (defaultExportOf source parts) =
      textlessValue (defaultExportOf source' parts') := by
  induction h with
  | nil => rfl
  | @cons t t' ts ts' hpart _ ih =>
    rw [Script.defaultExportOf, Script.defaultExportOf, ← hpart.2.kind]
    split
    . next hexport => exact (hpart.2.parts _ hexport).role .value
    . exact ih

section Roots

variable {label : Label} {span span' : Span}

theorem textless_getD {value value' : Option Expr} {kind : Kind}
    (h : textlessValue value = textlessValue value') :
    (value.getD (otherExpr source kind span)).textless =
      (value'.getD (otherExpr source' kind span')).textless := by
  cases value with
  | none =>
    cases value' with
    | none => rfl
    | some value' => cases h
  | some value =>
    cases value' with
    | none => cases h
    | some value' => exact Option.some.inj h

theorem AllAlike.isPlainTemplate_eq (h : AllAlike source source' .templateString parts parts') :
    isPlainTemplate parts = isPlainTemplate parts' := by
  unfold isPlainTemplate
  congr 1
  induction h with
  | nil => rfl
  | cons hpart _ ih => rw [List.any_cons, List.any_cons, (hpart.2 rfl).kind, ih]

/--
A node and the same node with its parts wrapped.
-/
theorem AllAlike.expr_node (h : AllAlike source source' label.kind parts parts')
    (htext : KeepsText false label parts → span.slice source = span'.slice source') :
    (lowerExpr source (.node label span parts)).textless =
      (lowerExpr source' (.node label span' parts')).textless := by
  have hparts := h.partsAlike
  unfold KeepsText at htext
  rw [lowerExpr, lowerExpr]
  generalize label.kind = kind at h htext ⊢
  split
  . rw [Expr.textless, Expr.textless, (h.sameRoot fun _ => rfl).entries]
  . rw [Expr.textless, Expr.textless, hparts.values]
  . rw [Span.text, Span.text, htext (.inl (by decide))]
  . rw [htext (.inl (by decide))]
  -- A template with a hole is kept by its kind only, so its text may change.
  . rw [← h.isPlainTemplate_eq]
    split
    . next hplain => rw [htext (.inr (.inl ⟨rfl, hplain⟩))]
    . rfl
  . rfl
  . rfl
  . rw [Expr.textless, Expr.textless, hparts.function]
  . rw [Expr.textless, Expr.textless, hparts.function]
  . rw [Expr.textless, Expr.textless, hparts.function]
  . rw [Expr.textless, Expr.textless, hparts.function]
  . rw [Expr.textless, Expr.textless, hparts.function]
  . rw [Expr.textless, Expr.textless, hparts.arguments, textless_getD (hparts.role .callee)]
  . exact textless_getD hparts.first
  . exact textless_getD hparts.first
  . exact textless_getD hparts.first
  . exact textless_getD hparts.first
  . rfl

theorem AllAlike.alike_node (h : AllAlike source source' label.kind parts parts')
    (htext : KeepsText false label parts → span.slice source = span'.slice source') :
    Alike source source' (.node label span parts) (.node label span' parts') where
  expr := h.expr_node htext
  role := rfl
  fault := rfl
  trivial := rfl
  block := Iff.rfl
  statements hblock := by
    apply AllSameRoot.statements
    apply h.sameRoot
    intro role
    rw [show label.kind = .statementBlock from Option.some.inj hblock]
    rfl

theorem AllAlike.sameRoot_node (h : AllAlike source source' label.kind parts parts')
    (htext : KeepsText false label parts → span.slice source = span'.slice source') :
    SameRoot source source' (.node label span parts) (.node label span' parts') where
  kind := rfl
  text := by
    rintro (hcomment | hshorthand | hkey)
    . apply htext (.inl _)
      rw [show label.kind = .comment from Option.some.inj hcomment]
      decide
    . apply htext (.inl _)
      rw [show label.kind = .shorthand from Option.some.inj hshorthand]
      decide
    . apply htext (.inr (.inr ⟨Tree.role_of_hasRole hkey, _⟩))
      nofun
  parts _ _ := h.partsAlike

end Roots

section Wrappers

variable {label : Label} {inner span : Span} {before after : List Tree} {kind : Kind}

theorem Kind.not_mem_of_isWrapper (h : kind.isWrapper = true) :
    kind ∉ [.comment, .punctuation, .statementBlock] := by
  intro hmem
  simp only [List.mem_cons, List.not_mem_nil, or_false] at hmem
  obtain rfl | rfl | rfl := hmem
  . cases h
  . cases h
  . cases h

theorem isTrivial_node (h : kind ∉ [.comment, .punctuation, .statementBlock]) (role : Role) :
    Tree.isTrivial (.node ⟨kind, role⟩ span parts) = false := by
  simp_all [Tree.isTrivial, Tree.kind?, SyntaxTree.label?]

theorem kind?_node_ne_statementBlock (h : kind ∉ [.comment, .punctuation, .statementBlock])
    (role : Role) : Tree.kind? (.node ⟨kind, role⟩ span parts) ≠ some .statementBlock := by
  simp_all [Tree.kind?, SyntaxTree.label?]

theorem lowerFirst_append (hbefore : ∀ u ∈ before, Tree.isTrivial u = true)
    (ht : t.isTrivial = false) :
    lowerFirst source (before ++ t :: after) = some (lowerExpr source t) := by
  induction before with
  | nil => rw [List.nil_append, lowerFirst, ht, if_neg Bool.false_ne_true]
  | cons u before ih =>
    rw [List.forall_mem_cons] at hbefore
    rw [List.cons_append, lowerFirst, hbefore.1, if_pos rfl, ih hbefore.2]

theorem lowerExpr_wrapper {role : Role} {e : Expr} (hkind : kind.isWrapper = true)
    (h : lowerFirst source parts = some e) :
    lowerExpr source (.node ⟨kind, role⟩ span parts) = e := by
  rw [lowerExpr]
  unfold Kind.isWrapper at hkind
  split at hkind
  . dsimp only
    rw [h, Option.getD_some]
  . dsimp only
    rw [h, Option.getD_some]
  . dsimp only
    rw [h, Option.getD_some]
  . dsimp only
    rw [h, Option.getD_some]
  . cases hkind

theorem Alike.wrapper (h : Alike source source' t (.node label inner parts)) (role : Role)
    (hexpression : label.kind ∉ [.comment, .punctuation, .statementBlock])
    (hkind : kind.isWrapper = true) (hbefore : ∀ u ∈ before, Tree.isTrivial u = true) :
    Alike source source' t (.node ⟨kind, label.role⟩ span
      (before ++ .node { label with role } inner parts :: after)) where
  expr := by
    have hfirst : lowerFirst source' (before ++ .node { label with role } inner parts :: after) =
        some (lowerExpr source' (.node { label with role } inner parts)) :=
      lowerFirst_append hbefore (isTrivial_node hexpression role)
    rw [lowerExpr_wrapper hkind hfirst, h.expr, lowerExpr, lowerExpr]
  role := h.role
  fault := h.fault
  trivial := by
    rw [h.trivial, isTrivial_node hexpression, isTrivial_node (Kind.not_mem_of_isWrapper hkind)]
  block := h.block.trans (iff_of_false (kind?_node_ne_statementBlock hexpression label.role)
    (kind?_node_ne_statementBlock (Kind.not_mem_of_isWrapper hkind) label.role))
  statements hblock :=
    absurd (h.block.1 hblock) (kind?_node_ne_statementBlock hexpression label.role)

end Wrappers

theorem alike_error (span span' : Span) (parts parts' : List Tree) :
    Alike source source' (.error span parts) (.error span' parts') where
  expr := by
    rw [lowerExpr, lowerExpr, Expr.textless, Expr.textless]
  role := rfl
  fault := rfl
  trivial := rfl
  block := Iff.rfl
  statements := nofun

theorem sameRoot_error (span span' : Span) (parts parts' : List Tree) :
    SameRoot source source' (.error span parts) (.error span' parts') where
  kind := rfl
  text := by
    rintro (h | h | h)
    . cases h
    . cases h
    . cases h
  parts := nofun

theorem alike_missing (label : Label) (position position' : Nat) :
    Alike source source' (.missing label position) (.missing label position') where
  expr := by
    rw [lowerExpr, lowerExpr]
  role := rfl
  fault := rfl
  trivial := rfl
  block := Iff.rfl
  statements _ := rfl

theorem sameRoot_missing (label : Label) (position position' : Nat) :
    SameRoot source source' (.missing label position) (.missing label position') where
  kind := rfl
  text _ := by
    simp [Span.slice, SyntaxTree.span]
  parts _ _ := ⟨rfl, rfl, fun _ => rfl, rfl, rfl, rfl⟩

/--
Wrapping expressions of a tree, wherever they are but in computed keys, changes no more of what
it is lowered to than the texts that are kept.
-/
theorem Wrapped.alike (h : Wrapped source source' false free t t') :
    Alike source source' t t' ∧ (free = false → SameRoot source source' t t') := by
  induction h with
  | @node free label span span' parts parts' text length each ih =>
    have hparts : AllAlike source source' label.kind parts parts' :=
      List.forall₂_iff_zip.2 ⟨length, fun hmem => ih _ hmem⟩
    exact ⟨hparts.alike_node text, fun _ => hparts.sameRoot_node text⟩
  | error free span span' parts parts' =>
    exact ⟨alike_error span span' parts parts', fun _ => sameRoot_error span span' parts parts'⟩
  | missing free label position position' =>
    exact ⟨alike_missing label position position',
      fun _ => sameRoot_missing label position position'⟩
  | wrapper label role before after h hexpression hkind hbefore ih =>
    exact ⟨ih.1.wrapper role hexpression hkind hbefore, nofun⟩

theorem Wrapped.defaultExportOf {role : Role} {span : Span} {statements : List Tree}
    (h : Wrapped source source' false false (.node ⟨.program, role⟩ span statements) t') :
    (defaultExportOf source statements).map Expr.textless =
      (defaultExportOf source' t'.children).map Expr.textless := by
  cases h with
  | @node _ _ _ _ _ statements' text length each =>
    have hroot : AllSameRoot source source' statements statements' := by
      refine List.forall₂_iff_zip.2 ⟨length, fun hmem => ?_⟩
      have halike := (each _ hmem).alike
      exact ⟨halike.1, halike.2 rfl⟩
    rw [← textlessValue_eq_map, ← textlessValue_eq_map]
    exact hroot.defaultExportOf

end ComponentDoc.Script
