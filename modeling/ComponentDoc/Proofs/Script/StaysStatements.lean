import ComponentDoc.Proofs.Script.StaysExpressions
import ComponentDoc.Script.Program

/-!
Declarations and statements stay on their source, given that the rules they use for their parts
do. By the depth to which the rules may use each other, so do the rules of a dialect, and all
names in the statements of a script cover some of it.
-/

namespace ComponentDoc.Script

open ComponentDoc.Script.Parser

variable {source : List Char} {low start : Nat} {r : Rules} {w : String}

namespace Rules

section Declarations

variable {kind : Kind}

@[grind ←]
theorem stays_declarator (h : r.Stay source) : Stays source low r.declarator := by
  unfold declarator
  grind

@[grind ←]
theorem stays_declarators (h : r.Stay source) : Stays source low r.declarators := by
  unfold declarators
  grind

@[grind ←]
theorem stays_variableDeclaration (h : r.Stay source) (hkind : kind ≠ .shorthand) :
    Stays source low (r.variableDeclaration kind) := by
  unfold variableDeclaration
  grind

@[grind ←]
theorem stays_functionSignature (h : r.Stay source) :
    Stays source low (r.functionSignature start) := by
  unfold functionSignature
  grind

@[grind ←]
theorem stays_functionDeclaration (h : r.Stay source) : Stays source low r.functionDeclaration := by
  unfold functionDeclaration
  grind

@[grind ←]
theorem stays_dottedName : Stays source low dottedName := by
  unfold dottedName
  grind

@[grind ←]
theorem stays_interfaceDeclaration (h : r.Stay source) :
    Stays source low r.interfaceDeclaration := by
  unfold interfaceDeclaration
  apply stays_bind stays_atOperand
  intro c hc
  apply stays_bind stays_expectWord
  intro _ _
  apply stays_bind stays_anyWord
  intro _ _
  apply stays_bind (stays_typeParameters h)
  grind

@[grind ←]
theorem stays_enumDeclaration (h : r.Stay source) : Stays source low r.enumDeclaration := by
  unfold enumDeclaration
  apply stays_bind stays_atOperand
  intro c hc
  apply stays_bind stays_eatWord
  intro _ _
  apply stays_bind stays_expectWord
  intro _ _
  apply stays_bind stays_anyWord
  grind

@[grind ←]
theorem stays_typeAlias (h : r.Stay source) : Stays source low r.typeAlias := by
  unfold typeAlias
  apply stays_bind stays_atOperand
  intro c hc
  apply stays_bind stays_expectWord
  intro _ _
  apply stays_bind stays_anyWord
  grind

@[grind ←]
theorem stays_moduleDeclaration (h : r.Stay source) (hkind : kind ≠ .shorthand) :
    Stays source low (r.moduleDeclaration kind) := by
  unfold moduleDeclaration
  apply stays_bind stays_atOperand
  intro c hc
  apply stays_bind stays_anyWord
  intro _ _
  apply stays_bind stays_atLexeme
  intro d hd
  extract_lets rest
  have hrest : ∀ u, Stays source low (rest u) := by
    intro u
    unfold rest
    grind
  split
  all_goals grind

@[grind ←]
theorem stays_classDeclaration (h : r.Stay source) :
    Stays source low (r.classDeclaration start) := by
  unfold classDeclaration
  grind

@[grind ←]
theorem stays_typedDeclaration (h : r.Stay source) : Stays source low (r.typedDeclaration w) := by
  unfold typedDeclaration
  apply stays_bind stays_atOperand
  intro c hc
  split
  . grind
  . grind
  . grind
  . grind
  . grind
  . grind
  . apply stays_bind stays_anyWord
    intro _ _
    apply stays_bind stays_atWord
    intro global _
    apply stays_bind stays_afterWord
    grind
  . apply stays_bind stays_anyWord
    intro _ _
    apply stays_bind stays_anyWord
    grind
  . grind

@[grind ←]
theorem stays_declaration (h : r.Stay source) : Stays source low r.declaration := by
  unfold declaration
  grind

end Declarations

section Statements

@[grind ←]
theorem stays_plainStatement : Stays source low (plainStatement start) := by
  unfold plainStatement
  grind

@[grind ←]
theorem stays_head (h : r.Stay source) : Stays source low r.head := by
  unfold head
  grind

@[grind ←]
theorem stays_fromClause : Stays source low fromClause := by
  unfold fromClause
  grind

@[grind ←]
theorem stays_moduleName : Stays source low moduleName := by
  unfold moduleName
  grind

@[grind ←]
theorem stays_specifier : Stays source low r.specifier := by
  unfold specifier
  grind

@[grind ←]
theorem stays_specifiers : Stays source low r.specifiers := by
  unfold specifiers
  grind

@[grind ←]
theorem stays_importClause : Stays source low r.importClause := by
  unfold importClause
  grind

@[grind ←]
theorem stays_importStatement (h : r.Stay source) : Stays source low r.importStatement := by
  unfold importStatement
  apply stays_bind stays_atOperand
  intro c hc
  apply stays_bind stays_expectWord
  intro _ _
  apply stays_bind stays_atLexeme
  intro d hd
  extract_lets isString ended attributed required ordinary named
  have hattributed : ∀ u, Stays source low (attributed u) := by
    intro u
    unfold attributed ended
    grind
  have hrequired : Stays source low required := by
    unfold required
    grind
  have hnamed : ∀ u, Stays source low (named u) := by
    intro u
    unfold named ordinary
    clear_value attributed required
    grind
  clear_value attributed named
  grind

@[grind ←]
theorem stays_exportDefault (h : r.Stay source) : Stays source low (r.exportDefault start) := by
  unfold exportDefault
  grind

@[grind ←]
theorem stays_exportTail (h : r.Stay source) : Stays source low (r.exportTail start) := by
  unfold exportTail
  apply stays_bind stays_peekPunctuator
  intro p _
  split
  . apply stays_bind stays_expect
    grind
  . split
    . grind
    . split
      . grind
      . apply stays_bind stays_peekWord
        intro w _
        apply stays_bind stays_afterWord
        rintro ⟨q, v⟩ _
        dsimp only
        split
        . grind
        . grind

@[grind ←]
theorem stays_exportStatement (h : r.Stay source) : Stays source low (r.exportStatement start) := by
  unfold exportStatement
  grind

@[grind ←]
theorem stays_iterationHead (h : r.Stay source) : Stays source low r.iterationHead := by
  unfold iterationHead
  apply stays_bind stays_expect
  intro _ _
  apply stays_bind stays_peekWord
  intro w _
  extract_lets iterated related bound
  have hrelated : ∀ u, Stays source low (related u) := by
    intro u
    unfold related iterated
    grind
  have hbound : ∀ u, Stays source low (bound u) := by
    intro u
    unfold bound
    clear_value related
    grind
  clear_value bound
  grind

@[grind ←]
theorem stays_counterHead (h : r.Stay source) : Stays source low r.counterHead := by
  unfold counterHead
  apply stays_bind stays_expect
  intro _ _
  apply stays_bind stays_peekWord
  intro w _
  extract_lets stepped tested
  have htested : ∀ u, Stays source low (tested u) := by
    intro u
    unfold tested stepped
    grind
  clear_value tested
  grind

@[grind ←]
theorem stays_forStatement (h : r.Stay source) : Stays source low r.forStatement := by
  unfold forStatement
  grind

@[grind ←]
theorem stays_switchStatement (h : r.Stay source) : Stays source low r.switchStatement := by
  unfold switchStatement
  apply stays_bind stays_expectWord
  intro _ _
  apply stays_bind (stays_head h)
  intro _ _
  apply stays_bind stays_expect
  intro _ _
  apply stays_repeated ?_ trivial
  intro inCase _
  apply stays_bind stays_eat
  intro closed _
  split
  . grind
  . apply stays_bind stays_atWord
    intro default_ _
    apply stays_bind stays_afterWord
    intro next _
    split
    . grind
    . grind

@[grind ←]
theorem stays_tryStatement (h : r.Stay source) : Stays source low r.tryStatement := by
  unfold tryStatement
  apply stays_bind stays_expectWord
  intro _ _
  apply stays_bind (stays_statementBlock h)
  intro _ _
  apply stays_bind stays_eatWord
  intro caught _
  extract_lets last handled closed
  have hlast : ∀ u, Stays source low (last u) := by
    intro u
    unfold last
    grind
  have hhandled : ∀ u, Stays source low (handled u) := by
    intro u
    unfold handled
    grind
  have hclosed : ∀ u, Stays source low (closed u) := by
    intro u
    unfold closed
    grind
  clear_value closed
  grind

@[grind ←]
theorem stays_returnStatement (h : r.Stay source) : Stays source low r.returnStatement := by
  unfold returnStatement
  apply stays_bind stays_atOperand
  intro c hc
  apply stays_bind stays_expectWord
  intro _ _
  apply stays_bind stays_atPunctuator
  grind

@[grind ←]
theorem stays_jump : Stays source low r.jump := by
  unfold jump
  grind

@[grind ←]
theorem stays_expressionStatement (h : r.Stay source) : Stays source low r.expressionStatement := by
  unfold expressionStatement
  grind

@[grind ←]
theorem stays_labelled (h : r.Stay source) : Stays source low r.labelled := by
  unfold labelled
  grind

@[grind ←]
theorem stays_atNamed : Stays source low r.atNamed := by
  unfold atNamed
  grind

@[grind ←]
theorem stays_wordStatement (h : r.Stay source) : Stays source low (r.wordStatement w) := by
  unfold wordStatement
  apply stays_bind stays_atOperand
  intro c hc
  extract_lets plain
  have hplain : ∀ p : Parser Unit, Stays source low p → Stays source low (plain p) := by
    intro p hp
    unfold plain
    grind
  clear_value plain
  apply stays_bind stays_afterWord
  rintro ⟨next, _⟩ _
  dsimp only
  split
  . grind
  . grind
  . apply hplain
    grind
  . grind
  . grind
  . apply hplain
    grind
  . apply hplain
    grind
  . apply hplain
    grind
  . grind
  . grind
  . grind
  . grind
  . grind
  . grind
  . apply stays_bind stays_atNamed
    grind

@[grind ←]
theorem stays_statementRule (h : r.Stay source) : Stays source low r.statementRule := by
  unfold statementRule
  grind

end Statements

end Rules

section Programs

variable {dialect : Dialect} {items : List Tree}

theorem stay_rules (dialect : Dialect) (depth : Nat) : (rules dialect depth).Stay source := by
  induction depth with
  | zero =>
    constructor
    . exact fun _ _ => stays_unexpected
    . exact fun _ => stays_unexpected
    . exact fun _ => stays_unexpected
    . exact fun _ => stays_unexpected
    . exact fun _ => stays_unexpected
    . exact fun _ => stays_unexpected
  | succ depth ih =>
    constructor
    . exact fun _ _ => Rules.stays_expressionRule ih
    . exact fun _ => Rules.stays_statementRule ih
    . exact fun _ => Rules.stays_typeRule ih
    . exact fun _ => Rules.stays_patternRule ih
    . exact fun _ => Rules.stays_elementRule ih
    . exact fun _ => Rules.stays_constructedRule ih

theorem stays_statements (h : r.Stay source) : Stays source low (statements r) := by
  apply stays_repeated ?_ placed_nil
  grind

theorem within_skipPrelude {c : Cursor} (h : c.Within source low) :
    (skipPrelude c).Within source low := by
  unfold skipPrelude
  grind

theorem namesCover_of_parseStatements (h : parseStatements dialect source = .ok items) :
    ∀ item ∈ items, item.NamesCover source := by
  unfold parseStatements at h
  obtain ⟨d, hd⟩ := run'_eq_ok h
  exact ((stays_statements (stay_rules dialect _)).placed_of_ok _ _ _
    (within_skipPrelude (Cursor.Within.ofSource source)) hd).2

end Programs

end ComponentDoc.Script
