import ComponentDoc.Proofs.Script.StaysTypes
import ComponentDoc.Script.Element

/-!
Literals, functions and classes, and markup stay on their source, given that the rules they use
for their parts do. Here the trees of entries get their keys.
-/

namespace ComponentDoc.Script

open ComponentDoc.Script.Parser

variable {source : List Char} {low start : Nat} {r : Rules}

namespace Rules

section Literals

variable {context : Context} {declaration : Bool} {kind : Kind}

@[grind ←]
theorem stays_expressions (h : r.Stay source) : Stays source low (r.expressions context) := by
  unfold expressions
  apply stays_bind stays_atOperand
  intro c hc
  apply stays_bind (h.expression low context)
  intro first hfirst
  apply stays_bind stays_atPunctuator
  intro more _
  split
  . apply stays_bind (stays_repeated ?_ ?_)
    . grind
    . grind
    . grind
  . grind

@[grind ←]
theorem stays_templateParts (h : r.Stay source) : Stays source low r.templateParts := by
  unfold templateParts
  apply stays_repeated ?_ placed_nil
  intro parts hparts
  apply stays_bind stays_get
  intro c hc
  split
  . grind
  . grind
  . apply stays_bind (stays_set (hc.advance 2))
    grind
  . grind
  . grind

@[grind ←]
theorem stays_templateString (h : r.Stay source) : Stays source low r.templateString := by
  unfold templateString
  grind

@[grind ←]
theorem stays_spreadable (h : r.Stay source) : Stays source low r.spreadable := by
  unfold spreadable
  grind

@[grind ←]
theorem stays_items (h : r.Stay source) (close : String) :
    Stays source low (r.items close) := by
  unfold items
  apply stays_repeated ?_ placed_nil
  intro items hitems
  apply stays_bind stays_comments
  intro comments hcomments
  have hall : placed source low (comments.reverse ++ items) := by
    grind
  dsimp only
  generalize comments.reverse ++ items = items at hall
  grind

@[grind ←]
theorem stays_arrayLiteral (h : r.Stay source) : Stays source low r.arrayLiteral := by
  unfold arrayLiteral
  grind

@[grind ←]
theorem stays_callArguments (h : r.Stay source) : Stays source low r.callArguments := by
  unfold callArguments
  grind

@[grind ←]
theorem stays_statementBlock (h : r.Stay source) : Stays source low r.statementBlock := by
  unfold statementBlock
  apply stays_bind stays_atLexeme
  intro c hc
  apply stays_bind stays_expect
  intro _ _
  apply stays_bind (stays_repeated ?_ placed_nil)
  . grind
  . grind

@[grind ←]
theorem stays_functionBody (h : r.Stay source) : Stays source low r.functionBody := by
  unfold functionBody
  grind

@[grind ←]
theorem stays_methodTail (h : r.Stay source) : Stays source low (r.methodTail start) := by
  unfold methodTail
  apply stays_named h
  intro name hname hcovers
  grind

@[grind ←]
theorem stays_entryValue (h : r.Stay source) : Stays source low r.entryValue := by
  unfold entryValue
  grind

@[grind ←]
theorem stays_objectEntry (h : r.Stay source) : Stays source low r.objectEntry := by
  unfold objectEntry
  apply stays_bind stays_atOperand
  intro c hc
  extract_lets p rest
  split
  . grind
  . have hrest : ∀ u, Stays source low (rest u) := by
      intro u
      unfold rest
      apply stays_bind stays_atModifier
      intro marked _
      apply stays_bind stays_atPunctuator
      intro starred _
      split
      . grind
      . apply stays_named h
        intro name hname hcovers
        apply stays_bind stays_peekPunctuator
        intro behind _
        split
        . grind
        . split
          . grind
          . split
            . -- An entry that is only a name covers what the name covers.
              apply stays_pure
              apply Tree.namesCover_node (fun _ => hcovers) (List.forall_mem_nil _)
            . grind
    clear_value rest
    grind

@[grind ←]
theorem stays_objectLiteral (h : r.Stay source) : Stays source low r.objectLiteral := by
  unfold objectLiteral
  apply stays_bind stays_atOperand
  intro c hc
  apply stays_bind stays_expect
  intro _ _
  apply stays_bind (stays_repeated ?_ placed_nil)
  . grind
  . intro items hitems
    apply stays_bind stays_comments
    intro comments hcomments
    apply stays_bind stays_get
    intro d hd
    split
    all_goals grind

@[grind ←]
theorem stays_functionTail (h : r.Stay source) :
    Stays source low (r.functionTail start declaration) := by
  unfold functionTail
  grind

@[grind ←]
theorem stays_classMemberTail (h : r.Stay source) : Stays source low r.classMemberTail := by
  unfold classMemberTail
  -- Several branches end in the same parts; each of these is looked at once.
  extract_lets index signature named method assigned typed field
  have hindex : Stays source low index := by
    unfold index
    grind
  have hsignature : ∀ u, Stays source low (signature u) := by
    intro u
    unfold signature
    grind
  have hmethod : Stays source low method := by
    unfold method named
    clear_value signature
    grind
  have hassigned : ∀ u, Stays source low (assigned u) := by
    intro u
    unfold assigned
    grind
  have hfield : Stays source low field := by
    unfold field typed
    clear_value assigned
    grind
  grind

@[grind ←]
theorem stays_classBody (h : r.Stay source) : Stays source low r.classBody := by
  unfold classBody
  apply stays_bind stays_expect
  intro _ _
  apply stays_repeated ?_ trivial
  intro _ _
  apply stays_bind stays_eat
  intro closed _
  split
  . grind
  . apply stays_bind stays_eat
    intro ended _
    split
    . grind
    . apply stays_bind (stays_decorators h)
      intro _ _
      apply stays_bind stays_atWord
      intro static_ _
      apply stays_bind stays_afterWord
      grind

@[grind ←]
theorem stays_classHeritage (h : r.Stay source) : Stays source low r.classHeritage := by
  unfold classHeritage
  grind

@[grind ←]
theorem stays_classTail (h : r.Stay source) (hkind : kind ≠ .shorthand) :
    Stays source low (r.classTail start declaration kind) := by
  unfold classTail
  grind

end Literals

section Elements

@[grind ←]
theorem stays_markupName : Stays source low markupName := by
  unfold markupName
  grind

@[grind ←]
theorem stays_markupExpression (h : r.Stay source) : Stays source low r.markupExpression := by
  unfold markupExpression
  grind

@[grind ←]
theorem stays_markupString : Stays source low markupString := by
  unfold markupString
  grind

@[grind ←]
theorem stays_markupAttributes (h : r.Stay source) : Stays source low r.markupAttributes := by
  unfold markupAttributes
  apply stays_repeated ?_ trivial
  intro _ _
  apply stays_bind stays_atLexeme
  intro c hc
  split
  . grind
  . split
    . apply stays_bind stays_markupName
      intro _ _
      apply stays_bind stays_eat
      grind
    . grind

@[grind ←]
theorem stays_markupChildren (h : r.Stay source) : Stays source low r.markupChildren := by
  unfold markupChildren
  apply stays_repeated ?_ trivial
  intro _ _
  apply stays_bind stays_get
  intro c hc
  split
  . grind
  . grind
  . grind
  . grind
  . grind
  . split
    . grind
    . grind
  . grind

@[grind ←]
theorem stays_elementRule (h : r.Stay source) : Stays source low r.elementRule := by
  unfold elementRule
  apply stays_bind stays_atOperand
  intro c hc
  apply stays_bind stays_expectChar
  intro _ _
  apply stays_bind stays_atChar
  intro bare _
  split
  . grind
  . apply stays_bind stays_markupName
    intro _ _
    apply stays_bind stays_atChar
    intro typed _
    extract_lets rest
    have hrest : ∀ u, Stays source low (rest u) := by
      intro u
      unfold rest
      apply stays_bind (stays_markupAttributes h)
      intro _ _
      grind
    clear_value rest
    grind

end Elements

end Rules

end ComponentDoc.Script
