import ComponentDoc.Proofs.Script.StaysLiterals
import ComponentDoc.Script.Expression

/-!
Expressions stay on their source, given that the rules they use for their parts do.
-/

namespace ComponentDoc.Script

open ComponentDoc.Script.Parser

variable {source : List Char} {low start : Nat} {r : Rules} {context : Context}

namespace Rules

section Expression

variable {calls : Bool} {inner : Context} {kind : Kind} {w : String}

@[grind ←]
theorem stays_arrowBody (h : r.Stay source) : Stays source low (r.arrowBody start context) := by
  unfold arrowBody
  grind

@[grind ←]
theorem stays_arrowHead (h : r.Stay source) : Stays source low (r.arrowHead context) := by
  unfold arrowHead
  grind

@[grind ←]
theorem stays_parenthesized (h : r.Stay source) : Stays source low r.parenthesized := by
  unfold parenthesized
  apply stays_bind stays_atOperand
  intro c _
  apply stays_bind stays_expect
  intro _ _
  apply stays_bind stays_comments
  intro front hfront
  apply stays_bind (stays_expressions h)
  intro value hvalue
  have hparts : placed source low (front ++ [value]) := by
    grind
  grind

@[grind ←]
theorem stays_parenthesizedOrArrow (h : r.Stay source) :
    Stays source low (r.parenthesizedOrArrow context) := by
  unfold parenthesizedOrArrow
  grind

@[grind ←]
theorem stays_patternAssignment (h : r.Stay source) :
    Stays source low (r.patternAssignment start context) := by
  unfold patternAssignment
  grind

@[grind ←]
theorem stays_bracketed (h : r.Stay source) {literal : Parser Tree}
    (hliteral : Stays source low literal) :
    Stays source low (r.bracketed literal context) := by
  unfold bracketed
  grind

@[grind ←]
theorem stays_leafWord (hkind : kind ≠ .shorthand) : Stays source low (leafWord kind) := by
  unfold leafWord
  grind

@[grind ←]
theorem stays_nameOrArrow (h : r.Stay source) : Stays source low (r.nameOrArrow context) := by
  unfold nameOrArrow
  grind

@[grind ←]
theorem stays_arrowOrName (h : r.Stay source) {head : Parser Unit} (hhead : Stays source low head) :
    Stays source low (asyncExpression.arrowOrName r context start head) := by
  unfold asyncExpression.arrowOrName
  grind

@[grind ←]
theorem stays_asyncExpression (h : r.Stay source) :
    Stays source low (r.asyncExpression context) := by
  unfold asyncExpression
  grind

@[grind ←]
theorem stays_newExpression (h : r.Stay source) : Stays source low r.newExpression := by
  unfold newExpression
  apply stays_bind stays_atOperand
  intro c hc
  apply stays_bind stays_expectWord
  intro _ _
  apply stays_bind stays_eat
  intro dotted _
  split
  . grind
  . apply stays_bind (h.constructed low)
    intro callee hcallee
    apply stays_bind stays_atChar
    grind

@[grind ←]
theorem stays_importExpression : Stays source low importExpression := by
  unfold importExpression
  grind

@[grind ←]
theorem stays_wordOperand (h : r.Stay source) : Stays source low (r.wordOperand w context) := by
  unfold wordOperand
  grind

@[grind ←]
theorem stays_primary (h : r.Stay source) : Stays source low (r.primary context) := by
  unfold primary
  apply stays_bind stays_atOperand
  intro c hc
  split
  . grind
  . grind
  . grind
  . grind
  . grind
  . grind
  . split
    . grind
    . grind
  . split
    . grind
    . grind
  . grind
  . grind
  . extract_lets n
    split
    . grind
    . unfold primary.peekWordAt
      grind

@[grind ←]
theorem stays_call (h : r.Stay source) {callee : Tree} (hcallee : callee.NamesCover source) :
    Stays source low (r.call start callee) := by
  unfold call
  grind

@[grind ←]
theorem stays_taggedTemplate (h : r.Stay source) {callee : Tree}
    (hcallee : callee.NamesCover source) :
    Stays source low (r.taggedTemplate start callee) := by
  unfold taggedTemplate
  grind

@[grind ←]
theorem stays_member (h : r.Stay source) {object : Tree} (hobject : object.NamesCover source) :
    Stays source low (r.member start object) := by
  unfold member
  grind

@[grind ←]
theorem stays_subscript (h : r.Stay source) {object : Tree} (hobject : object.NamesCover source) :
    Stays source low (r.subscript start object) := by
  unfold subscript
  grind

@[grind ←]
theorem stays_trailingTypeArguments (h : r.Stay source) :
    Stays source low r.trailingTypeArguments := by
  unfold trailingTypeArguments
  grind

@[grind ←]
theorem stays_instantiated (h : r.Stay source) {callee : Tree}
    (hcallee : callee.NamesCover source) :
    Stays source low (r.instantiated start callee) := by
  unfold instantiated
  grind

@[grind ←]
theorem stays_trailers (h : r.Stay source) {first : Tree} (hfirst : first.NamesCover source) :
    Stays source low (r.trailers calls context start first) := by
  unfold trailers
  apply stays_repeated ?_ hfirst
  intro t ht
  apply stays_bind stays_semicolonOmitted
  intro ended _
  split
  . grind
  . apply stays_bind stays_peekPunctuator
    intro p _
    split
    . grind
    . split
      . grind
      . apply stays_bind stays_expect
        intro _ _
        apply stays_bind stays_atPunctuator
        grind
    . grind
    . grind
    . grind
    . grind
    . grind
    . grind
    . grind

@[grind ←]
theorem stays_constructedRule (h : r.Stay source) : Stays source low r.constructedRule := by
  unfold constructedRule
  grind

@[grind ←]
theorem stays_suffixed (h : r.Stay source) : Stays source low (r.suffixed context) := by
  unfold suffixed
  apply stays_bind stays_atOperand
  intro c hc
  apply stays_bind (stays_primary h)
  intro first hfirst
  extract_lets bare
  split
  . grind
  . apply stays_bind (stays_trailers h hfirst)
    intro t ht
    apply stays_bind stays_semicolonOmitted
    intro ended _
    split
    . grind
    . apply stays_bind stays_peekPunctuator
      intro p _
      split
      . grind
      . split
        . grind
        . grind

@[grind ←]
theorem stays_startsOperand : Stays source low startsOperand := by
  unfold startsOperand
  grind

@[grind ←]
theorem stays_yieldTail (h : r.Stay source) : Stays source low (r.yieldTail start context) := by
  unfold yieldTail
  grind

@[grind ←]
theorem stays_frontOperator : Stays source low frontOperator := by
  unfold frontOperator
  grind

@[grind ←]
theorem stays_assertedType (h : r.Stay source) : Stays source low (r.assertedType context) := by
  unfold assertedType
  grind

@[grind ←]
theorem stays_wrapOperators {t : Tree} (ht : t.NamesCover source) {operators : List (Kind × Nat)}
    (hoperators : placed source low operators) :
    Stays source low (wrapOperators t operators) := by
  induction operators generalizing t with
  | nil => exact stays_pure ht
  | cons operator rest ih =>
    unfold wrapOperators
    grind

@[grind ←]
theorem stays_operand (h : r.Stay source) : Stays source low (r.operand context) := by
  unfold operand
  apply stays_repeated ?_ placed_nil
  intro operators hoperators
  apply stays_bind stays_atOperand
  intro c hc
  apply stays_bind stays_frontOperator
  intro found hfound
  split
  . grind
  . apply stays_bind (stays_assertedType h)
    intro asserted _
    split
    . grind
    . split
      . grind
      . grind

theorem placed_joinPending {level : Nat} {pending : Pending} {t : Tree}
    (hpending : placed source low pending) (ht : t.NamesCover source) :
    placed source low (joinPending level pending t) := by
  induction pending generalizing t with
  | nil => exact ⟨placed_nil, ht⟩
  | cons top rest ih =>
    obtain ⟨left, precedence⟩ := top
    obtain ⟨⟨hleft, _⟩, hrest⟩ := (placed_cons _ _).1 hpending
    unfold joinPending
    split
    . apply ih hrest
      apply Tree.namesCover_node
      . intro hname
        exact absurd hname (not_isName_plain (by decide))
      . exact (placed_cons _ _).2 ⟨hleft, (placed_cons _ _).2 ⟨ht, placed_nil⟩⟩
    . exact ⟨hpending, ht⟩

@[grind ←]
theorem placed_joinPending_fst {level : Nat} {pending : Pending} {t : Tree}
    (hpending : placed source low pending) (ht : t.NamesCover source) :
    placed source low (joinPending level pending t).1 :=
  (placed_joinPending hpending ht).1

@[grind ←]
theorem placed_joinPending_snd {level : Nat} {pending : Pending} {t : Tree}
    (hpending : placed source low pending) (ht : t.NamesCover source) :
    placed source low (joinPending level pending t).2 :=
  (placed_joinPending hpending ht).2

@[grind ←]
theorem stays_binary (h : r.Stay source) : Stays source low (r.binary context) := by
  unfold binary
  apply stays_bind (stays_operand h)
  intro first hfirst
  apply stays_repeated ?_ ((placed_pair _).2 ⟨placed_nil, hfirst⟩)
  rintro ⟨pending, t⟩ ⟨hpending, ht⟩
  dsimp -zeta only at hpending ht ⊢
  extract_lets done
  apply stays_bind stays_semicolonOmitted
  intro ended _
  split
  . grind
  . apply stays_bind stays_peekPunctuator
    intro p _
    extract_lets level
    split
    . apply stays_bind stays_expect
      intro _ _
      grind
    . apply stays_bind stays_peekWord
      intro w _
      split
      all_goals grind

@[grind ←]
theorem stays_branches (h : r.Stay source) : Stays source low (r.branches inner context) := by
  unfold branches
  grind

@[grind ←]
theorem stays_typedBranches (h : r.Stay source) : Stays source low (r.typedBranches context) := by
  unfold typedBranches
  apply stays_bind stays_get
  intro c hc
  apply stays_bind (stays_orElse (stays_branches h) (stays_branches h))
  intro plain hplain
  apply stays_bind stays_atPunctuator
  intro more _
  split
  . apply stays_bind stays_get
    grind
  . grind

@[grind ←]
theorem stays_expressionRule (h : r.Stay source) : Stays source low (r.expressionRule context) := by
  unfold expressionRule
  apply stays_bind stays_atOperand
  intro c hc
  apply stays_bind (stays_binary h)
  intro t ht
  split
  . grind
  . apply stays_bind stays_atPunctuator
    intro asked _
    split
    . apply stays_bind stays_expect
      intro _ _
      grind
    . grind

end Expression

end Rules

end ComponentDoc.Script
