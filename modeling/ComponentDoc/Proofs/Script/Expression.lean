import ComponentDoc.Script.Expression
import ComponentDoc.Proofs.Script.Parser

/-!
Expressions that are no more than an operand. Between the rule for expressions and the operand lie
the operators in front of it, behind it and between operands, conditions and accesses; where the
operand starts with a name, a quote or a bracket and nothing goes on behind it, none of these finds
anything, and the expression is the operand.
-/

namespace ComponentDoc.Script

open ComponentDoc.Script.Parser

/--
What stands behind a literal: nothing, a comma or a closing bracket.
-/
def Stops (rest : List Char) : Prop :=
  ∀ x, rest.head? = some x → x = ',' ∨ x = '}' ∨ x = ']'

namespace Stops

variable {rest : List Char}

theorem cases (h : Stops rest) :
    rest = [] ∨ ∃ x tail, rest = x :: tail ∧ (x = ',' ∨ x = '}' ∨ x = ']') := by
  cases rest with
  | nil => exact Or.inl rfl
  | cons x tail => exact Or.inr ⟨x, tail, rfl, h x rfl⟩

theorem skipTrivia_eq (h : Stops rest) (markup : Bool) (o : Nat) :
    skipTrivia markup ⟨rest, o⟩ = ⟨rest, o⟩ := by
  obtain rfl | ⟨x, tail, rfl, rfl | rfl | rfl⟩ := h.cases
  . rfl
  . exact skipTrivia_of_head rfl _ _ _
  . exact skipTrivia_of_head rfl _ _ _
  . exact skipTrivia_of_head rfl _ _ _

theorem punctuator_eq (h : Stops rest) :
    punctuator rest = "" ∨ punctuator rest = "," ∨ punctuator rest = "\x7d" ∨
      punctuator rest = "]" := by
  obtain rfl | ⟨x, tail, rfl, rfl | rfl | rfl⟩ := h.cases
  . exact Or.inl rfl
  . exact Or.inr (Or.inl rfl)
  . exact Or.inr (Or.inr (Or.inl rfl))
  . exact Or.inr (Or.inr (Or.inr rfl))

theorem endsWord (h : Stops rest) : EndsWord rest := by
  intro x hx
  obtain rfl | rfl | rfl := h x hx
  . exact ⟨rfl, by decide⟩
  . exact ⟨rfl, by decide⟩
  . exact ⟨rfl, by decide⟩

end Stops

/--
Whether the next lexeme behind a cursor stands at another one.
-/
def LexemeAt (c d : Cursor) : Prop :=
  ∀ markup, skipTrivia markup c = d

theorem LexemeAt.self {c d : Cursor} (h : LexemeAt c d) : LexemeAt d d :=
  fun markup => skipTriviaFrom_idem (h markup)

/--
The words with which an expression or a declaration starts that is no literal.
-/
def leadingWords : List String :=
  ["typeof", "void", "delete", "await", "yield", "var", "let", "const", "function", "async",
    "class", "interface", "enum", "type", "namespace", "module", "abstract", "declare", "import"]

/--
A place where an operand starts that is a literal.
-/
structure StartsLiteral (c : Cursor) : Prop where
  stays : LexemeAt c c
  noComments : trivia true c = ([], c)
  noAngle : c.peek? ≠ some '<'
  punctuator : punctuator c.rest = "" ∨ punctuator c.rest = "\x7b" ∨ punctuator c.rest = "["
  word : ∀ w d, word? c = some (w, d) → w ∉ leadingWords

theorem StartsLiteral.punctuator_ne {c : Cursor} (h : StartsLiteral c) {p : String}
    (hp : p ∉ ["", "\x7b", "["]) : Script.punctuator c.rest ≠ p := by
  rintro rfl
  apply hp
  simpa using h.punctuator

namespace Rules

variable {r : Rules} {context : Context} {c d e : Cursor} {t : Tree}

theorem frontOperator_eq (hc : LexemeAt c d) (h : StartsLiteral d) :
    frontOperator c = .ok (none, c) := by
  unfold frontOperator
  rw [atOperand_bind, hc]
  split
  . next heq => exact absurd (by decide) (h.word _ _ heq)
  . next heq => exact absurd (by decide) (h.word _ _ heq)
  . next heq => exact absurd (by decide) (h.word _ _ heq)
  . next heq => exact absurd (by decide) (h.word _ _ heq)
  . obtain hp | hp | hp := h.punctuator
    all_goals
      rw [hp]
      rfl

theorem assertedType_eq (hc : LexemeAt c d) (h : StartsLiteral d) :
    r.assertedType context c = .ok (false, c) := by
  unfold assertedType
  rw [atOperand_bind, hc, if_neg]
  . rfl
  . simp [h.noAngle]

theorem operand_of_suffixed (hc : LexemeAt c d) (h : StartsLiteral d)
    (hread : r.suffixed context c = .ok (t, e)) : r.operand context c = .ok (t, e) := by
  unfold operand
  apply repeated_inr
  rw [atOperand_bind, hc, bind_of_ok (frontOperator_eq hc h)]
  dsimp only
  rw [bind_of_ok (assertedType_eq hc h), if_neg Bool.false_ne_true]
  have hsuffixed : (do return .inr (← wrapOperators (← r.suffixed context) []) :
      Parser (List (Kind × Nat) ⊕ Tree)) c = .ok (.inr t, e) := by
    rw [bind_of_ok hread]
    rfl
  refine run_congr ?_ hsuffixed
  split
  . next heq => exact absurd (by decide) (h.word _ _ heq)
  . rfl

variable {rest : List Char} {o : Nat}

theorem trailers_eq (hrest : Stops rest) (calls : Bool) (start : Nat) (t : Tree) :
    r.trailers calls context start t ⟨rest, o⟩ = .ok (t, ⟨rest, o⟩) := by
  unfold trailers
  apply repeated_inr
  rw [semicolonOmitted_bind]
  split
  . rfl
  . rw [peekPunctuator_bind, hrest.skipTrivia_eq]
    obtain hp | hp | hp | hp := hrest.punctuator_eq
    all_goals
      rw [hp]
      rfl

theorem suffixed_of_primary (hread : r.primary context c = .ok (t, ⟨rest, o⟩))
    (hrest : Stops rest) :
    r.suffixed context c = .ok (t, ⟨rest, o⟩) := by
  unfold suffixed
  rw [atOperand_bind, bind_of_ok hread]
  split
  . rfl
  . rw [bind_of_ok (trailers_eq hrest true _ t), semicolonOmitted_bind]
    split
    . rfl
    . rw [peekPunctuator_bind, hrest.skipTrivia_eq]
      obtain hp | hp | hp | hp := hrest.punctuator_eq
      all_goals
        rw [hp]
        rfl

theorem binary_of_operand (hread : r.operand context c = .ok (t, ⟨rest, o⟩))
    (hrest : Stops rest) : r.binary context c = .ok (t, ⟨rest, o⟩) := by
  have hword : ((word? ⟨rest, o⟩).map Prod.fst).getD "" = "" := by
    rw [word?_of_endsWord hrest.endsWord]
    rfl
  unfold binary
  rw [bind_of_ok hread]
  apply repeated_inr
  dsimp only
  rw [semicolonOmitted_bind]
  split
  . rfl
  . rw [peekPunctuator_bind, hrest.skipTrivia_eq]
    have hlevel : precedence (punctuator rest) = 0 := by
      obtain hp | hp | hp | hp := hrest.punctuator_eq
      all_goals
        rw [hp]
        rfl
    dsimp only
    rw [hlevel, if_neg (Nat.lt_irrefl 0), peekWord_bind, hrest.skipTrivia_eq, hword]
    rfl

theorem expressionRule_of_binary (hread : r.binary context c = .ok (t, ⟨rest, o⟩))
    (hrest : Stops rest) : r.expressionRule context c = .ok (t, ⟨rest, o⟩) := by
  unfold expressionRule
  rw [atOperand_bind, bind_of_ok hread]
  split
  . rfl
  . rw [atPunctuator_bind, hrest.skipTrivia_eq]
    obtain hp | hp | hp | hp := hrest.punctuator_eq
    all_goals
      rw [hp]
      rfl

/--
An operand on its own is an expression.
-/
theorem expressionRule_of_primary (hc : LexemeAt c d) (hd : StartsLiteral d)
    (hread : r.primary context c = .ok (t, ⟨rest, o⟩)) (hrest : Stops rest) :
    r.expressionRule context c = .ok (t, ⟨rest, o⟩) := by
  apply expressionRule_of_binary ?_ hrest
  apply binary_of_operand ?_ hrest
  apply operand_of_suffixed hc hd
  exact suffixed_of_primary hread hrest

end Rules

end ComponentDoc.Script
