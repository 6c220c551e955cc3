import ComponentDoc.Proofs.Script.Expression
import ComponentDoc.Proofs.Script.Shape

/-!
Reading the printed literals that are one lexeme. `ReadsLiteral` says that the rules read a literal
back wherever it may stand; names, strings and booleans are read by the rule for operands.
-/

namespace ComponentDoc.Script

open ComponentDoc.Script.Parser

variable {source rest : List Char} {o : Nat} {c : Cursor} {r : Rules} {context : Context}

def ReadsLiteral (source : List Char) (r : Rules) (e : Literal) : Prop :=
  ∀ (context : Context) (rest : List Char) (o : Nat) (c : Cursor), Stops rest →
    source.drop o = e.print ++ rest → LexemeAt c ⟨e.print ++ rest, o⟩ →
      ∃ t, r.expression context c = .ok (t, ⟨rest, o + e.print.length⟩) ∧
        ShowsLiteral source t ⟨o, o + e.print.length⟩ e

section Starts

theorem startsLiteral_of_head {x : Char} (hx : startsLexeme x = true)
    (hends : isWordChar x = false ∧ x ≠ '\\') {rest : List Char}
    (hpunctuator : punctuator (x :: rest) = "" ∨ punctuator (x :: rest) = "\x7b" ∨
      punctuator (x :: rest) = "[") (o : Nat) : StartsLiteral ⟨x :: rest, o⟩ := by
  have hword : word? ⟨x :: rest, o⟩ = none := by
    apply word?_of_endsWord
    intro y hy
    cases hy
    exact hends
  refine ⟨fun markup => skipTrivia_of_head hx markup _ _, trivia_of_head hx _ _ _, ?_,
    hpunctuator, ?_⟩
  . intro hangle
    cases hangle
    cases hx
  . intro w d h
    rw [hword] at h
    cases h

theorem startsLiteral_of_name {name : List Char} (hname : IsName name) (hrest : EndsWord rest)
    (hfree : String.ofList name ∉ leadingWords) (o : Nat) :
    StartsLiteral ⟨name ++ rest, o⟩ := by
  have hword := hname.word?_eq hrest o
  obtain ⟨x, tail, rfl, hx⟩ := hname.exists_cons
  refine ⟨?_, trivia_of_head (startsLexeme_of_isNameStart hx) _ _ _, ?_, ?_, ?_⟩
  . intro markup
    exact skipTrivia_of_head (startsLexeme_of_isNameStart hx) _ _ _
  . have hangle : x ≠ '<' := ne_of_isNameStart hx rfl
    simp [Cursor.peek?, hangle]
  . exact Or.inl (punctuator_of_isNameStart hx _)
  . intro w d h
    rw [hword] at h
    cases h
    exact hfree

theorem isName_printBoolean (value : Bool) : IsName (printBoolean value) := by
  cases value with
  | false => exact ⟨⟨_, rfl, rfl⟩, by decide⟩
  | true => exact ⟨⟨_, rfl, rfl⟩, by decide⟩

theorem startsLiteral_print {e : Literal} (he : e.Valid) (hrest : Stops rest) (o : Nat) :
    StartsLiteral ⟨e.print ++ rest, o⟩ := by
  cases e with
  | object entries =>
    rw [Literal.print, printBracketed_append]
    exact startsLiteral_of_head rfl (by decide) (Or.inr (Or.inl rfl)) _
  | array items =>
    rw [Literal.print, printBracketed_append]
    exact startsLiteral_of_head rfl (by decide) (Or.inr (Or.inr rfl)) _
  | identifier name =>
    rw [Literal.Valid] at he
    rw [Literal.print]
    apply startsLiteral_of_name he.isName hrest.endsWord
    rw [String.ofList_toList]
    have hkeywords : ∀ w ∈ leadingWords, w ∈ keywords := by
      decide
    exact fun hmem => he.free (hkeywords name hmem)
  | string quote text =>
    rw [Literal.Valid] at he
    rw [Literal.print, printString, List.cons_append]
    obtain rfl | rfl := he.1
    . exact startsLiteral_of_head rfl (by decide) (Or.inl rfl) _
    . exact startsLiteral_of_head rfl (by decide) (Or.inl rfl) _
  | boolean value =>
    rw [Literal.print]
    apply startsLiteral_of_name (isName_printBoolean value) hrest.endsWord
    cases value with
    | false => decide
    | true => decide

theorem print_length_pos {e : Literal} (he : e.Valid) : 0 < e.print.length := by
  cases e with
  | object entries =>
    rw [Literal.print]
    exact Nat.succ_pos _
  | array items =>
    rw [Literal.print]
    exact Nat.succ_pos _
  | identifier name =>
    rw [Literal.Valid] at he
    obtain ⟨x, tail, hname, _⟩ := he.isName.exists_cons
    rw [Literal.print, hname]
    exact Nat.succ_pos _
  | string quote text =>
    rw [Literal.print]
    exact Nat.succ_pos _
  | boolean value =>
    rw [Literal.print]
    cases value with
    | false => decide
    | true => decide

end Starts

namespace Rules

section Operands

theorem primary_of_name {name : List Char} (hname : IsName name) (hrest : EndsWord rest)
    (hc : LexemeAt c ⟨name ++ rest, o⟩) :
    r.primary context c = r.wordOperand (String.ofList name) context ⟨name ++ rest, o⟩ := by
  have hword := hname.word?_eq hrest o
  have hne : String.ofList name ≠ "" := by
    obtain ⟨x, tail, rfl, _⟩ := hname.exists_cons
    simp
  obtain ⟨x, tail, rfl, hx⟩ := hname.exists_cons
  have hnumber := numberLength_of_isNameStart hx (tail ++ rest)
  rw [List.cons_append] at hword hc ⊢
  unfold primary
  rw [atOperand_bind, hc, set_bind]
  refine run_congr (q := r.wordOperand (String.ofList (x :: tail)) context) ?_ rfl
  split
  all_goals first
    | next heq =>
      cases heq
      cases hx
    | skip
  rw [hnumber, if_neg (Nat.lt_irrefl 0), primary.peekWordAt, hword, pure_bind, if_neg]
  . rfl
  . rw [beq_iff_eq]
    exact hne

theorem wordOperand_of_free {w : String} (h : w ∉ keywords) (c : Cursor) :
    r.wordOperand w context c = r.nameOrArrow context c := by
  obtain ⟨cs, o⟩ := c
  unfold wordOperand
  rw [atOperand_bind]
  refine run_congr (q := r.nameOrArrow context) ?_ rfl
  split
  all_goals first
    | rfl
    | exact absurd (by decide) h

theorem leafWord_eq {name : List Char} (hname : IsName name) (hrest : EndsWord rest)
    (hc : LexemeAt c ⟨name ++ rest, o⟩) (kind : Kind) :
    leafWord kind c =
      .ok (.node ⟨kind, .plain⟩ ⟨o, o + name.length⟩ [], ⟨rest, o + name.length⟩) := by
  unfold leafWord
  rw [atOperand_bind, hc, hname.wordLength_eq hrest, leafAt_append]

theorem nameOrArrow_eq {name : List Char} (hname : IsName name) (hrest : Stops rest)
    (hc : LexemeAt c ⟨name ++ rest, o⟩) :
    r.nameOrArrow context c =
      .ok (.node ⟨.identifier, .plain⟩ ⟨o, o + name.length⟩ [], ⟨rest, o + name.length⟩) := by
  have harrow : punctuator (skipTrivia false ⟨rest, o + name.length⟩).rest ≠ "=>" := by
    rw [hrest.skipTrivia_eq]
    obtain hp | hp | hp | hp := hrest.punctuator_eq
    all_goals
      rw [hp]
      decide
  unfold nameOrArrow
  rw [atOperand_bind, bind_of_ok (leafWord_eq hname hrest.endsWord hc .identifier),
    bind_of_ok (eat_of_ne harrow)]
  rfl

theorem wordOperand_boolean (value : Bool) (c : Cursor) :
    r.wordOperand (String.ofList (printBoolean value)) context c =
      leafWord (if value then .trueLiteral else .falseLiteral) c := by
  cases value with
  | false => rfl
  | true => rfl

theorem stringLiteral_print {quote : Char} {text : String} (htext : ValidString text)
    (hquote : quote = '"' ∨ quote = '\'') (hc : LexemeAt c ⟨printString quote text ++ rest, o⟩) :
    stringLiteral c =
      .ok (.node ⟨.string, .plain⟩ ⟨o, o + (printString quote text).length⟩ [],
        ⟨rest, o + (printString quote text).length⟩) := by
  unfold stringLiteral
  rw [atOperand_bind, hc, stringLength?_print htext hquote]
  dsimp only
  rw [leafAt_append]

theorem primary_of_quote {quote : Char} {text : String} (hquote : quote = '"' ∨ quote = '\'')
    (hc : LexemeAt c ⟨printString quote text ++ rest, o⟩) :
    r.primary context c = stringLiteral ⟨printString quote text ++ rest, o⟩ := by
  unfold primary
  rw [atOperand_bind, hc, set_bind]
  obtain rfl | rfl := hquote
  . rfl
  . rfl

theorem bracketed_of_ok {literal : Parser Tree} {t : Tree}
    (hread : literal c = .ok (t, ⟨rest, o⟩)) (hrest : Stops rest) :
    r.bracketed literal context c = .ok (t, ⟨rest, o⟩) := by
  unfold bracketed
  rw [atOperand_bind]
  apply orRetry_of_ok
  rw [bind_of_ok hread, atPunctuator_bind, hrest.skipTrivia_eq]
  obtain hp | hp | hp | hp := hrest.punctuator_eq
  all_goals
    rw [hp]
    rfl

end Operands

section Values

theorem primary_identifier {name : String} (hname : ValidName name) (hrest : Stops rest)
    (hsource : source.drop o = (Literal.identifier name).print ++ rest)
    (hc : LexemeAt c ⟨(Literal.identifier name).print ++ rest, o⟩) :
    ∃ t, r.primary context c = .ok (t, ⟨rest, o + (Literal.identifier name).print.length⟩) ∧
      ShowsLiteral source t ⟨o, o + (Literal.identifier name).print.length⟩
        (.identifier name) := by
  rw [Literal.print] at hsource hc ⊢
  refine ⟨_, ?_, showsLiteral_identifier (Span.text_of_drop hsource)⟩
  rw [primary_of_name hname.isName hrest.endsWord hc, String.ofList_toList,
    wordOperand_of_free hname.free, nameOrArrow_eq hname.isName hrest hc.self]

theorem primary_boolean {value : Bool} (hrest : Stops rest)
    (hc : LexemeAt c ⟨(Literal.boolean value).print ++ rest, o⟩) :
    ∃ t, r.primary context c = .ok (t, ⟨rest, o + (Literal.boolean value).print.length⟩) ∧
      ShowsLiteral source t ⟨o, o + (Literal.boolean value).print.length⟩ (.boolean value) := by
  have hname := isName_printBoolean value
  rw [Literal.print] at hc ⊢
  refine ⟨_, ?_, showsLiteral_boolean value _⟩
  rw [primary_of_name hname hrest.endsWord hc, wordOperand_boolean,
    leafWord_eq hname hrest.endsWord hc.self]

theorem primary_string {quote : Char} {text : String} (hquote : quote = '"' ∨ quote = '\'')
    (htext : ValidString text)
    (hsource : source.drop o = (Literal.string quote text).print ++ rest)
    (hc : LexemeAt c ⟨(Literal.string quote text).print ++ rest, o⟩) :
    ∃ t, r.primary context c = .ok (t, ⟨rest, o + (Literal.string quote text).print.length⟩) ∧
      ShowsLiteral source t ⟨o, o + (Literal.string quote text).print.length⟩
        (.string quote text) := by
  rw [Literal.print] at hsource hc ⊢
  refine ⟨_, ?_, showsLiteral_string hquote (Span.slice_of_drop hsource)⟩
  rw [primary_of_quote hquote hc, stringLiteral_print htext hquote hc.self]

end Values

end Rules

end ComponentDoc.Script
