import ComponentDoc.Proofs.Script.Stays
import ComponentDoc.Script.Binding

/-!
Names of properties, types and patterns stay on their source, given that the rules they use for
their parts do. The name of a property always covers some of the source. Where a rule is long, its
front is taken apart step by step; the lemmas on its parts carry what is left.
-/

namespace ComponentDoc.Script

open ComponentDoc.Script.Parser

variable {source : List Char} {low : Nat}

/--
Whether the rules that other rules use for their parts stay on a source.
-/
structure Rules.Stay (source : List Char) (r : Rules) : Prop where
  expression : ∀ low context, Stays source low (r.expression context)
  statement : ∀ low, Stays source low r.statement
  type : ∀ low, Stays source low r.type
  pattern : ∀ low, Stays source low r.pattern
  element : ∀ low, Stays source low r.element
  constructed : ∀ low, Stays source low r.constructed

attribute [grind ←] Rules.Stay.expression Rules.Stay.statement Rules.Stay.type Rules.Stay.pattern
  Rules.Stay.element Rules.Stay.constructed

section Covering

variable {kind : Kind} {n : Nat} {c d e : Cursor} {t : Tree}

theorem covers_of_leafAt (hc : c.Within source low) (hn : 0 < n) (hrest : c.rest ≠ [])
    (hok : leafAt kind c n d = .ok (t, e)) : t.Covers source := by
  rw [leafAt_apply] at hok
  cases hok
  obtain ⟨rest, o⟩ := c
  cases rest with
  | nil => exact absurd rfl hrest
  | cons x rest => exact Tree.covers_of_lt (hc.raise hn).le hc.lt_length

theorem stringLength?_eq_some {cs : List Char} (h : stringLength? cs = some n) :
    0 < n ∧ cs ≠ [] := by
  unfold stringLength? at h
  split at h
  . obtain ⟨_, _, rfl⟩ := Option.map_eq_some_iff.1 h
    exact ⟨Nat.succ_pos _, nofun⟩
  . obtain ⟨_, _, rfl⟩ := Option.map_eq_some_iff.1 h
    exact ⟨Nat.succ_pos _, nofun⟩
  . cases h

theorem covers_of_stringLiteral (hc : c.Within source low) (hok : stringLiteral c = .ok (t, d)) :
    t.Covers source := by
  unfold stringLiteral at hok
  rw [atOperand_bind] at hok
  cases hn : stringLength? (skipTrivia true c).rest with
  | some n =>
    rw [hn] at hok
    obtain ⟨hpos, hrest⟩ := stringLength?_eq_some hn
    exact covers_of_leafAt (within_skipTrivia hc) hpos hrest hok
  | none =>
    rw [hn] at hok
    dsimp only at hok
    split at hok
    . cases hok
    . cases hok

end Covering

variable {r : Rules}

namespace Rules

section Names

variable {modifiers : List String}

@[grind ←]
theorem stays_propertyName (h : r.Stay source) : Stays source low r.propertyName := by
  unfold propertyName
  apply stays_bind stays_atOperand
  intro c hc
  split
  . apply stays_bind (stays_set (hc.advance 1))
    grind
  . grind
  . grind
  . grind
  . grind

theorem covers_of_propertyName (h : r.Stay source) {c d : Cursor} {t : Tree}
    (hc : c.Within source low) (hok : r.propertyName c = .ok (t, d)) : t.Covers source := by
  unfold propertyName at hok
  rw [atOperand_bind] at hok
  have hstart : (skipTrivia true c).Within source low := within_skipTrivia hc
  generalize skipTrivia true c = start at hok hstart
  obtain ⟨rest, o⟩ := start
  dsimp only at hok
  split at hok
  . next rest =>
    rw [set_bind] at hok
    obtain ⟨value, e, hvalue, hok⟩ := bind_eq_ok hok
    obtain ⟨_, e', hexpect, hok⟩ := bind_eq_ok hok
    cases hok
    -- What stands behind the bracket lies behind its offset.
    have he := ((h.expression (o + 1) {}).placed_of_ok _ _ _ (hstart.raise Nat.one_pos) hvalue).1
    have he' := (stays_expect.placed_of_ok _ _ _ he hexpect).1
    exact Tree.covers_of_lt he'.le hstart.lt_length
  . exact covers_of_stringLiteral hc hok
  . exact covers_of_stringLiteral hc hok
  . split at hok
    . cases hok
    . exact covers_of_leafAt hstart (Nat.succ_pos _) nofun hok
  . split at hok
    . next hword =>
      apply covers_of_leafAt hstart hword ?_ hok
      rintro rfl
      exact absurd hword (Nat.lt_irrefl 0)
    . split at hok
      . next hnumber =>
        apply covers_of_leafAt hstart hnumber ?_ hok
        rintro rfl
        exact absurd hnumber (Nat.lt_irrefl 0)
      . cases hok

/--
What is read behind the name of a property may rely on the name covering some of the source.
-/
theorem stays_named {α : Type} [Placed α] (h : r.Stay source) {f : Tree → Parser α}
    (hf : ∀ name, name.NamesCover source → name.Covers source → Stays source low (f name)) :
    Stays source low (r.propertyName >>= f) where
  placed_of_ok c a e hc hok := by
    obtain ⟨name, d, hname, hrest⟩ := bind_eq_ok hok
    obtain ⟨hd, hcover⟩ := (stays_propertyName h).placed_of_ok c name d hc hname
    exact (hf name hcover (covers_of_propertyName h hc hname)).placed_of_ok d a e hd hrest

@[grind ←]
theorem stays_atModifier : Stays source low (atModifier modifiers) := by
  unfold atModifier
  grind

@[grind ←]
theorem stays_skipModifiers : Stays source low (skipModifiers modifiers) := by
  unfold skipModifiers
  grind

end Names

section Types

variable {w : String}

@[grind ←]
theorem stays_typeMark (h : r.Stay source) : Stays source low r.typeMark := by
  unfold typeMark
  grind

@[grind ←]
theorem stays_typeParameters (h : r.Stay source) : Stays source low r.typeParameters := by
  unfold typeParameters
  apply stays_bind stays_atPunctuator
  intro present _
  split
  . apply stays_bind stays_expect
    intro _ _
    apply stays_repeated ?_ trivial
    intro _ _
    apply stays_bind stays_atChar
    intro closed _
    split
    . grind
    . apply stays_bind stays_atModifier
      intro marked _
      extract_lets rest
      have hrest : ∀ u, Stays source low (rest u) := by
        intro u
        unfold rest
        grind
      grind
  . grind

@[grind ←]
theorem stays_typeArguments (h : r.Stay source) : Stays source low r.typeArguments := by
  unfold typeArguments
  grind

@[grind ←]
theorem stays_decorators (h : r.Stay source) : Stays source low r.decorators := by
  unfold decorators
  apply stays_repeated ?_ trivial
  intro _ _
  apply stays_bind stays_eat
  intro marked _
  split
  . apply stays_bind stays_eat
    intro bracketed _
    split
    . grind
    . apply stays_bind stays_anyWord
      intro _ _
      apply stays_bind (stays_repeated ?_ trivial)
      . grind
      . grind
  . grind

@[grind ←]
theorem stays_parameter (h : r.Stay source) : Stays source low r.parameter := by
  unfold parameter
  extract_lets rest
  have hrest : ∀ u, Stays source low (rest u) := by
    intro u
    unfold rest
    grind
  split
  . apply stays_bind (stays_decorators h)
    intro _ _
    apply stays_bind (stays_repeated ?_ trivial)
    . grind
    . grind
  . grind

@[grind ←]
theorem stays_parameters (h : r.Stay source) : Stays source low r.parameters := by
  unfold parameters
  grind

@[grind ←]
theorem stays_returnType (h : r.Stay source) : Stays source low r.returnType := by
  unfold returnType
  grind

@[grind ←]
theorem stays_callSignature (h : r.Stay source) : Stays source low r.callSignature := by
  unfold callSignature
  grind

@[grind ←]
theorem stays_functionType (h : r.Stay source) : Stays source low r.functionType := by
  unfold functionType
  grind

@[grind ←]
theorem stays_bracketedKey (h : r.Stay source) : Stays source low r.bracketedKey := by
  unfold bracketedKey
  grind

@[grind ←]
theorem stays_mappedSign : Stays source low mappedSign := by
  unfold mappedSign
  grind

@[grind ←]
theorem stays_typeMember (h : r.Stay source) : Stays source low r.typeMember := by
  unfold typeMember
  extract_lets call construct bracket index named
  have hconstruct : Stays source low construct := by
    unfold construct
    grind
  have hindex : Stays source low index := by
    unfold index bracket
    grind
  have hnamed : Stays source low named := by
    unfold named
    grind
  have hcall : Stays source low call := stays_callSignature h
  grind

@[grind ←]
theorem stays_objectType (h : r.Stay source) : Stays source low r.objectType := by
  unfold objectType
  apply stays_bind stays_expect
  intro _ _
  apply stays_bind stays_eat
  intro _ _
  apply stays_repeated ?_ trivial
  intro _ _
  apply stays_bind stays_eat
  intro closed _
  split
  . grind
  . apply stays_bind stays_eat
    intro ended _
    apply stays_bind stays_eat
    intro separated _
    split
    . grind
    . apply stays_bind stays_eat
      intro exact_ _
      split
      . grind
      . grind

@[grind ←]
theorem stays_tupleMember (h : r.Stay source) : Stays source low r.tupleMember := by
  unfold tupleMember
  grind

@[grind ←]
theorem stays_templateType (h : r.Stay source) : Stays source low r.templateType := by
  unfold templateType
  apply stays_repeated ?_ trivial
  intro _ _
  apply stays_bind stays_get
  intro c hc
  split
  all_goals grind

@[grind ←]
theorem stays_typeName (h : r.Stay source) : Stays source low r.typeName := by
  unfold typeName
  apply stays_bind stays_anyWord
  intro _ _
  apply stays_bind (stays_repeated ?_ trivial)
  . grind
  . grind

@[grind ←]
theorem stays_wordType (h : r.Stay source) : Stays source low (r.wordType w) := by
  unfold wordType
  split
  . grind
  . split
    . apply stays_bind stays_expectWord
      intro _ _
      apply stays_bind stays_expect
      intro _ _
      apply stays_bind (stays_commaList _)
      . intro _ _
        apply stays_bind (stays_repeated ?_ trivial)
        . grind
        . grind
      . grind
    . split
      . apply stays_bind stays_afterWord
        rintro ⟨p, v⟩ _
        dsimp only
        split
        . apply stays_bind stays_anyWord
          intro _ _
          split
          . apply stays_bind stays_anyWord
            intro _ _
            apply stays_bind stays_get
            grind
          . grind
        . grind
      . grind

@[grind ←]
theorem stays_primaryType (h : r.Stay source) : Stays source low r.primaryType := by
  unfold primaryType
  grind

@[grind ←]
theorem stays_suffixedType (h : r.Stay source) : Stays source low r.suffixedType := by
  unfold suffixedType
  apply stays_bind (stays_primaryType h)
  intro _ _
  apply stays_repeated ?_ trivial
  grind

@[grind ←]
theorem stays_typeRule (h : r.Stay source) : Stays source low r.typeRule := by
  unfold typeRule
  extract_lets rest
  have hrest : ∀ u, Stays source low (rest u) := by
    intro u
    unfold rest
    apply stays_bind (stays_suffixedType h)
    intro _ _
    apply stays_bind (stays_repeated ?_ trivial)
    . intro _ _
      apply stays_bind stays_atWord
      intro conditional _
      split
      . apply stays_bind (stays_optional ?_)
        . grind
        . grind
      . grind
    . grind
  clear_value rest
  grind

end Types

section Patterns

@[grind ←]
theorem stays_defaultValue (h : r.Stay source) : Stays source low r.defaultValue := by
  unfold defaultValue
  grind

@[grind ←]
theorem stays_objectPatternMember (h : r.Stay source) : Stays source low r.objectPatternMember := by
  unfold objectPatternMember
  grind

@[grind ←]
theorem stays_arrayPatternItem (h : r.Stay source) : Stays source low r.arrayPatternItem := by
  unfold arrayPatternItem
  grind

@[grind ←]
theorem stays_patternAccess (h : r.Stay source) : Stays source low r.patternAccess := by
  unfold patternAccess
  apply stays_repeated ?_ trivial
  intro _ _
  apply stays_bind stays_eat
  intro dotted _
  apply stays_bind stays_eat
  intro optional_ _
  split
  . grind
  . grind

@[grind ←]
theorem stays_patternRule (h : r.Stay source) : Stays source low r.patternRule := by
  unfold patternRule
  grind

end Patterns

end Rules

end ComponentDoc.Script
