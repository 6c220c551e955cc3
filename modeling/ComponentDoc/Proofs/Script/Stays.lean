import ComponentDoc.Proofs.Cursor
import ComponentDoc.Proofs.Script.Names
import ComponentDoc.Proofs.Script.Parser

/-!
Parsers stay on their source. From a place of the source they go to places that are not before it,
also where they look ahead and go back, and the trees they give have no name without a text. What
a result has to satisfy goes by its type; a parser is then put together from parsers that stay.
-/

namespace ComponentDoc.Script

open ComponentDoc.Script.Parser

variable {source : List Char} {low : Nat}

/--
What the results of parsers have to satisfy: places lie on the source, at or behind an offset, and
names in trees cover some of it.
-/
class Placed (α : Type) where
  placed : List Char → Nat → α → Prop

export Placed (placed)

section Results

variable {α β : Type} [Placed α] [Placed β]

instance : Placed Cursor :=
  ⟨fun source low c => c.Within source low⟩

instance : Placed Tree :=
  ⟨fun source _ t => t.NamesCover source⟩

instance : Placed PUnit :=
  ⟨fun _ _ _ => True⟩

instance : Placed Bool :=
  ⟨fun _ _ _ => True⟩

instance : Placed Nat :=
  ⟨fun _ _ _ => True⟩

instance : Placed String :=
  ⟨fun _ _ _ => True⟩

/--
The kind of a tree that stands for no name.
-/
instance : Placed Kind :=
  ⟨fun _ _ kind => kind ≠ .shorthand⟩

instance : Placed (Option α) :=
  ⟨fun source low found => ∀ a, found = some a → placed source low a⟩

instance : Placed (List α) :=
  ⟨fun source low items => ∀ a ∈ items, placed source low a⟩

instance : Placed (α × β) :=
  ⟨fun source low both => placed source low both.1 ∧ placed source low both.2⟩

instance : Placed (α ⊕ β) :=
  ⟨fun source low => Sum.elim (placed source low) (placed source low)⟩

@[grind =]
theorem placed_cursor (c : Cursor) : placed source low c ↔ c.Within source low :=
  Iff.rfl

@[grind =]
theorem placed_tree (t : Tree) : placed source low t ↔ t.NamesCover source :=
  Iff.rfl

@[grind ←]
theorem placed_unit (u : PUnit) : placed source low u :=
  trivial

@[grind ←]
theorem placed_bool (b : Bool) : placed source low b :=
  trivial

@[grind ←]
theorem placed_nat (n : Nat) : placed source low n :=
  trivial

@[grind ←]
theorem placed_string (s : String) : placed source low s :=
  trivial

@[grind =]
theorem placed_kind (kind : Kind) : placed source low kind ↔ kind ≠ .shorthand :=
  Iff.rfl

@[grind ←]
theorem placed_none : placed source low (none : Option α) :=
  nofun

@[grind =]
theorem placed_some (a : α) : placed source low (some a) ↔ placed source low a := by
  simp [placed]

@[grind =]
theorem placed_pair (both : α × β) :
    placed source low both ↔ placed source low both.1 ∧ placed source low both.2 :=
  Iff.rfl

@[grind =]
theorem placed_inl (a : α) : placed source low (Sum.inl a : α ⊕ β) ↔ placed source low a :=
  Iff.rfl

@[grind =]
theorem placed_inr (b : β) : placed source low (Sum.inr b : α ⊕ β) ↔ placed source low b :=
  Iff.rfl

@[grind ←]
theorem placed_nil : placed source low ([] : List α) :=
  nofun

@[grind =]
theorem placed_cons (a : α) (items : List α) :
    placed source low (a :: items) ↔ placed source low a ∧ placed source low items := by
  simp [placed]

@[grind =]
theorem placed_append (items others : List α) :
    placed source low (items ++ others) ↔ placed source low items ∧ placed source low others := by
  simp [placed, or_imp, forall_and]

@[grind =]
theorem placed_reverse (items : List α) :
    placed source low items.reverse ↔ placed source low items := by
  simp [placed]

end Results

section Lexemes

variable {c d : Cursor} {word : String} {markup : Bool}

theorem within_skipTriviaFrom {cs : List Char} {skip o : Nat}
    (h : (⟨cs, o⟩ : Cursor).Within source low) :
    (skipTriviaFrom markup skip o cs).Within source low := by
  induction cs generalizing skip o with
  | nil => exact h
  | cons x cs ih =>
    unfold skipTriviaFrom
    split
    . exact ih h.next
    . split
      . exact ih h.next
      . split
        . exact ih h.next
        . exact h

@[grind ←]
theorem within_skipTrivia (h : c.Within source low) : (skipTrivia markup c).Within source low :=
  within_skipTriviaFrom h

@[grind →]
theorem within_of_word? (h : c.Within source low) (hword : word? c = some (word, d)) :
    d.Within source low := by
  unfold word? at hword
  dsimp only at hword
  split at hword
  . cases hword
  . cases hword
    exact h.advance _

theorem placed_comments (c : Cursor) : placed source low (trivia markup c).1 :=
  fun _ ht => namesCover_commentsFrom ht

end Lexemes

/--
Whether a parser stays on a source: from a place at or behind an offset it goes to such a place,
with a result of such places and of names that cover some of the source.
-/
structure Stays {α : Type} [Placed α] (source : List Char) (low : Nat) (p : Parser α) : Prop where
  placed_of_ok : ∀ c a d, c.Within source low → p c = .ok (a, d) →
    d.Within source low ∧ placed source low a

section Combinators

variable {α β γ : Type} [Placed α] [Placed β] [Placed γ]
variable {p q : Parser α} {f : α → Parser β} {c : Cursor}

@[grind ←]
theorem stays_pure {a : α} (h : placed source low a) : Stays source low (pure a : Parser α) where
  placed_of_ok c a d hc hok := by
    cases hok
    exact ⟨hc, h⟩

@[grind ←]
theorem stays_bind (hp : Stays source low p)
    (hf : ∀ a, placed source low a → Stays source low (f a)) :
    Stays source low (p >>= f) where
  placed_of_ok c b e hc hok := by
    obtain ⟨a, d, hpa, hfa⟩ := bind_eq_ok hok
    obtain ⟨hd, ha⟩ := hp.placed_of_ok c a d hc hpa
    exact (hf a ha).placed_of_ok d b e hd hfa

@[grind ←]
theorem stays_throw (fault : Fault) : Stays source low (throw fault : Parser α) where
  placed_of_ok c a d hc hok := by
    cases hok

@[grind ←]
theorem stays_get : Stays source low (get : Parser Cursor) where
  placed_of_ok c a d hc hok := by
    cases hok
    exact ⟨hc, hc⟩

@[grind ←]
theorem stays_set (h : c.Within source low) : Stays source low (set c : Parser PUnit) where
  placed_of_ok c a d hc hok := by
    cases hok
    exact ⟨h, trivial⟩

@[grind ←]
theorem stays_unexpected : Stays source low (unexpected : Parser α) := by
  unfold unexpected
  grind

@[grind ←]
theorem stays_comments : Stays source low comments where
  placed_of_ok c trees d hc hok := by
    cases hok
    exact ⟨within_skipTrivia hc, placed_comments c⟩

@[grind ←]
theorem stays_orElse (hp : Stays source low p) (hq : Stays source low q) :
    Stays source low (orElse p q) where
  placed_of_ok c a d hc hok := by
    unfold orElse at hok
    split at hok
    . next hpc =>
      cases hok
      exact hp.placed_of_ok c a d hc hpc
    . split at hok
      . next hqc =>
        cases hok
        exact hq.placed_of_ok c a d hc hqc
      . cases hok

@[grind ←]
theorem stays_orRetry (hp : Stays source low p) (hq : Stays source low q) :
    Stays source low (orRetry p q) where
  placed_of_ok c a d hc hok := by
    unfold orRetry at hok
    split at hok
    . next hpc =>
      cases hok
      exact hp.placed_of_ok c a d hc hpc
    . split at hok
      . next hqc =>
        cases hok
        exact hq.placed_of_ok c a d hc hqc
      . cases hok

@[grind ←]
theorem stays_optional (hp : Stays source low p) : Stays source low (optional p) where
  placed_of_ok c a d hc hok := by
    unfold Parser.optional at hok
    split at hok
    . next hpc =>
      cases hok
      obtain ⟨hd, ha⟩ := hp.placed_of_ok c _ _ hc hpc
      exact ⟨hd, (placed_some _).2 ha⟩
    . cases hok
      exact ⟨hc, placed_none⟩

@[grind ←]
theorem stays_succeeds {δ : Type} (p : Parser δ) : Stays source low (succeeds p) where
  placed_of_ok c a d hc hok := by
    unfold Parser.succeeds at hok
    split at hok
    . cases hok
      exact ⟨hc, trivial⟩
    . cases hok
      exact ⟨hc, trivial⟩

theorem stays_loop {step : β → Parser (β ⊕ γ)}
    (hstep : ∀ b, placed source low b → Stays source low (step b)) (fuel : List Char) {b : β}
    (hb : placed source low b) : Stays source low (loop step fuel b) := by
  induction fuel generalizing b with
  | nil => exact stays_unexpected
  | cons x fuel ih =>
    apply stays_bind (hstep b hb)
    intro round hround
    cases round with
    | inl b => exact ih hround
    | inr result => exact stays_pure hround

@[grind ←]
theorem stays_repeated {step : β → Parser (β ⊕ γ)}
    (hstep : ∀ b, placed source low b → Stays source low (step b)) {b : β}
    (hb : placed source low b) : Stays source low (repeated step b) := by
  apply stays_bind stays_get
  intro c _
  exact stays_loop hstep _ hb

end Combinators

section Lexemes

variable {word : String} {x : Char} {dialect : Dialect} {context : SemicolonContext}

@[grind ←]
theorem stays_atLexeme : Stays source low atLexeme := by
  unfold atLexeme
  grind

@[grind ←]
theorem stays_atOperand : Stays source low atOperand := by
  unfold atOperand
  grind

@[grind ←]
theorem stays_peekPunctuator : Stays source low peekPunctuator := by
  unfold peekPunctuator
  grind

@[grind ←]
theorem stays_peekWord : Stays source low peekWord := by
  unfold peekWord
  grind

@[grind ←]
theorem stays_atPunctuator : Stays source low (atPunctuator word) := by
  unfold atPunctuator
  grind

@[grind ←]
theorem stays_atWord : Stays source low (atWord word) := by
  unfold atWord
  grind

@[grind ←]
theorem stays_eat : Stays source low (eat word) := by
  unfold eat
  grind

@[grind ←]
theorem stays_expect : Stays source low (expect word) := by
  unfold expect
  grind

@[grind ←]
theorem stays_expectChar : Stays source low (expectChar x) := by
  unfold expectChar
  grind

@[grind ←]
theorem stays_atChar : Stays source low (atChar x) := by
  unfold atChar
  grind

@[grind ←]
theorem stays_eatWord : Stays source low (eatWord word) := by
  unfold eatWord
  grind

@[grind ←]
theorem stays_expectWord : Stays source low (expectWord word) := by
  unfold expectWord
  grind

@[grind ←]
theorem stays_anyWord : Stays source low anyWord := by
  unfold anyWord
  grind

@[grind ←]
theorem stays_afterWord : Stays source low afterWord := by
  unfold afterWord
  grind

@[grind ←]
theorem stays_afterLineBreak : Stays source low afterLineBreak := by
  unfold afterLineBreak
  grind

@[grind ←]
theorem stays_semicolon : Stays source low (semicolon dialect context) := by
  unfold semicolon
  grind

@[grind ←]
theorem stays_semicolonOmitted : Stays source low (semicolonOmitted dialect context) := by
  unfold semicolonOmitted
  grind

end Lexemes

section Trees

variable {kind : Kind} {start n : Nat} {parts : List Tree} {c : Cursor}

theorem not_isName_plain {span : Span} (hkind : kind ≠ .shorthand) :
    ¬ Tree.IsName (.node ⟨kind, .plain⟩ span parts) := by
  rintro (hkey | hshorthand)
  . cases hkey
  . cases hshorthand
    exact hkind rfl

@[grind ←]
theorem stays_node (hkind : kind ≠ .shorthand) (hparts : placed source low parts) :
    Stays source low (node kind start parts) := by
  apply stays_bind stays_get
  intro c _
  apply stays_pure
  exact Tree.namesCover_node (fun hname => absurd hname (not_isName_plain hkind)) hparts

@[grind ←]
theorem stays_leafAt (hc : c.Within source low) (hkind : kind ≠ .shorthand) :
    Stays source low (leafAt kind c n) := by
  apply stays_bind (stays_set (hc.advance n))
  intro _ _
  apply stays_pure
  exact Tree.namesCover_node (fun hname => absurd hname (not_isName_plain hkind))
    (List.forall_mem_nil _)

@[grind ←]
theorem stays_stringLiteral : Stays source low stringLiteral := by
  unfold stringLiteral
  grind

end Trees

section Lists

variable {α : Type} [Placed α] {item : Parser α} {close : String}

@[grind ←]
theorem stays_sparseList (h : Stays source low item) :
    Stays source low (sparseList item close) := by
  apply stays_repeated ?_ placed_nil
  grind

@[grind ←]
theorem stays_commaList (h : Stays source low item) : Stays source low (commaList item close) := by
  apply stays_repeated ?_ placed_nil
  grind

@[grind ←]
theorem stays_commaSeparated (h : Stays source low item) :
    Stays source low (commaSeparated item) := by
  apply stays_repeated ?_ placed_nil
  grind

end Lists

end ComponentDoc.Script
