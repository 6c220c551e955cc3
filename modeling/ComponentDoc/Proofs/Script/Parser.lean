import ComponentDoc.Script.Parser
import ComponentDoc.Proofs.Script.Lexeme

/-!
What the parsers do at a cursor: one equation for each that only looks, and one for each way in
which the others can end. Behind a literal stands the end of the text, a comma or a closing bracket;
there no parser finds anything to go on with.
-/

namespace ComponentDoc.Script.Parser

variable {α β γ : Type} {p q : Parser α} {f : α → Parser β} {c d : Cursor} {a : α}

theorem bind_of_ok (h : p c = .ok (a, d)) : (p >>= f) c = f a d := by
  change StateT.bind p f c = _
  unfold StateT.bind
  rw [h]
  rfl

theorem bind_eq_ok {b : β} {e : Cursor} (h : (p >>= f) c = .ok (b, e)) :
    ∃ a d, p c = .ok (a, d) ∧ f a d = .ok (b, e) := by
  change StateT.bind p f c = _ at h
  unfold StateT.bind at h
  cases hp : p c with
  | error fault =>
    rw [hp] at h
    cases h
  | ok result =>
    rw [hp] at h
    exact ⟨result.1, result.2, rfl, h⟩

theorem run'_of_ok (h : p c = .ok (a, d)) : p.run' c = .ok a := by
  unfold StateT.run'
  rw [h]
  rfl

theorem run'_eq_ok (h : p.run' c = .ok a) : ∃ d, p c = .ok (a, d) := by
  unfold StateT.run' at h
  cases hp : p c with
  | error fault =>
    rw [hp] at h
    cases h
  | ok result =>
    rw [hp] at h
    cases h
    exact ⟨result.2, rfl⟩

theorem run_congr {result : Except Fault (α × Cursor)} (h : p = q) (hq : q c = result) :
    p c = result := by
  rw [h, hq]

@[simp]
theorem get_bind (f : Cursor → Parser β) (c : Cursor) : (get >>= f) c = f c c :=
  rfl

@[simp]
theorem set_bind (d : Cursor) (f : PUnit → Parser β) (c : Cursor) : (set d >>= f) c = f ⟨⟩ d :=
  rfl

section Looking

@[simp]
theorem atOperand_bind (f : Cursor → Parser β) (c : Cursor) :
    (atOperand >>= f) c = f (skipTrivia true c) c :=
  rfl

@[simp]
theorem atLexeme_bind (f : Cursor → Parser β) (c : Cursor) :
    (atLexeme >>= f) c = f (skipTrivia false c) c :=
  rfl

@[simp]
theorem comments_bind (f : List Tree → Parser β) (c : Cursor) :
    (comments >>= f) c = f (trivia true c).1 (trivia true c).2 :=
  rfl

@[simp]
theorem peekPunctuator_bind (f : String → Parser β) (c : Cursor) :
    (peekPunctuator >>= f) c = f (punctuator (skipTrivia false c).rest) c :=
  rfl

@[simp]
theorem atPunctuator_bind (w : String) (f : Bool → Parser β) (c : Cursor) :
    (atPunctuator w >>= f) c = f (punctuator (skipTrivia false c).rest == w) c :=
  rfl

theorem peekWord_apply (c : Cursor) :
    peekWord c = .ok (((word? (skipTrivia false c)).map Prod.fst).getD "", c) := by
  unfold peekWord
  rw [atLexeme_bind]
  cases word? (skipTrivia false c) with
  | none => rfl
  | some found => rfl

@[simp]
theorem peekWord_bind (f : String → Parser β) (c : Cursor) :
    (peekWord >>= f) c = f (((word? (skipTrivia false c)).map Prod.fst).getD "") c :=
  bind_of_ok (peekWord_apply c)

theorem exists_afterWord (c : Cursor) : ∃ next, afterWord c = .ok (next, c) := by
  unfold afterWord
  rw [atLexeme_bind]
  cases word? (skipTrivia false c) with
  | none => exact ⟨_, rfl⟩
  | some found => exact ⟨_, rfl⟩

@[simp]
theorem semicolonOmitted_bind (dialect : Dialect) (context : SemicolonContext)
    (f : Bool → Parser β) (c : Cursor) :
    (semicolonOmitted dialect context >>= f) c =
      f (omitsSemicolon dialect.hasTypes context c) c :=
  rfl

end Looking

section Reading

theorem eat_of_eq {w : String} (h : punctuator (skipTrivia false c).rest = w) :
    eat w c = .ok (true, (skipTrivia false c).advance w.length) := by
  unfold eat
  rw [atLexeme_bind, if_pos (beq_iff_eq.2 h)]
  rfl

theorem eat_of_ne {w : String} (h : punctuator (skipTrivia false c).rest ≠ w) :
    eat w c = .ok (false, c) := by
  unfold eat
  rw [atLexeme_bind, if_neg (mt beq_iff_eq.1 h)]
  rfl

theorem expect_of_eq {w : String} (h : punctuator (skipTrivia false c).rest = w) :
    expect w c = .ok (⟨⟩, (skipTrivia false c).advance w.length) := by
  unfold expect
  rw [bind_of_ok (eat_of_eq h)]
  rfl

theorem eatWord_of_eq {w : String} (h : word? (skipTrivia false c) = some (w, d)) :
    eatWord w c = .ok (true, d) := by
  unfold eatWord
  rw [atLexeme_bind, h]
  dsimp only
  rw [if_pos (beq_iff_eq.2 rfl)]
  rfl

theorem expectWord_of_eq {w : String} (h : word? (skipTrivia false c) = some (w, d)) :
    expectWord w c = .ok (⟨⟩, d) := by
  unfold expectWord
  rw [bind_of_ok (eatWord_of_eq h)]
  rfl

theorem leafAt_apply (kind : Kind) (c : Cursor) (n : Nat) (d : Cursor) :
    leafAt kind c n d =
      .ok (.node ⟨kind, .plain⟩ ⟨c.offset, (c.advance n).offset⟩ [], c.advance n) :=
  rfl

theorem leafAt_append (kind : Kind) (front rest : List Char) (o : Nat) (d : Cursor) :
    leafAt kind ⟨front ++ rest, o⟩ front.length d =
      .ok (.node ⟨kind, .plain⟩ ⟨o, o + front.length⟩ [], ⟨rest, o + front.length⟩) := by
  rw [leafAt_apply, Cursor.advance_append]

end Reading

section Choice

theorem orElse_of_error {fault : Fault} (hp : p c = .error fault) (hq : q c = .ok (a, d)) :
    orElse p q c = .ok (a, d) := by
  unfold orElse
  rw [hp]
  dsimp only
  rw [hq]

theorem orRetry_of_ok (hp : p c = .ok (a, d)) : orRetry p q c = .ok (a, d) := by
  unfold orRetry
  rw [hp]

end Choice

section Loops

variable {step : β → Parser (β ⊕ γ)} {b b' : β} {r : γ} {x : Char} {fuel : List Char}

theorem loop_inl (h : step b c = .ok (.inl b', d)) :
    loop step (x :: fuel) b c = loop step fuel b' d := by
  rw [loop, bind_of_ok h]

theorem loop_inr (h : step b c = .ok (.inr r, d)) : loop step (x :: fuel) b c = .ok (r, d) := by
  rw [loop, bind_of_ok h]
  rfl

theorem repeated_inr (h : step b c = .ok (.inr r, d)) : repeated step b c = .ok (r, d) := by
  unfold repeated
  rw [get_bind, loop_inr h]

end Loops

end ComponentDoc.Script.Parser
