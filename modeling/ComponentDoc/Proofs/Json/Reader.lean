import ComponentDoc.Json.Reader
import ComponentDoc.Json.Value

/-!
How far a JSON reader moves. What a reader gives depends on the text that is left alone, so it is
described by the text before it and the text behind it (`Moves`), operation by operation up to the
rounds of `Reader.stringBody`.
-/

namespace ComponentDoc.Json.Reader

variable {α β : Type} {before middle after rest : List Char}

/--
From `before` the reader gives `a` and leaves `after`, at whatever line and column it starts.
-/
def Moves (p : Reader α) (before : List Char) (a : α) (after : List Char) : Prop :=
  ∀ line column, ∃ line' column',
    p.run ⟨before, line, column⟩ = .ok (a, ⟨after, line', column'⟩)

theorem moves_pure (a : α) : Moves (pure a) before a before := by
  intro line column
  exact ⟨line, column, rfl⟩

theorem Moves.bind {p : Reader α} {f : α → Reader β} {a : α} {b : β}
    (hp : Moves p before a middle) (hf : Moves (f a) middle b after) :
    Moves (p >>= f) before b after := by
  intro line column
  obtain ⟨line₁, column₁, hp⟩ := hp line column
  obtain ⟨line₂, column₂, hf⟩ := hf line₁ column₁
  refine ⟨line₂, column₂, ?_⟩
  rw [StateT.run_bind, hp]
  exact hf

theorem moves_get_bind {f : Place → Reader α} {a : α}
    (h : ∀ line column, Moves (f ⟨before, line, column⟩) before a after) :
    Moves (get >>= f) before a after := by
  intro line column
  exact h line column line column

section Scanning

variable {c : Char}

theorem moves_peek : Moves peek before before.head? before := by
  intro line column
  exact ⟨line, column, rfl⟩

theorem moves_advance : Moves advance (c :: rest) () rest := by
  intro line column
  by_cases hc : c = '\n'
  . subst hc
    exact ⟨line + 1, 0, rfl⟩
  . refine ⟨line, column + c.utf8Size, ?_⟩
    change Except.ok ((), Place.step ⟨c :: rest, line, column⟩) = _
    unfold Place.step
    split
    . next h => cases h
    . next h =>
      cases h
      exact absurd rfl hc
    . next h =>
      cases h
      rfl

theorem moves_next : Moves next (c :: rest) (some c) rest := by
  apply Moves.bind moves_peek
  apply Moves.bind moves_advance
  exact moves_pure _

theorem dropWhile_append {p : Char → Bool} {skipped : List Char} (hskipped : ∀ c ∈ skipped, p c)
    (hrest : ∀ c ∈ rest.head?, p c = false) (line column : Nat) :
    ∃ line' column', dropWhile p (skipped ++ rest) line column = ⟨rest, line', column'⟩ := by
  induction skipped generalizing line column with
  | nil =>
    refine ⟨line, column, ?_⟩
    rw [List.nil_append]
    cases rest with
    | nil => rfl
    | cons c rest =>
      unfold dropWhile
      rw [hrest c rfl]
      rfl
  | cons c skipped ih =>
    rw [List.cons_append]
    unfold dropWhile
    rw [if_pos (hskipped c List.mem_cons_self)]
    have htail := ih (fun d hd => hskipped d (List.mem_cons_of_mem c hd))
    split
    . apply htail
    . apply htail

theorem moves_skipWhile {p : Char → Bool} {skipped : List Char} (hskipped : ∀ c ∈ skipped, p c)
    (hrest : ∀ c ∈ rest.head?, p c = false) :
    Moves (skipWhile p) (skipped ++ rest) () rest := by
  intro line column
  obtain ⟨line', column', hdrop⟩ := dropWhile_append hskipped hrest line column
  refine ⟨line', column', ?_⟩
  rw [← hdrop]
  rfl

theorem moves_peekToken {blanks : List Char} (hblanks : ∀ c ∈ blanks, isSpace c)
    (hrest : ∀ c ∈ rest.head?, isSpace c = false) :
    Moves peekToken (blanks ++ rest) rest.head? rest := by
  apply Moves.bind (moves_skipWhile hblanks hrest)
  exact moves_peek

theorem moves_peekToken_cons {blanks : List Char} (hblanks : ∀ c ∈ blanks, isSpace c)
    (hc : isSpace c = false) : Moves peekToken (blanks ++ c :: rest) (some c) (c :: rest) := by
  apply moves_peekToken hblanks
  intro d hd
  cases hd
  exact hc

theorem moves_word (expected : List Char) : Moves (word expected) (expected ++ rest) () rest := by
  induction expected with
  | nil => exact moves_pure ()
  | cons c expected ih =>
    unfold word
    apply Moves.bind moves_next
    dsimp only
    rw [if_pos rfl]
    exact ih

end Scanning

section Strings

theorem hexValue?_hexDigit : ∀ n < 16, hexValue? (hexDigit n) = some n := by
  decide

theorem moves_hexEscape {a b c d : Char} {v w x y : Nat} (ha : hexValue? a = some v)
    (hb : hexValue? b = some w) (hc : hexValue? c = some x) (hd : hexValue? d = some y) :
    Moves hexEscape (a :: b :: c :: d :: rest) (16 * (16 * (16 * v + w) + x) + y) rest := by
  have hbytes :
      ¬ ((a :: b :: c :: d :: rest).take 4).foldl (fun n c => n + c.utf8Size) 0 < 4 := by
    have := a.utf8Size_pos
    have := b.utf8Size_pos
    have := c.utf8Size_pos
    have := d.utf8Size_pos
    simp only [List.take_succ_cons, List.take_zero, List.foldl_cons, List.foldl_nil]
    omega
  have hvalues : ((a :: b :: c :: d :: rest).take 4).mapM hexValue? = some [v, w, x, y] := by
    simp [ha, hb, hc, hd]
  unfold hexEscape
  apply moves_get_bind
  intro line column
  dsimp only
  rw [if_neg hbytes, hvalues]
  dsimp only [List.length_cons, List.length_nil]
  rw [if_pos rfl]
  apply Moves.bind moves_advance
  apply Moves.bind moves_advance
  apply Moves.bind moves_advance
  apply Moves.bind moves_advance
  simp only [List.foldl_cons, List.foldl_nil, Nat.mul_zero, Nat.zero_add]
  exact moves_pure _

theorem moves_nextOrEnd {c : Char} : Moves nextOrEnd (c :: rest) c rest := by
  apply Moves.bind moves_next
  exact moves_pure c

variable {fuel : Nat} {chars : List Char} {s : String}

theorem moves_stringBody_escape {c : Char} (hc : Moves escape middle c rest)
    (h : Moves (stringBody fuel (c :: chars)) rest s after) :
    Moves (stringBody (fuel + 1) chars) ('\\' :: middle) s after := by
  unfold stringBody
  apply Moves.bind moves_next
  exact Moves.bind hc h

theorem moves_stringBody_plain {c : Char} (hquote : c ≠ '"') (hbackslash : c ≠ '\\')
    (hcontrol : ¬ c.toNat < 0x20) (h : Moves (stringBody fuel (c :: chars)) rest s after) :
    Moves (stringBody (fuel + 1) chars) (c :: rest) s after := by
  unfold stringBody
  apply Moves.bind moves_next
  split
  . next heq => cases heq
  . next heq =>
    cases heq
    exact absurd rfl hquote
  . next heq =>
    cases heq
    exact absurd rfl hbackslash
  . next heq =>
    cases heq
    rw [if_neg hcontrol]
    exact h

end Strings

end ComponentDoc.Json.Reader
