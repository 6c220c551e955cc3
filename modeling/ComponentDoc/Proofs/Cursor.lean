import ComponentDoc.Cursor

/-!
Moving a cursor over a text that is known to stand at it, and places of a source that moving on
does not leave.
-/

namespace ComponentDoc

namespace Cursor

variable {p : Char → Bool} {front rest source : List Char} {o : Nat}

@[simp]
theorem advance_zero (c : Cursor) : c.advance 0 = c :=
  rfl

@[simp]
theorem advance_cons (x : Char) (n : Nat) :
    (⟨x :: rest, o⟩ : Cursor).advance (n + 1) = (⟨rest, o + 1⟩ : Cursor).advance n :=
  rfl

theorem advance_append (front rest : List Char) (o : Nat) :
    (⟨front ++ rest, o⟩ : Cursor).advance front.length = ⟨rest, o + front.length⟩ := by
  induction front generalizing o with
  | nil => rfl
  | cons x front ih =>
    rw [List.length_cons, List.cons_append, advance_cons, ih]
    congr 1
    omega

theorem takeWhile_append_of_head (hfront : ∀ x ∈ front, p x = true)
    (hrest : ∀ x, rest.head? = some x → p x = false) : (front ++ rest).takeWhile p = front := by
  rw [List.takeWhile_append_of_pos hfront]
  cases rest with
  | nil => simp
  | cons x rest => simp [hrest x rfl]

theorem skipWhile_append (hfront : ∀ x ∈ front, p x = true)
    (hrest : ∀ x, rest.head? = some x → p x = false) :
    (⟨front ++ rest, o⟩ : Cursor).skipWhile p = ⟨rest, o + front.length⟩ := by
  unfold skipWhile
  rw [takeWhile_append_of_head hfront hrest, advance_append]

theorem skipWhile_of_head (hrest : ∀ x, rest.head? = some x → p x = false) :
    (⟨rest, o⟩ : Cursor).skipWhile p = ⟨rest, o⟩ :=
  @skipWhile_append p [] rest o (by simp) hrest

/--
Whether a cursor is a place of a source, at or behind a given offset.
-/
structure Within (source : List Char) (low : Nat) (c : Cursor) : Prop where
  rest_eq : c.rest = source.drop c.offset
  le : low ≤ c.offset

namespace Within

variable {low : Nat} {c : Cursor} {x : Char}

theorem ofSource (source : List Char) : (Cursor.ofSource source).Within source 0 where
  rest_eq := rfl
  le := Nat.le_refl 0

theorem next (h : (⟨x :: rest, o⟩ : Cursor).Within source low) :
    (⟨rest, o + 1⟩ : Cursor).Within source low where
  rest_eq := by
    rw [← List.drop_drop, ← h.rest_eq]
    rfl
  le := Nat.le_succ_of_le h.le

@[grind ←]
theorem advance (h : c.Within source low) (n : Nat) : (c.advance n).Within source low := by
  induction n generalizing c with
  | zero => exact h
  | succ n ih =>
    obtain ⟨rest, o⟩ := c
    cases rest with
    | nil => exact h
    | cons x rest => exact ih h.next

@[grind ←]
theorem skipWhile (h : c.Within source low) (p : Char → Bool) :
    (c.skipWhile p).Within source low :=
  h.advance _

theorem lt_length (h : (⟨x :: rest, o⟩ : Cursor).Within source low) : o < source.length := by
  have hrest := congrArg List.length h.rest_eq
  dsimp only at hrest
  rw [List.length_cons, List.length_drop] at hrest
  omega

/--
Behind a character the place lies behind the character's offset.
-/
theorem raise (h : (⟨x :: rest, o⟩ : Cursor).Within source low) {n : Nat} (hn : 0 < n) :
    ((⟨x :: rest, o⟩ : Cursor).advance n).Within source (o + 1) := by
  obtain ⟨n, rfl⟩ := Nat.exists_eq_succ_of_ne_zero (Nat.ne_of_gt hn)
  rw [Nat.succ_eq_add_one, advance_cons]
  exact advance ⟨h.next.rest_eq, Nat.le_refl _⟩ n

end Within

end Cursor

end ComponentDoc
