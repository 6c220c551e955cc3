import ComponentDoc.Text.Lines

/-!
Texts that are put together from others: from lines and their endings, and from texts with a
separator between them.
-/

namespace ComponentDoc.Text

variable {line rest : List Char}

theorem charLines_go_append (h : '\n' ∉ line) (front : List Char) :
    charLines.go front (line ++ rest) = charLines.go (line.reverse ++ front) rest := by
  induction line generalizing front with
  | nil => rfl
  | cons c line ih =>
    rw [List.mem_cons, not_or] at h
    rw [List.cons_append, charLines.go, ih h.2, List.reverse_cons, List.append_assoc]
    . rfl
    . exact fun hc => h.1 hc.symm

theorem charLines_append (h : '\n' ∉ line) :
    charLines (line ++ '\n' :: rest) = dropCarriageReturn line :: charLines rest := by
  unfold charLines
  rw [charLines_go_append h, charLines.go, List.append_nil, List.reverse_reverse]

theorem charLines_eq_singleton (h : '\n' ∉ line) (hne : line ≠ []) : charLines line = [line] := by
  unfold charLines
  rw [← List.append_nil line, charLines_go_append h, List.append_nil, charLines.go,
    List.append_nil, List.reverse_reverse, if_neg]
  simpa using hne

theorem dropCarriageReturn_append (line : List Char) :
    dropCarriageReturn (line ++ ['\r']) = line := by
  unfold dropCarriageReturn
  rw [List.reverse_append, List.reverse_singleton, List.singleton_append]
  exact List.reverse_reverse line

theorem dropCarriageReturn_eq_or (line : List Char) :
    dropCarriageReturn line = line ∨ line = dropCarriageReturn line ++ ['\r'] := by
  unfold dropCarriageReturn
  split
  . next rest hrest =>
    right
    rw [← List.reverse_cons, ← hrest, List.reverse_reverse]
  . exact .inl rfl

theorem intercalate_ne_empty {text : String} (h : text ≠ "") (separator : String)
    (texts : List String) : separator.intercalate (text :: texts) ≠ "" := by
  cases texts with
  | nil =>
    rw [String.intercalate_singleton]
    exact h
  | cons next texts =>
    rw [String.intercalate_cons_cons]
    simp [h]

end ComponentDoc.Text
