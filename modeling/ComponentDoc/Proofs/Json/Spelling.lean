import ComponentDoc.Proofs.Json.Reader

/-!
How JSON texts spell strings and numbers. A character of a string is written as it is, by a short
escape, by its code point, or as a pair of surrogates; `quote` takes one of these ways for each
character. Whichever way is taken, a string is read as its characters (`moves_string_spells`), and
what is only passed over is passed over as a whole.
-/

namespace ComponentDoc.Json

open Reader

/--
The number that four hexadecimal digits denote.
-/
inductive Hex4 : Nat → List Char → Prop
  | mk {a b c d : Char} {v w x y : Nat} : hexValue? a = some v → hexValue? b = some w →
      hexValue? c = some x → hexValue? d = some y →
      Hex4 (16 * (16 * (16 * v + w) + x) + y) [a, b, c, d]

/--
The letters that stand for a character behind a backslash.
-/
def shortEscapes : List (Char × Char) :=
  [('"', '"'), ('\\', '\\'), ('/', '/'), ('b', '\x08'), ('f', '\x0c'), ('n', '\n'), ('r', '\r'),
    ('t', '\t')]

inductive SpellsChar : Char → List Char → Prop
  | plain {c : Char} : c ≠ '"' → c ≠ '\\' → 0x20 ≤ c.toNat → SpellsChar c [c]
  | short {c letter : Char} : (letter, c) ∈ shortEscapes → SpellsChar c ['\\', letter]
  | code {c : Char} {digits : List Char} : Hex4 c.toNat digits →
      SpellsChar c ('\\' :: 'u' :: digits)
  | pair {c : Char} {high low : Nat} {digits digits' : List Char} : Hex4 high digits →
      Hex4 low digits' → 0xD800 ≤ high → high ≤ 0xDBFF → 0xDC00 ≤ low → low ≤ 0xDFFF →
      c.toNat = 0x10000 + (high - 0xD800) * 0x400 + (low - 0xDC00) →
      SpellsChar c ('\\' :: 'u' :: digits ++ '\\' :: 'u' :: digits')

/--
A text between quotes and the characters that it spells.
-/
inductive Spells : List Char → List Char → Prop
  | nil : Spells [] []
  | cons {c : Char} {cs text more : List Char} : SpellsChar c text → Spells cs more →
      Spells (c :: cs) (text ++ more)

inductive IsWhole : List Char → Prop
  | zero : IsWhole ['0']
  | digits {c : Char} {cs : List Char} : c.isDigit → c ≠ '0' → (∀ d ∈ cs, d.isDigit) →
      IsWhole (c :: cs)

inductive IsFraction : List Char → Prop
  | absent : IsFraction []
  | present {c : Char} {cs : List Char} : c.isDigit → (∀ d ∈ cs, d.isDigit) →
      IsFraction ('.' :: c :: cs)

inductive IsExponent : List Char → Prop
  | absent : IsExponent []
  | present {mark : Char} {sign : List Char} {c : Char} {cs : List Char} : mark ∈ ['e', 'E'] →
      sign ∈ [[], ['+'], ['-']] → c.isDigit → (∀ d ∈ cs, d.isDigit) →
      IsExponent (mark :: (sign ++ c :: cs))

/--
A number as it is written.
-/
structure Number where
  negative : Bool
  whole : List Char
  fraction : List Char
  exponent : List Char
  isWhole : IsWhole whole
  isFraction : IsFraction fraction
  isExponent : IsExponent exponent

def Number.text (n : Number) : List Char :=
  (if n.negative then ['-'] else []) ++ (n.whole ++ (n.fraction ++ n.exponent))

theorem spellsChar_escapeChar (c : Char) : SpellsChar c (escapeChar c) := by
  by_cases hshort : c ∈ ['"', '\\', '\x08', '\t', '\n', '\x0c', '\r']
  . simp only [List.mem_cons, List.not_mem_nil, or_false] at hshort
    rcases hshort with rfl | rfl | rfl | rfl | rfl | rfl | rfl
    all_goals exact .short (by decide)
  . simp only [List.mem_cons, List.not_mem_nil, or_false, not_or] at hshort
    obtain ⟨hquote, hbackslash, hbackspace, htab, hline, hpage, hreturn⟩ := hshort
    unfold escapeChar
    rw [if_neg hquote, if_neg hbackslash, if_neg hbackspace, if_neg htab, if_neg hline,
      if_neg hpage, if_neg hreturn]
    split
    . have hzero : hexValue? '0' = some 0 := by
        decide
      have hhigh := hexValue?_hexDigit (c.toNat / 16) (by omega)
      have hlow := hexValue?_hexDigit (c.toNat % 16) (by omega)
      apply SpellsChar.code
      have hvalue : 16 * (16 * (16 * 0 + 0) + c.toNat / 16) + c.toNat % 16 = c.toNat := by
        omega
      have hdigits := Hex4.mk hzero hzero hhigh hlow
      rw [hvalue] at hdigits
      exact hdigits
    . apply SpellsChar.plain hquote hbackslash
      omega

theorem spells_flatMap_escapeChar (cs : List Char) : Spells cs (cs.flatMap escapeChar) := by
  induction cs with
  | nil => exact .nil
  | cons c cs ih =>
    rw [List.flatMap_cons]
    apply Spells.cons (spellsChar_escapeChar c) ih

theorem SpellsChar.length_pos {c : Char} {text : List Char} (h : SpellsChar c text) :
    0 < text.length := by
  cases h with
  | _ => simp

theorem Spells.length_le {cs text : List Char} (h : Spells cs text) :
    cs.length ≤ text.length := by
  induction h with
  | nil => simp
  | cons hc _ ih =>
    have := hc.length_pos
    simp only [List.length_cons, List.length_append]
    omega

section Numbers

variable {exponent fraction rest : List Char}

/--
What may stand behind a number: nothing that could be a part of it.
-/
def EndsNumber (rest : List Char) : Prop :=
  ∀ c ∈ rest.head?, c.isDigit = false ∧ c ≠ '.' ∧ c ≠ 'e' ∧ c ≠ 'E'

theorem IsExponent.eq_nil (h : IsExponent exponent)
    (he : (exponent ++ rest).head? ≠ some 'e') (hE : (exponent ++ rest).head? ≠ some 'E') :
    exponent = [] := by
  cases h with
  | absent => rfl
  | present hmark =>
    simp only [List.cons_append, List.head?_cons, ne_eq, Option.some.injEq] at he hE
    simp [he, hE] at hmark

theorem IsExponent.head_not_digit (h : IsExponent exponent)
    (hrest : EndsNumber rest) :
    ∀ c ∈ (exponent ++ rest).head?, c.isDigit = false ∧ c ≠ '.' := by
  intro c hc
  cases h with
  | absent => exact ⟨(hrest c hc).1, (hrest c hc).2.1⟩
  | present hmark =>
    simp only [List.mem_cons, List.not_mem_nil, or_false] at hmark
    cases hc
    rcases hmark with rfl | rfl
    . decide
    . decide

theorem IsFraction.head_not_digit (h : IsFraction fraction)
    (hexponent : IsExponent exponent) (hrest : EndsNumber rest) :
    ∀ c ∈ (fraction ++ (exponent ++ rest)).head?, c.isDigit = false := by
  intro c hc
  cases h with
  | absent => exact (hexponent.head_not_digit hrest c hc).1
  | present =>
    cases hc
    rfl

end Numbers

namespace Reader

variable {rest after : List Char} {fuel : Nat} {chars : List Char} {s : String}

theorem moves_hexEscape_of_hex4 {n : Nat} {digits : List Char} (h : Hex4 n digits) :
    Moves hexEscape (digits ++ rest) n rest := by
  cases h with
  | mk ha hb hc hd => apply moves_hexEscape ha hb hc hd

theorem moves_escape_short {letter c : Char} (h : (letter, c) ∈ shortEscapes) :
    Moves escape (letter :: rest) c rest := by
  simp only [shortEscapes, List.mem_cons, Prod.mk.injEq, List.not_mem_nil, or_false] at h
  rcases h with ⟨rfl, rfl⟩ | ⟨rfl, rfl⟩ | ⟨rfl, rfl⟩ | ⟨rfl, rfl⟩ | ⟨rfl, rfl⟩ | ⟨rfl, rfl⟩ |
    ⟨rfl, rfl⟩ | ⟨rfl, rfl⟩
  all_goals exact Moves.bind moves_nextOrEnd (moves_pure _)

theorem not_surrogate (c : Char) : c.toNat < 0xD800 ∨ 0xDFFF < c.toNat := by
  have h := c.valid
  unfold UInt32.isValidChar Nat.isValidChar at h
  unfold Char.toNat
  omega

theorem moves_escape_code {c : Char} {digits : List Char} (h : Hex4 c.toNat digits) :
    Moves escape ('u' :: (digits ++ rest)) c rest := by
  apply Moves.bind moves_nextOrEnd
  change Moves unicodeEscape _ c rest
  unfold unicodeEscape
  apply Moves.bind (moves_hexEscape_of_hex4 h)
  have hc := not_surrogate c
  rw [if_neg (by simp; omega), if_pos (by simp; omega), Char.ofNat_toNat]
  apply moves_pure

theorem moves_surrogateMark {c : Char} : Moves (surrogateMark c) (c :: rest) () rest := by
  unfold surrogateMark
  apply Moves.bind moves_peek
  dsimp only [List.head?_cons]
  rw [if_pos rfl]
  apply moves_advance

theorem moves_escape_pair {c : Char} {high low : Nat} {digits digits' : List Char}
    (hdigits : Hex4 high digits) (hdigits' : Hex4 low digits') (hhigh : 0xD800 ≤ high)
    (hhigh' : high ≤ 0xDBFF) (hlow : 0xDC00 ≤ low) (hlow' : low ≤ 0xDFFF)
    (hc : c.toNat = 0x10000 + (high - 0xD800) * 0x400 + (low - 0xDC00)) :
    Moves escape ('u' :: (digits ++ '\\' :: 'u' :: (digits' ++ rest))) c rest := by
  apply Moves.bind moves_nextOrEnd
  change Moves unicodeEscape _ c rest
  unfold unicodeEscape
  apply Moves.bind (moves_hexEscape_of_hex4 hdigits)
  rw [if_neg (by simp; omega), if_neg (by simp; omega)]
  apply Moves.bind moves_surrogateMark
  apply Moves.bind moves_surrogateMark
  apply Moves.bind (moves_hexEscape_of_hex4 hdigits')
  rw [if_neg (by simp; omega), ← hc, Char.ofNat_toNat]
  apply moves_pure

theorem moves_stringBody_spellsChar {c : Char} {text : List Char} (hc : SpellsChar c text)
    (h : Moves (stringBody fuel (c :: chars)) rest s after) :
    Moves (stringBody (fuel + 1) chars) (text ++ rest) s after := by
  cases hc with
  | plain hquote hbackslash hcontrol =>
    apply moves_stringBody_plain hquote hbackslash _ h
    omega
  | short hletter => apply moves_stringBody_escape (moves_escape_short hletter) h
  | code hdigits => apply moves_stringBody_escape (moves_escape_code hdigits) h
  | pair hdigits hdigits' hhigh hhigh' hlow hlow' hc =>
    simp only [List.cons_append, List.append_assoc]
    apply moves_stringBody_escape _ h
    apply moves_escape_pair hdigits hdigits' hhigh hhigh' hlow hlow' hc

theorem moves_stringBody_spells {cs text : List Char} (h : Spells cs text)
    (hs : s.toList = chars.reverse ++ cs) (hfuel : cs.length < fuel) :
    Moves (stringBody fuel chars) (text ++ '"' :: rest) s rest := by
  induction h generalizing fuel chars with
  | nil =>
    cases fuel with
    | zero => cases hfuel
    | succ fuel =>
      have hread : String.ofList chars.reverse = s := by
        rw [List.append_nil] at hs
        rw [← hs, String.ofList_toList]
      subst hread
      unfold stringBody
      apply Moves.bind moves_next
      apply moves_pure
  | cons hc _ ih =>
    cases fuel with
    | zero => cases hfuel
    | succ fuel =>
      rw [List.append_assoc]
      apply moves_stringBody_spellsChar hc
      apply ih
      . simp [hs]
      . simp only [List.length_cons] at hfuel
        omega

theorem moves_string_spells {text : List Char} (h : Spells s.toList text) :
    Moves string (text ++ '"' :: rest) s rest := by
  unfold string
  apply moves_get_bind
  intro line column
  apply moves_stringBody_spells h rfl
  have := h.length_le
  simp only [List.length_append]
  omega

theorem moves_string (s : String) :
    Moves string (s.toList.flatMap escapeChar ++ '"' :: rest) s rest := by
  apply moves_string_spells
  apply spells_flatMap_escapeChar

section Skipping

variable {middle : List Char}

theorem moves_skipStringBody_escape (hc : Moves skipEscape middle () rest)
    (h : Moves (skipStringBody fuel) rest () after) :
    Moves (skipStringBody (fuel + 1)) ('\\' :: middle) () after := by
  unfold skipStringBody
  apply Moves.bind moves_peek
  apply Moves.bind moves_advance
  apply Moves.bind hc h

theorem moves_skipStringBody_plain {c : Char} (hquote : c ≠ '"') (hbackslash : c ≠ '\\')
    (hcontrol : 0x20 ≤ c.toNat) (h : Moves (skipStringBody fuel) rest () after) :
    Moves (skipStringBody (fuel + 1)) (c :: rest) () after := by
  unfold skipStringBody
  apply Moves.bind moves_peek
  dsimp only [List.head?_cons]
  split
  . next heq => cases heq
  . next heq =>
    cases heq
    exact absurd rfl hquote
  . next heq =>
    cases heq
    exact absurd rfl hbackslash
  . next heq =>
    cases heq
    rw [if_neg (by omega)]
    apply Moves.bind moves_advance h

theorem moves_skipEscape_short {letter c : Char} (h : (letter, c) ∈ shortEscapes) :
    Moves skipEscape (letter :: rest) () rest := by
  simp only [shortEscapes, List.mem_cons, Prod.mk.injEq, List.not_mem_nil, or_false] at h
  rcases h with ⟨rfl, rfl⟩ | ⟨rfl, rfl⟩ | ⟨rfl, rfl⟩ | ⟨rfl, rfl⟩ | ⟨rfl, rfl⟩ | ⟨rfl, rfl⟩ |
    ⟨rfl, rfl⟩ | ⟨rfl, rfl⟩
  all_goals exact Moves.bind moves_nextOrEnd (moves_pure _)

theorem moves_skipEscape_code {n : Nat} {digits : List Char} (h : Hex4 n digits) :
    Moves skipEscape ('u' :: (digits ++ rest)) () rest := by
  apply Moves.bind moves_nextOrEnd
  apply Moves.bind (moves_hexEscape_of_hex4 h)
  apply moves_pure

theorem moves_skipStringBody_spells {cs text : List Char} (h : Spells cs text)
    (hfuel : text.length < fuel) :
    Moves (skipStringBody fuel) (text ++ '"' :: rest) () rest := by
  induction h generalizing fuel with
  | nil =>
    cases fuel with
    | zero => cases hfuel
    | succ fuel =>
      unfold skipStringBody
      apply Moves.bind moves_peek
      apply moves_advance
  | cons hc _ ih =>
    cases fuel with
    | zero => cases hfuel
    | succ fuel =>
      simp only [List.length_append] at hfuel
      rw [List.append_assoc]
      cases hc with
      | plain hquote hbackslash hcontrol =>
        apply moves_skipStringBody_plain hquote hbackslash hcontrol
        apply ih
        simp only [List.length_cons] at hfuel
        omega
      | short hletter =>
        apply moves_skipStringBody_escape (moves_skipEscape_short hletter)
        apply ih
        simp only [List.length_cons] at hfuel
        omega
      | code hdigits =>
        apply moves_skipStringBody_escape (moves_skipEscape_code hdigits)
        apply ih
        simp only [List.length_cons] at hfuel
        omega
      | pair hdigits hdigits' =>
        -- The two halves are two escapes here, each of which takes a round.
        simp only [List.length_append, List.length_cons] at hfuel
        obtain ⟨fuel, rfl⟩ : ∃ more, fuel = more + 1 := ⟨fuel - 1, by omega⟩
        simp only [List.cons_append, List.append_assoc]
        apply moves_skipStringBody_escape (moves_skipEscape_code hdigits)
        apply moves_skipStringBody_escape (moves_skipEscape_code hdigits')
        apply ih
        omega

theorem moves_skipString {cs text : List Char} (h : Spells cs text) :
    Moves skipString (text ++ '"' :: rest) () rest := by
  unfold skipString
  apply moves_get_bind
  intro line column
  apply moves_skipStringBody_spells h
  simp only [List.length_append]
  omega

end Skipping

section Numbers

variable {exponent fraction whole skipped : List Char}

theorem moves_skipDigits (hskipped : ∀ c ∈ skipped, c.isDigit)
    (hrest : ∀ c ∈ rest.head?, c.isDigit = false) :
    Moves skipDigits (skipped ++ rest) () rest := by
  apply moves_skipWhile hskipped hrest

theorem moves_skipExponent (h : IsExponent exponent)
    (hrest : EndsNumber rest) (hhead : (exponent ++ rest).head? ∈ [some 'e', some 'E']) :
    Moves skipExponent (exponent ++ rest) () rest := by
  have hdigit : ∀ c ∈ rest.head?, c.isDigit = false := fun c hc => (hrest c hc).1
  cases h with
  | absent =>
    simp only [List.nil_append, List.mem_cons, List.not_mem_nil, or_false] at hhead
    rcases hhead with hhead | hhead
    . exact absurd rfl (hrest 'e' hhead).2.2.1
    . exact absurd rfl (hrest 'E' hhead).2.2.2
  | @present _ sign c cs _ hsign hc hcs =>
    have hfirst : ∀ {f : Option Char → Reader Unit}, f (some c) = skipDigits →
        Moves (next >>= f) (c :: (cs ++ rest)) () rest := by
      intro f hf
      apply Moves.bind moves_next
      rw [hf]
      apply moves_skipDigits hcs hdigit
    unfold skipExponent
    simp only [List.cons_append, List.append_assoc]
    apply Moves.bind moves_advance
    apply Moves.bind moves_peek
    simp only [List.mem_cons, List.not_mem_nil, or_false] at hsign
    rcases hsign with rfl | rfl | rfl
    . dsimp only [List.nil_append, List.head?_cons]
      split
      . next heq =>
        cases heq
        cases hc
      . next heq =>
        cases heq
        cases hc
      . apply hfirst (if_pos hc)
    . apply Moves.bind moves_advance (hfirst (if_pos hc))
    . apply Moves.bind moves_advance (hfirst (if_pos hc))

theorem moves_skipFraction (h : IsFraction fraction)
    (hne : fraction ≠ []) (hexponent : IsExponent exponent) (hrest : EndsNumber rest) :
    Moves skipFraction (fraction ++ (exponent ++ rest)) () rest := by
  cases h with
  | absent => exact absurd rfl hne
  | @present c cs hc hcs =>
    have hdigits : ∀ d ∈ c :: cs, d.isDigit = true := by
      simp only [List.mem_cons, forall_eq_or_imp]
      exact ⟨hc, hcs⟩
    unfold skipFraction
    simp only [List.cons_append]
    apply Moves.bind moves_advance
    apply Moves.bind moves_peek
    dsimp only [List.head?_cons]
    rw [if_pos hc, ← List.cons_append]
    apply Moves.bind
    . apply moves_skipDigits hdigits
      intro d hd
      exact (hexponent.head_not_digit hrest d hd).1
    . apply Moves.bind moves_peek
      split
      . next heq => apply moves_skipExponent hexponent hrest (by simp [heq])
      . next heq => apply moves_skipExponent hexponent hrest (by simp [heq])
      . next he hE =>
        rw [hexponent.eq_nil he hE]
        apply moves_pure

/--
What follows the whole part of a number.
-/
theorem moves_afterWhole (h : IsFraction fraction)
    (hexponent : IsExponent exponent) (hrest : EndsNumber rest) :
    Moves
      (peek >>= fun mark => match mark with
        | some '.' => skipFraction
        | some 'e' => skipExponent
        | some 'E' => skipExponent
        | _ => pure ()) (fraction ++ (exponent ++ rest)) () rest := by
  apply Moves.bind moves_peek
  cases h with
  | present hc hcs => apply moves_skipFraction (.present hc hcs) (by simp) hexponent hrest
  | absent =>
    rw [List.nil_append]
    split
    . next heq => exact absurd rfl (hexponent.head_not_digit hrest '.' heq).2
    . next heq => apply moves_skipExponent hexponent hrest (by simp [heq])
    . next heq => apply moves_skipExponent hexponent hrest (by simp [heq])
    . next he hE =>
      rw [hexponent.eq_nil he hE]
      apply moves_pure

theorem moves_skipNumber (h : IsWhole whole)
    (hfraction : IsFraction fraction) (hexponent : IsExponent exponent)
    (hrest : EndsNumber rest) :
    Moves skipNumber (whole ++ (fraction ++ (exponent ++ rest))) () rest := by
  have hafter := moves_afterWhole hfraction hexponent hrest
  have hdigit := hfraction.head_not_digit hexponent hrest
  unfold skipNumber
  cases h with
  | zero =>
    apply Moves.bind moves_next
    apply Moves.bind moves_peek
    dsimp only [List.nil_append]
    split
    . next c hc =>
      rw [hdigit c hc]
      exact hafter
    . exact hafter
  | @digits c cs hc hzero hcs =>
    rw [List.cons_append]
    apply Moves.bind moves_next
    dsimp only
    split
    . next heq =>
      cases heq
      exact absurd rfl hzero
    . next heq =>
      cases heq
      rw [if_pos hc]
      apply Moves.bind (moves_skipDigits hcs hdigit) hafter
    . next heq => cases heq

end Numbers

end Reader

end ComponentDoc.Json
