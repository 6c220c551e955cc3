import ComponentDoc.Proofs.Json.Spelling

/-!
JSON texts as tokens with white space between them. A datum is any JSON value, numbers as they are
written; it has one sequence of tokens, and a text lays these out with blanks before each of them
and each string spelled in one of its ways. Whatever the layout, a reader that passes over a value
ends where the layout ends (`moves_skipValue`).
-/

namespace ComponentDoc.Json

open Reader

inductive Token where
  | mark (c : Char)
  | null
  | bool (value : Bool)
  | number (value : Number)
  | string (value : String)

inductive Token.Writes : Token → List Char → Prop
  | mark {c : Char} : Writes (.mark c) [c]
  | null : Writes .null ['n', 'u', 'l', 'l']
  | isTrue : Writes (.bool true) ['t', 'r', 'u', 'e']
  | isFalse : Writes (.bool false) ['f', 'a', 'l', 's', 'e']
  | number {n : Number} : Writes (.number n) n.text
  | string {s : String} {text : List Char} : Spells s.toList text →
      Writes (.string s) ('"' :: (text ++ ['"']))

/--
`Lays tokens text rest`: the text starts with the tokens, blanks before each, and goes on with
`rest`.
-/
inductive Lays : List Token → List Char → List Char → Prop
  | nil {rest : List Char} : Lays [] rest rest
  | cons {token : Token} {tokens : List Token} {blanks chars text rest : List Char} :
      (∀ c ∈ blanks, isSpace c) → token.Writes chars → Lays tokens text rest →
      Lays (token :: tokens) (blanks ++ (chars ++ text)) rest

/--
A JSON value. A name may occur more than once among the members of an object.
-/
inductive Datum where
  | null
  | bool (value : Bool)
  | number (value : Number)
  | string (value : String)
  | list (items : List Datum)
  | object (members : List (String × Datum))

namespace Datum

mutual

def tokens : Datum → List Token
  | .null => [.null]
  | .bool value => [.bool value]
  | .number value => [.number value]
  | .string value => [.string value]
  | .list [] => [.mark '[', .mark ']']
  | .list (item :: items) => .mark '[' :: (item.tokens ++ itemTokens items)
  | .object [] => [.mark '{', .mark '}']
  | .object (member :: members) => .mark '{' :: (memberTokens member ++ membersTokens members)

/--
The items behind the first one, and the end of the list.
-/
def itemTokens : List Datum → List Token
  | [] => [.mark ']']
  | item :: items => .mark ',' :: (item.tokens ++ itemTokens items)

def memberTokens : String × Datum → List Token
  | (key, value) => .string key :: .mark ':' :: value.tokens

/--
The members behind the first one, and the end of the object.
-/
def membersTokens : List (String × Datum) → List Token
  | [] => [.mark '}']
  | member :: members => .mark ',' :: (memberTokens member ++ membersTokens members)

end

theorem memberTokens_eq (m : String × Datum) :
    memberTokens m = .string m.1 :: .mark ':' :: m.2.tokens := by
  cases m
  rfl

theorem induction {motive : Datum → Prop} (null : motive .null)
    (bool : ∀ value, motive (.bool value)) (number : ∀ value, motive (.number value))
    (string : ∀ value, motive (.string value))
    (list : ∀ items, (∀ item ∈ items, motive item) → motive (.list items))
    (object : ∀ members, (∀ m ∈ members, motive m.2) → motive (.object members))
    (value : Datum) : motive value := by
  apply @Datum.rec motive (fun items => ∀ item ∈ items, motive item)
    (fun members => ∀ m ∈ members, motive m.2) (fun m => motive m.2) null bool number string list
    object
  . exact nofun
  . intro item items hitem hitems
    exact List.forall_mem_cons.2 ⟨hitem, hitems⟩
  . exact nofun
  . intro m members hm hmembers
    exact List.forall_mem_cons.2 ⟨hm, hmembers⟩
  . intro key value hvalue
    exact hvalue

/--
A text that holds the tokens of a value and blanks, and nothing else.
-/
def Printed (value : Datum) (text : List Char) : Prop :=
  ∃ rest, Lays value.tokens text rest ∧ ∀ c ∈ rest, isSpace c

end Datum

section Layouts

variable {tokens more : List Token} {text rest middle : List Char} {c : Char}

theorem Lays.of_append (h : Lays (tokens ++ more) text rest) :
    ∃ middle, Lays tokens text middle ∧ Lays more middle rest := by
  induction tokens generalizing text with
  | nil => exact ⟨text, .nil, h⟩
  | cons token tokens ih =>
    cases h with
    | cons hblanks hchars h =>
      obtain ⟨middle, htokens, hmore⟩ := ih h
      exact ⟨middle, .cons hblanks hchars htokens, hmore⟩

theorem Lays.of_mark (h : Lays (.mark c :: tokens) text rest) :
    ∃ blanks tail, (∀ d ∈ blanks, isSpace d) ∧ text = blanks ++ c :: tail ∧
      Lays tokens tail rest := by
  cases h with
  | cons hblanks hchars h =>
    cases hchars with
    | mark => exact ⟨_, _, hblanks, rfl, h⟩

theorem Lays.of_string {s : String} (h : Lays (.string s :: tokens) text rest) :
    ∃ blanks chars tail, (∀ d ∈ blanks, isSpace d) ∧ Spells s.toList chars ∧
      text = blanks ++ '"' :: (chars ++ '"' :: tail) ∧ Lays tokens tail rest := by
  cases h with
  | cons hblanks hchars h =>
    cases hchars with
    | string hspells =>
      refine ⟨_, _, _, hblanks, hspells, ?_, h⟩
      simp only [List.cons_append, List.append_assoc, List.nil_append]

theorem IsWhole.eq_cons {whole : List Char} (h : IsWhole whole) :
    ∃ c digits, whole = c :: digits ∧ c.isDigit := by
  cases h with
  | zero => exact ⟨'0', [], rfl, rfl⟩
  | digits hc => exact ⟨_, _, rfl, hc⟩

theorem isSpace_of_isDigit (h : c.isDigit) : isSpace c = false := by
  simp only [isSpace, Bool.or_eq_false_iff, decide_eq_false_iff_not]
  refine ⟨⟨⟨?_, ?_⟩, ?_⟩, ?_⟩
  all_goals
    rintro rfl
    cases h

theorem Number.text_eq_cons (n : Number) :
    ∃ c chars, n.text = c :: chars ∧ (c = '-' ∨ c.isDigit) := by
  unfold Number.text
  cases n.negative with
  | true => exact ⟨'-', _, rfl, .inl rfl⟩
  | false =>
    obtain ⟨c, digits, hwhole, hc⟩ := n.isWhole.eq_cons
    rw [hwhole]
    exact ⟨c, _, rfl, .inr hc⟩

/--
No token of a value other than a mark starts with a blank or closes a list.
-/
theorem Token.Writes.eq_cons {token : Token} {chars : List Char} (h : token.Writes chars)
    (htoken : ∀ c, token = .mark c → c = '[' ∨ c = '{') :
    ∃ c more, chars = c :: more ∧ isSpace c = false ∧ c ≠ ']' := by
  cases h with
  | @mark c =>
    refine ⟨c, [], rfl, ?_⟩
    rcases htoken c rfl with rfl | rfl
    . decide
    . decide
  | @number n =>
    obtain ⟨c, more, htext, hc⟩ := n.text_eq_cons
    refine ⟨c, more, htext, ?_⟩
    rcases hc with rfl | hc
    . decide
    . refine ⟨isSpace_of_isDigit hc, ?_⟩
      rintro rfl
      cases hc
  | string => exact ⟨'"', _, rfl, by decide⟩
  | _ => exact ⟨_, _, rfl, by decide⟩

theorem Datum.tokens_eq_cons (value : Datum) :
    ∃ token more, value.tokens = token :: more ∧ ∀ c, token = .mark c → c = '[' ∨ c = '{' := by
  cases value with
  | list items =>
    cases items with
    | _ => exact ⟨.mark '[', _, rfl, by simp⟩
  | object members =>
    cases members with
    | _ => exact ⟨.mark '{', _, rfl, by simp⟩
  | _ => exact ⟨_, _, rfl, nofun⟩

theorem Token.Writes.length_pos {token : Token} {chars : List Char} (h : token.Writes chars) :
    0 < chars.length := by
  cases h with
  | @number n =>
    obtain ⟨c, more, htext, _⟩ := n.text_eq_cons
    simp [htext]
  | _ => simp

theorem Lays.length_le (h : Lays tokens text rest) :
    tokens.length + rest.length ≤ text.length := by
  induction h with
  | nil => simp
  | cons _ hchars _ ih =>
    have := hchars.length_pos
    simp only [List.length_cons, List.length_append]
    omega

/--
Blanks and what separates or closes values end a number.
-/
theorem Lays.endsNumber (hc : c ∈ [',', ']', '}']) (h : Lays (.mark c :: tokens) text rest) :
    EndsNumber text := by
  obtain ⟨blanks, tail, hblanks, rfl, _⟩ := h.of_mark
  intro d hd
  cases blanks with
  | nil =>
    cases hd
    simp only [List.mem_cons, List.not_mem_nil, or_false] at hc
    rcases hc with rfl | rfl | rfl
    all_goals decide
  | cons blank blanks =>
    cases hd
    have hspace := hblanks d List.mem_cons_self
    simp only [isSpace, Bool.or_eq_true, decide_eq_true_eq] at hspace
    rcases hspace with ((rfl | rfl) | rfl) | rfl
    all_goals decide

end Layouts

namespace Reader

variable {tokens : List Token} {text rest blanks middle tail : List Char} {fuel : Nat}

theorem moves_skipValueWith_digit {c : Char} {digits : List Char}
    (hblanks : ∀ d ∈ blanks, isSpace d) (hc : c.isDigit)
    (h : Moves skipNumber (c :: digits) () rest) :
    Moves (skipValueWith (fuel + 1)) (blanks ++ c :: digits) () rest := by
  unfold skipValueWith
  apply Moves.bind (moves_peekToken_cons hblanks (isSpace_of_isDigit hc))
  split
  . next heq => cases heq
  iterate 7
    . next heq =>
      cases heq
      cases hc
  . next heq =>
    cases heq
    rw [if_pos hc]
    exact h

theorem moves_skipValueWith_number (n : Number) (hblanks : ∀ d ∈ blanks, isSpace d)
    (hrest : EndsNumber rest) :
    Moves (skipValueWith (fuel + 1)) (blanks ++ (n.text ++ rest)) () rest := by
  have hunsigned := moves_skipNumber n.isWhole n.isFraction n.isExponent hrest
  unfold Number.text
  cases n.negative with
  | true =>
    simp only [if_true, List.append_assoc, List.cons_append, List.nil_append]
    unfold skipValueWith
    apply Moves.bind (moves_peekToken_cons hblanks (by decide))
    apply Moves.bind moves_advance hunsigned
  | false =>
    obtain ⟨c, digits, hwhole, hc⟩ := n.isWhole.eq_cons
    rw [hwhole] at hunsigned ⊢
    simp only [Bool.false_eq_true, if_false, List.append_assoc, List.cons_append, List.nil_append]
    apply moves_skipValueWith_digit hblanks hc hunsigned

/--
The blanks before a value are passed over, and its first character shows that a list has not ended.
-/
theorem moves_peekToken_datum {value : Datum} (h : Lays (value.tokens ++ tokens) text rest) :
    ∃ c after, Moves peekToken text (some c) (c :: after) ∧ c ≠ ']' ∧
      Lays (value.tokens ++ tokens) (c :: after) rest := by
  obtain ⟨token, more, htokens, htoken⟩ := value.tokens_eq_cons
  rw [htokens, List.cons_append] at h ⊢
  cases h with
  | cons hblanks hchars h =>
    obtain ⟨c, chars, rfl, hspace, hc⟩ := hchars.eq_cons htoken
    refine ⟨c, _, moves_peekToken_cons hblanks hspace, hc, ?_⟩
    apply @Lays.cons _ _ [] _ _ _ nofun hchars h

/--
Wherever a value is laid out, a reader that passes over it ends behind it.
-/
def Skipped (value : Datum) : Prop :=
  ∀ {fuel : Nat} {text rest : List Char}, value.tokens.length ≤ fuel →
    Lays value.tokens text rest → EndsNumber rest →
      Moves (skipValueWith fuel) text () rest

theorem moves_skipItems_end
    (hvalue : Moves (skipValueWith fuel) text () middle)
    (hend : Lays [.mark ']'] middle rest) : Moves (skipItems (fuel + 1)) text () rest := by
  obtain ⟨blanks, tail, hblanks, rfl, hnil⟩ := hend.of_mark
  cases hnil
  unfold skipItems
  apply Moves.bind hvalue
  apply Moves.bind (moves_peekToken_cons hblanks (by decide))
  apply moves_advance

theorem moves_skipItems_next
    (hvalue : Moves (skipValueWith fuel) text () (blanks ++ ',' :: tail))
    (hblanks : ∀ d ∈ blanks, isSpace d) (hmore : Moves (skipItems fuel) tail () rest) :
    Moves (skipItems (fuel + 1)) text () rest := by
  unfold skipItems
  apply Moves.bind hvalue
  apply Moves.bind (moves_peekToken_cons hblanks (by decide))
  apply Moves.bind moves_advance hmore

theorem moves_skipItems {item : Datum} {items : List Datum}
    (hitems : ∀ i ∈ item :: items, Skipped i)
    (hfuel : item.tokens.length + (Datum.itemTokens items).length ≤ fuel)
    (h : Lays (item.tokens ++ Datum.itemTokens items) text rest) :
    Moves (skipItems fuel) text () rest := by
  induction items generalizing item fuel text with
  | nil =>
    unfold Datum.itemTokens at hfuel h
    rw [List.length_singleton] at hfuel
    obtain ⟨fuel, rfl⟩ : ∃ less, fuel = less + 1 := ⟨fuel - 1, by omega⟩
    obtain ⟨middle, hitem, hend⟩ := h.of_append
    apply moves_skipItems_end _ hend
    apply hitems item List.mem_cons_self (by omega) hitem
    apply hend.endsNumber (by simp)
  | cons next items ih =>
    unfold Datum.itemTokens at hfuel h
    rw [List.length_cons, List.length_append] at hfuel
    obtain ⟨fuel, rfl⟩ : ∃ less, fuel = less + 1 := ⟨fuel - 1, by omega⟩
    obtain ⟨middle, hitem, hmore⟩ := h.of_append
    have hends := hmore.endsNumber (by simp)
    obtain ⟨blanks, tail, hblanks, rfl, hnext⟩ := hmore.of_mark
    apply moves_skipItems_next _ hblanks
    . apply ih (fun i hi => hitems i (List.mem_cons_of_mem item hi)) (by omega) hnext
    . apply hitems item List.mem_cons_self (by omega) hitem hends

theorem moves_skipKey {key : String} (h : Lays (.string key :: .mark ':' :: tokens) text rest) :
    ∃ tail, Moves skipKey text () tail ∧ Lays tokens tail rest := by
  obtain ⟨blanks, chars, after, hblanks, hchars, rfl, hcolon⟩ := h.of_string
  obtain ⟨blanks', tail, hblanks', rfl, htokens⟩ := hcolon.of_mark
  refine ⟨tail, ?_, htokens⟩
  unfold skipKey
  apply Moves.bind (moves_peekToken_cons hblanks (by decide))
  apply Moves.bind moves_advance
  apply Moves.bind (moves_skipString hchars)
  apply Moves.bind (moves_peekToken_cons hblanks' (by decide))
  apply moves_advance

theorem moves_skipMembers_end (hkey : Moves skipKey text () tail)
    (hvalue : Moves (skipValueWith fuel) tail () middle)
    (hend : Lays [.mark '}'] middle rest) : Moves (skipMembers (fuel + 1)) text () rest := by
  obtain ⟨blanks, after, hblanks, rfl, hnil⟩ := hend.of_mark
  cases hnil
  unfold skipMembers
  apply Moves.bind hkey
  apply Moves.bind hvalue
  apply Moves.bind (moves_peekToken_cons hblanks (by decide))
  apply moves_advance

theorem moves_skipMembers_next (hkey : Moves skipKey text () middle)
    (hvalue : Moves (skipValueWith fuel) middle () (blanks ++ ',' :: tail))
    (hblanks : ∀ d ∈ blanks, isSpace d) (hmore : Moves (skipMembers fuel) tail () rest) :
    Moves (skipMembers (fuel + 1)) text () rest := by
  unfold skipMembers
  apply Moves.bind hkey
  apply Moves.bind hvalue
  apply Moves.bind (moves_peekToken_cons hblanks (by decide))
  apply Moves.bind moves_advance hmore

theorem moves_skipMembers {m : String × Datum} {members : List (String × Datum)}
    (hmembers : ∀ m' ∈ m :: members, Skipped m'.2)
    (hfuel : m.2.tokens.length + (Datum.membersTokens members).length ≤ fuel)
    (h : Lays (Datum.memberTokens m ++ Datum.membersTokens members) text rest) :
    Moves (skipMembers fuel) text () rest := by
  induction members generalizing m fuel text with
  | nil =>
    unfold Datum.membersTokens at hfuel h
    rw [Datum.memberTokens_eq] at h
    rw [List.length_singleton] at hfuel
    obtain ⟨fuel, rfl⟩ : ∃ less, fuel = less + 1 := ⟨fuel - 1, by omega⟩
    obtain ⟨tail, hkey, hvalue⟩ := moves_skipKey h
    obtain ⟨middle, hvalue, hend⟩ := hvalue.of_append
    apply moves_skipMembers_end hkey _ hend
    apply hmembers m List.mem_cons_self (by omega) hvalue
    apply hend.endsNumber (by simp)
  | cons next members ih =>
    unfold Datum.membersTokens at hfuel h
    rw [Datum.memberTokens_eq m] at h
    simp only [Datum.memberTokens_eq, List.length_cons, List.length_append] at hfuel
    obtain ⟨fuel, rfl⟩ : ∃ less, fuel = less + 1 := ⟨fuel - 1, by omega⟩
    obtain ⟨tail, hkey, hvalue⟩ := moves_skipKey h
    obtain ⟨middle, hvalue, hmore⟩ := hvalue.of_append
    have hends := hmore.endsNumber (by simp)
    obtain ⟨blanks, tail', hblanks, rfl, hnext⟩ := hmore.of_mark
    apply moves_skipMembers_next hkey _ hblanks
    . apply ih (fun m' hm => hmembers m' (List.mem_cons_of_mem m hm)) (by omega) hnext
    . apply hmembers m List.mem_cons_self (by omega) hvalue hends

theorem moves_skipValueWith_list (hblanks : ∀ d ∈ blanks, isSpace d)
    (h : Moves
      (peekToken >>= fun c => match c with
        | some ']' => advance
        | none => failNext "EOF while parsing a list"
        | some _ => skipItems fuel) text () rest) :
    Moves (skipValueWith (fuel + 1)) (blanks ++ '[' :: text) () rest := by
  unfold skipValueWith
  apply Moves.bind (moves_peekToken_cons hblanks (by decide))
  apply Moves.bind moves_advance h

theorem skipped_list {items : List Datum} (hitems : ∀ item ∈ items, Skipped item) :
    Skipped (.list items) := by
  intro fuel text rest hfuel h hrest
  cases items with
  | nil =>
    unfold Datum.tokens at hfuel h
    rw [List.length_cons] at hfuel
    obtain ⟨fuel, rfl⟩ : ∃ less, fuel = less + 1 := ⟨fuel - 1, by omega⟩
    obtain ⟨blanks, tail, hblanks, rfl, hend⟩ := h.of_mark
    obtain ⟨blanks', tail', hblanks', rfl, hnil⟩ := hend.of_mark
    cases hnil
    apply moves_skipValueWith_list hblanks
    apply Moves.bind (moves_peekToken_cons hblanks' (by decide))
    apply moves_advance
  | cons item items =>
    unfold Datum.tokens at hfuel h
    rw [List.length_cons, List.length_append] at hfuel
    obtain ⟨fuel, rfl⟩ : ∃ less, fuel = less + 1 := ⟨fuel - 1, by omega⟩
    obtain ⟨blanks, tail, hblanks, rfl, hitems'⟩ := h.of_mark
    apply moves_skipValueWith_list hblanks
    obtain ⟨c, after, hpeek, hc, hafter⟩ := moves_peekToken_datum hitems'
    apply Moves.bind hpeek
    split
    . next heq =>
      cases heq
      exact absurd rfl hc
    . next heq => cases heq
    . apply moves_skipItems hitems (by omega) hafter

theorem moves_skipValueWith_object (hblanks : ∀ d ∈ blanks, isSpace d)
    (h : Moves
      (peekToken >>= fun c => match c with
        | some '}' => advance
        | none => failNext "EOF while parsing an object"
        | some _ => skipMembers fuel) text () rest) :
    Moves (skipValueWith (fuel + 1)) (blanks ++ '{' :: text) () rest := by
  unfold skipValueWith
  apply Moves.bind (moves_peekToken_cons hblanks (by decide))
  apply Moves.bind moves_advance h

theorem skipped_object {members : List (String × Datum)} (hmembers : ∀ m ∈ members, Skipped m.2) :
    Skipped (.object members) := by
  intro fuel text rest hfuel h hrest
  cases members with
  | nil =>
    unfold Datum.tokens at hfuel h
    rw [List.length_cons] at hfuel
    obtain ⟨fuel, rfl⟩ : ∃ less, fuel = less + 1 := ⟨fuel - 1, by omega⟩
    obtain ⟨blanks, tail, hblanks, rfl, hend⟩ := h.of_mark
    obtain ⟨blanks', tail', hblanks', rfl, hnil⟩ := hend.of_mark
    cases hnil
    apply moves_skipValueWith_object hblanks
    apply Moves.bind (moves_peekToken_cons hblanks' (by decide))
    apply moves_advance
  | cons m members =>
    unfold Datum.tokens at hfuel h
    simp only [Datum.memberTokens_eq, List.length_cons, List.length_append] at hfuel
    obtain ⟨fuel, rfl⟩ : ∃ less, fuel = less + 1 := ⟨fuel - 1, by omega⟩
    obtain ⟨blanks, tail, hblanks, rfl, hmembers'⟩ := h.of_mark
    apply moves_skipValueWith_object hblanks
    rw [Datum.memberTokens_eq] at hmembers'
    obtain ⟨blanks', chars, tail', hblanks', hchars, rfl, hmore⟩ := hmembers'.of_string
    apply Moves.bind (moves_peekToken_cons hblanks' (by decide))
    apply moves_skipMembers hmembers (by omega)
    rw [Datum.memberTokens_eq]
    have hlays := @Lays.cons _ _ [] _ _ _ nofun (.string hchars) hmore
    simpa using hlays

theorem skipped_of_token {value : Datum} {token : Token} (hvalue : value.tokens = [token])
    (htoken : ∀ {fuel : Nat} {blanks chars rest : List Char}, (∀ d ∈ blanks, isSpace d) →
      token.Writes chars → EndsNumber rest →
        Moves (skipValueWith (fuel + 1)) (blanks ++ (chars ++ rest)) () rest) :
    Skipped value := by
  intro fuel text rest hfuel h hrest
  rw [hvalue] at hfuel h
  rw [List.length_singleton] at hfuel
  obtain ⟨fuel, rfl⟩ : ∃ less, fuel = less + 1 := ⟨fuel - 1, by omega⟩
  cases h with
  | cons hblanks hchars hnil =>
    cases hnil
    apply htoken hblanks hchars hrest

theorem skipped (value : Datum) : Skipped value := by
  induction value using Datum.induction with
  | list items ih => exact skipped_list ih
  | object members ih => exact skipped_object ih
  | null =>
    apply skipped_of_token rfl
    intro fuel blanks chars rest hblanks hchars _
    cases hchars
    unfold skipValueWith
    apply Moves.bind (moves_peekToken_cons hblanks (by decide))
    apply Moves.bind moves_advance (moves_word _)
  | bool value =>
    apply skipped_of_token rfl
    intro fuel blanks chars rest hblanks hchars _
    unfold skipValueWith
    cases hchars with
    | isTrue =>
      apply Moves.bind (moves_peekToken_cons hblanks (by decide))
      apply Moves.bind moves_advance (moves_word _)
    | isFalse =>
      apply Moves.bind (moves_peekToken_cons hblanks (by decide))
      apply Moves.bind moves_advance (moves_word _)
  | number value =>
    apply skipped_of_token rfl
    intro fuel blanks chars rest hblanks hchars hrest
    cases hchars
    apply moves_skipValueWith_number value hblanks hrest
  | string value =>
    apply skipped_of_token rfl
    intro fuel blanks chars rest hblanks hchars _
    cases hchars with
    | string hspells =>
      simp only [List.cons_append, List.append_assoc, List.nil_append]
      unfold skipValueWith
      apply Moves.bind (moves_peekToken_cons hblanks (by decide))
      apply Moves.bind moves_advance (moves_skipString hspells)

theorem moves_skipValue {value : Datum} (h : Lays value.tokens text rest)
    (hrest : EndsNumber rest) : Moves skipValue text () rest := by
  unfold skipValue
  apply moves_get_bind
  intro line column
  have hlength := h.length_le
  apply skipped value _ h hrest
  dsimp only
  omega

end Reader

section Printing

/--
One way to write a token: the characters of a string are escaped only where they have to be.
-/
def Token.text : Token → List Char
  | .mark c => [c]
  | .null => ['n', 'u', 'l', 'l']
  | .bool true => ['t', 'r', 'u', 'e']
  | .bool false => ['f', 'a', 'l', 's', 'e']
  | .number n => n.text
  | .string s => quote s

/--
The text of a value with the same blanks before each token.
-/
def Datum.print (blanks : List Char) (value : Datum) : List Char :=
  value.tokens.flatMap fun token => blanks ++ token.text

theorem Token.writes_text (token : Token) : token.Writes token.text := by
  cases token with
  | mark c => exact .mark
  | null => exact .null
  | bool value =>
    cases value with
    | true => exact .isTrue
    | false => exact .isFalse
  | number n => exact .number
  | string s => exact .string (spells_flatMap_escapeChar s.toList)

variable {blanks : List Char}

theorem lays_flatMap_text (hblanks : ∀ c ∈ blanks, isSpace c) (tokens : List Token) :
    Lays tokens (tokens.flatMap fun token => blanks ++ token.text) [] := by
  induction tokens with
  | nil => exact .nil
  | cons token tokens ih =>
    rw [List.flatMap_cons, List.append_assoc]
    apply Lays.cons hblanks token.writes_text ih

theorem Datum.printed_print (hblanks : ∀ c ∈ blanks, isSpace c) (value : Datum) :
    value.Printed (value.print blanks) := by
  refine ⟨[], ?_, nofun⟩
  apply lays_flatMap_text hblanks

end Printing

end ComponentDoc.Json
