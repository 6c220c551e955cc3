import ComponentDoc.Columns.Decode
import ComponentDoc.Proofs.Json.Spelling

/-!
Reading whole values. `Value.parse` reads a text that is one value with white space around it and
keeps the members of objects in the order of the text. It gives back every value that was written
with `Value.pretty`.
-/

namespace ComponentDoc.Json

namespace Reader

open ColumnConfig (hasMember colon)

mutual

/--
Read a value; `fuel` bounds the number of steps.
-/
def valueWith : Nat → Reader Value
  | 0 => failNext "EOF while parsing a value"
  | fuel + 1 => do
    match ← peekToken with
    | none => failNext "EOF while parsing a value"
    | some 'n' => do
      advance
      word ['u', 'l', 'l']
      return .null
    | some 't' => do
      advance
      word ['r', 'u', 'e']
      return .bool true
    | some 'f' => do
      advance
      word ['a', 'l', 's', 'e']
      return .bool false
    | some '"' => do
      advance
      return .string (← string)
    | some '{' => do
      advance
      return .object (← membersWith fuel true)
    | some _ => failNext "expected value"

/--
Read the members of an object and its end.
-/
def membersWith : Nat → Bool → Reader (List (String × Value))
  | 0, _ => failNext "EOF while parsing an object"
  | fuel + 1, first => do
    if ← hasMember first then
      advance
      let key ← string
      colon
      let value ← valueWith fuel
      return (key, value) :: (← membersWith fuel false)
    else
      advance
      return []

end

/--
Read a value that is the whole of a text.
-/
def document : Reader Value := do
  let value ← valueWith ((← get).rest.length + 1)
  match ← peekToken with
  | some _ => failNext "trailing characters"
  | none => return value

end Reader

/--
The value that a text describes.
-/
def Value.parse (text : String) : Except Fault Value :=
  match Reader.document.run { rest := text.toList } with
  | .ok (value, _) => .ok value
  | .error fault => .error fault

theorem Value.induction {motive : Value → Prop} (null : motive .null)
    (bool : ∀ value, motive (.bool value)) (string : ∀ value, motive (.string value))
    (object : ∀ members, (∀ m ∈ members, motive m.2) → motive (.object members))
    (value : Value) : motive value := by
  apply @Value.rec motive (fun members => ∀ m ∈ members, motive m.2) (fun m => motive m.2) null bool
    string object
  . exact nofun
  . intro m members hm hmembers
    exact List.forall_mem_cons.2 ⟨hm, hmembers⟩
  . intro key value hvalue
    exact hvalue

namespace Reader

open ColumnConfig (hasMember colon)

variable {blanks blanks' rest before after text tail : List Char} {fuel level : Nat}

theorem moves_hasMember_first (hblanks : ∀ c ∈ blanks, isSpace c) :
    Moves (hasMember true) (blanks ++ '"' :: rest) true ('"' :: rest) := by
  apply Moves.bind (moves_peekToken_cons hblanks (by decide))
  exact moves_pure true

theorem moves_hasMember_next (hblanks : ∀ c ∈ blanks, isSpace c)
    (hblanks' : ∀ c ∈ blanks', isSpace c) :
    Moves (hasMember false) (blanks ++ ',' :: (blanks' ++ '"' :: rest)) true ('"' :: rest) := by
  apply Moves.bind (moves_peekToken_cons hblanks (by decide))
  apply Moves.bind moves_advance
  apply Moves.bind (moves_peekToken_cons hblanks' (by decide))
  exact moves_pure true

theorem moves_hasMember_end {first : Bool} (hblanks : ∀ c ∈ blanks, isSpace c) :
    Moves (hasMember first) (blanks ++ '}' :: rest) false ('}' :: rest) := by
  apply Moves.bind (moves_peekToken_cons hblanks (by decide))
  exact moves_pure false

theorem moves_colon (hblanks : ∀ c ∈ blanks, isSpace c) :
    Moves colon (blanks ++ ':' :: rest) () rest := by
  apply Moves.bind (moves_peekToken_cons hblanks (by decide))
  exact moves_advance

theorem quote_append (s : String) :
    quote s ++ rest = '"' :: (s.toList.flatMap escapeChar ++ '"' :: rest) := by
  unfold quote
  rw [List.append_assoc, List.cons_append]
  rfl

theorem isSpace_of_mem_indentation {c : Char} (h : c ∈ indentation level) : isSpace c := by
  unfold indentation at h
  rw [List.mem_cons, List.mem_replicate] at h
  rcases h with rfl | ⟨_, rfl⟩
  . rfl
  . rfl

theorem moves_membersWith_end {first : Bool} (hblanks : ∀ c ∈ blanks, isSpace c) :
    Moves (membersWith (fuel + 1) first) (blanks ++ '}' :: rest) [] rest := by
  unfold membersWith
  apply Moves.bind (moves_hasMember_end hblanks)
  apply Moves.bind moves_advance
  exact moves_pure []

theorem moves_membersWith_cons {first : Bool} {key : String} {value : Value}
    {members : List (String × Value)}
    (hmember : Moves (hasMember first) before true (quote key ++ ':' :: text))
    (hvalue : Moves (valueWith fuel) text value tail)
    (hmembers : Moves (membersWith fuel false) tail members after) :
    Moves (membersWith (fuel + 1) first) before ((key, value) :: members) after := by
  rw [quote_append] at hmember
  unfold membersWith
  apply Moves.bind hmember
  apply Moves.bind moves_advance
  apply Moves.bind (moves_string key)
  apply Moves.bind (moves_colon (by simp : ∀ c ∈ [], isSpace c))
  apply Moves.bind hvalue
  apply Moves.bind hmembers
  exact moves_pure _

/--
Wherever the text of a value stands, it is read as that value.
-/
def ReadBack (value : Value) : Prop :=
  ∀ {level fuel : Nat} {blanks rest : List Char}, (∀ c ∈ blanks, isSpace c) →
    (writeChars level value).length < fuel →
      Moves (valueWith fuel) (blanks ++ (writeChars level value ++ rest)) value rest

theorem writeMember_append (key : String) (value : Value) :
    writeMember level (key, value) ++ rest =
      indentation level ++ (quote key ++ ':' :: ([' '] ++ (writeChars level value ++ rest))) := by
  unfold writeMember
  simp only [List.append_assoc, List.cons_append, List.nil_append]

theorem moves_membersWith_writeMember {first : Bool} {key : String} {value : Value}
    {members : List (String × Value)} (hvalue : ReadBack value)
    (hfuel : (writeMember level (key, value)).length ≤ fuel)
    (hmember : Moves (hasMember first) before true
      (quote key ++ ':' :: ([' '] ++ (writeChars level value ++ tail))))
    (hmembers : Moves (membersWith fuel false) tail members after) :
    Moves (membersWith (fuel + 1) first) before ((key, value) :: members) after := by
  apply moves_membersWith_cons hmember ?_ hmembers
  apply hvalue
  . intro c hc
    cases List.mem_singleton.1 hc
    rfl
  . unfold writeMember indentation at hfuel
    simp only [List.length_append, List.length_cons] at hfuel
    omega

theorem moves_membersWith_writeMembers {members : List (String × Value)}
    (hmembers : ∀ m ∈ members, ReadBack m.2) (hblanks : ∀ c ∈ blanks, isSpace c)
    (hfuel : (writeMembers level members).length < fuel) :
    Moves (membersWith fuel false) (writeMembers level members ++ (blanks ++ '}' :: rest)) members
      rest := by
  induction members generalizing fuel with
  | nil =>
    cases fuel with
    | zero => cases hfuel
    | succ fuel =>
      unfold writeMembers
      exact moves_membersWith_end hblanks
  | cons m members ih =>
    cases fuel with
    | zero => cases hfuel
    | succ fuel =>
      unfold writeMembers at hfuel ⊢
      simp only [List.length_append, List.length_cons] at hfuel
      -- The comma pays for the step that is taken here.
      have hmember : (writeMember level m).length ≤ fuel := by
        omega
      rw [List.append_assoc, List.cons_append]
      apply moves_membersWith_writeMember (hmembers m List.mem_cons_self) hmember
      . rw [writeMember_append, quote_append]
        apply @moves_hasMember_next [] _ _ nofun
        exact fun c hc => isSpace_of_mem_indentation hc
      . apply ih
        . exact fun m hm => hmembers m (List.mem_cons_of_mem _ hm)
        . omega

/--
The members of an object behind its opening brace, the first of them without a comma.
-/
theorem moves_membersWith_object {m : String × Value} {members : List (String × Value)}
    (hmembers : ∀ m' ∈ m :: members, ReadBack m'.2)
    (hfuel : (writeMember level m).length + (writeMembers level members).length < fuel)
    (hblanks : ∀ c ∈ blanks, isSpace c) :
    Moves (membersWith (fuel + 1) true)
      (writeMember level m ++ (writeMembers level members ++ (blanks ++ '}' :: rest)))
      (m :: members) rest := by
  have hmember : (writeMember level m).length ≤ fuel := by
    omega
  apply moves_membersWith_writeMember (hmembers m List.mem_cons_self) hmember
  . rw [writeMember_append, quote_append]
    apply moves_hasMember_first
    exact fun c hc => isSpace_of_mem_indentation hc
  . apply moves_membersWith_writeMembers _ hblanks
    . omega
    . exact fun m' hm => hmembers m' (List.mem_cons_of_mem m hm)

theorem readBack_object {members : List (String × Value)}
    (hmembers : ∀ m ∈ members, ReadBack m.2) : ReadBack (.object members) := by
  intro level fuel blanks rest hblanks hfuel
  cases fuel with
  | zero => cases hfuel
  | succ fuel =>
    cases fuel with
    | zero =>
      cases members with
      | nil => simp [writeChars] at hfuel
      | cons => simp [writeChars] at hfuel
    | succ fuel =>
      unfold valueWith
      cases members with
      | nil =>
        unfold writeChars
        apply Moves.bind (moves_peekToken_cons hblanks (by decide))
        apply Moves.bind moves_advance
        apply Moves.bind (@moves_membersWith_end [] _ _ _ nofun)
        exact moves_pure _
      | cons m members =>
        unfold writeChars at hfuel ⊢
        simp only [List.length_append, List.length_cons] at hfuel
        simp only [List.append_assoc, List.cons_append, List.nil_append]
        apply Moves.bind (moves_peekToken_cons hblanks (by decide))
        apply Moves.bind moves_advance
        apply Moves.bind (moves_membersWith_object hmembers _ _)
        . exact moves_pure _
        . omega
        . exact fun c hc => isSpace_of_mem_indentation hc

theorem readBack_null : ReadBack .null := by
  intro level fuel blanks rest hblanks hfuel
  cases fuel with
  | zero => cases hfuel
  | succ fuel =>
    unfold valueWith writeChars
    apply Moves.bind (moves_peekToken_cons hblanks (by decide))
    apply Moves.bind moves_advance
    apply Moves.bind (moves_word _)
    exact moves_pure _

theorem readBack_bool (value : Bool) : ReadBack (.bool value) := by
  intro level fuel blanks rest hblanks hfuel
  cases fuel with
  | zero => cases hfuel
  | succ fuel =>
    unfold valueWith
    cases value with
    | false =>
      unfold writeChars
      apply Moves.bind (moves_peekToken_cons hblanks (by decide))
      apply Moves.bind moves_advance
      apply Moves.bind (moves_word _)
      exact moves_pure _
    | true =>
      unfold writeChars
      apply Moves.bind (moves_peekToken_cons hblanks (by decide))
      apply Moves.bind moves_advance
      apply Moves.bind (moves_word _)
      exact moves_pure _

theorem readBack_string (value : String) : ReadBack (.string value) := by
  intro level fuel blanks rest hblanks hfuel
  cases fuel with
  | zero => cases hfuel
  | succ fuel =>
    unfold valueWith writeChars
    rw [quote_append]
    apply Moves.bind (moves_peekToken_cons hblanks (by decide))
    apply Moves.bind moves_advance
    apply Moves.bind (moves_string value)
    exact moves_pure _

theorem readBack (value : Value) : ReadBack value := by
  induction value using Value.induction with
  | null => exact readBack_null
  | bool value => exact readBack_bool value
  | string value => exact readBack_string value
  | object members ih => exact readBack_object ih

theorem moves_document (value : Value) (hblanks : ∀ c ∈ blanks, isSpace c) :
    Moves document (writeChars level value ++ blanks) value [] := by
  unfold document
  apply moves_get_bind
  intro line column
  have hlength : (writeChars level value).length <
      (writeChars level value ++ blanks).length + 1 := by
    rw [List.length_append]
    omega
  have hvalue := @readBack value _ _ [] blanks nofun hlength
  apply Moves.bind hvalue
  have hend := @moves_peekToken [] blanks hblanks nofun
  rw [List.append_nil] at hend
  apply Moves.bind hend
  exact moves_pure value

end Reader

/--
The text of a value is one document, whatever white space follows it.
-/
theorem Value.parse_pretty_append (value : Value) {blanks : String}
    (hblanks : ∀ c ∈ blanks.toList, Reader.isSpace c) :
    Value.parse (value.pretty ++ blanks) = .ok value := by
  obtain ⟨line, column, hrun⟩ := @Reader.moves_document _ 0 value hblanks 1 0
  unfold Value.parse Value.pretty
  rw [String.toList_append, String.toList_ofList, hrun]

theorem Value.parse_pretty (value : Value) : Value.parse value.pretty = .ok value := by
  rw [← @String.append_empty value.pretty]
  apply parse_pretty_append
  exact nofun

end ComponentDoc.Json
