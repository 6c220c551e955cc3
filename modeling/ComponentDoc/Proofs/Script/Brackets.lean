import ComponentDoc.Proofs.Script.Operand

/-!
Reading printed arrays and objects. Both are read in rounds, each of which takes a part, a comma or
the closing bracket; what one round does determines what is read between the brackets.
-/

namespace ComponentDoc.Script

open ComponentDoc.Script.Parser

variable {source rest : List Char} {o : Nat} {c : Cursor} {r : Rules} {context : Context}

section Rounds

variable {α : Type} {step : List Tree → Parser (List Tree ⊕ List Tree)} {bracket : Char}
  {print : α → List Char} {Shows : List Tree → List α → Prop}

/--
What the rounds do that read some parts and the bracket behind them: each adds trees to those found
before, and trees that show some parts still show them behind those of a comma, and show one part
more behind its own.
-/
structure ReadsRounds (source : List Char) (step : List Tree → Parser (List Tree ⊕ List Tree))
    (bracket : Char) (print : α → List Char) (Shows : List Tree → List α → Prop)
    (parts : List α) : Prop where
  close : ∀ before rest o,
    step before ⟨bracket :: rest, o⟩ = .ok (.inr before.reverse, ⟨rest, o + 1⟩)
  comma : ∀ before rest o, ∃ trees,
    step before ⟨',' :: rest, o⟩ = .ok (.inl (trees.reverse ++ before), ⟨rest, o + 1⟩) ∧
      ∀ more others, Shows more others → Shows (trees ++ more) others
  part : ∀ a ∈ parts, ∀ before x rest o, x = ',' ∨ x = bracket →
    source.drop o = print a ++ x :: rest →
      ∃ trees, step before ⟨print a ++ x :: rest, o⟩ =
          .ok (.inl (trees.reverse ++ before), ⟨x :: rest, o + (print a).length⟩) ∧
        ∀ more others, Shows more others → Shows (trees ++ more) (a :: others)
  nil : Shows [] []
  pos : ∀ a ∈ parts, 0 < (print a).length

namespace ReadsRounds

variable {a : α} {parts : List α}

theorem tail (h : ReadsRounds source step bracket print Shows (a :: parts)) :
    ReadsRounds source step bracket print Shows parts :=
  { h with
    part := fun b hb => h.part b (List.mem_cons_of_mem _ hb)
    pos := fun b hb => h.pos b (List.mem_cons_of_mem _ hb) }

theorem part_more (h : ReadsRounds source step bracket print Shows (a :: parts))
    {more : List (List Char)}
    (hsource : source.drop o = print a ++ (printMore more ++ bracket :: rest))
    (before : List Tree) :
    ∃ trees, step before ⟨print a ++ (printMore more ++ bracket :: rest), o⟩ =
        .ok (.inl (trees.reverse ++ before),
          ⟨printMore more ++ bracket :: rest, o + (print a).length⟩) ∧
      ∀ more others, Shows more others → Shows (trees ++ more) (a :: others) := by
  obtain ⟨x, tail, htail, hx⟩ := exists_printMore_cons more bracket rest
  rw [htail] at hsource ⊢
  exact h.part a List.mem_cons_self before x tail o hx hsource

/--
The rounds behind a part. Each part and the comma before it take two rounds and at least two
characters, so a round for each character is enough.
-/
theorem loop_eq (h : ReadsRounds source step bracket print Shows parts) {fuel : List Char}
    (hfuel : (printMore (parts.map print)).length < fuel.length)
    (hsource : source.drop o = printMore (parts.map print) ++ bracket :: rest)
    (before : List Tree) :
    ∃ trees, loop step fuel before ⟨printMore (parts.map print) ++ bracket :: rest, o⟩ =
        .ok (before.reverse ++ trees,
          ⟨rest, o + (printMore (parts.map print)).length + 1⟩) ∧
      Shows trees parts := by
  induction parts generalizing fuel before o with
  | nil =>
    cases fuel with
    | nil => cases hfuel
    | cons y fuel =>
      refine ⟨[], ?_, h.nil⟩
      rw [List.append_nil]
      exact loop_inr (h.close before rest o)
  | cons a parts ih =>
    have hpos := h.pos a List.mem_cons_self
    rw [List.map_cons, length_printMore_cons] at hfuel
    -- One round for the comma and one for the part.
    obtain ⟨y, z, fuel, rfl⟩ : ∃ y z more, fuel = y :: z :: more := by
      cases fuel with
      | nil => cases hfuel
      | cons y fuel =>
        cases fuel with
        | nil =>
          rw [List.length_singleton] at hfuel
          omega
        | cons z fuel => exact ⟨y, z, fuel, rfl⟩
    have hfuel' : (printMore (parts.map print)).length < fuel.length := by
      simp only [List.length_cons] at hfuel
      omega
    rw [List.map_cons, printMore_cons] at hsource ⊢
    have hsource' := @drop_add_of_drop source [','] _ _ hsource
    obtain ⟨comma, hcomma, hshowsComma⟩ := h.comma before _ o
    obtain ⟨first, hstep, hshows⟩ := h.part_more hsource' (comma.reverse ++ before)
    obtain ⟨trees, hloop, htrees⟩ :=
      ih h.tail hfuel' (drop_add_of_drop hsource') (first.reverse ++ (comma.reverse ++ before))
    refine ⟨comma ++ (first ++ trees), ?_, hshowsComma _ _ (hshows _ _ htrees)⟩
    simp only [List.length_singleton] at hstep hloop
    rw [loop_inl hcomma, loop_inl hstep, hloop, length_printMore_cons]
    simp only [List.reverse_append, List.reverse_reverse, List.append_assoc]
    congr 3
    omega

/--
All rounds between the brackets.
-/
theorem repeated_eq (h : ReadsRounds source step bracket print Shows parts)
    (hsource : source.drop o = printSeparated (parts.map print) ++ bracket :: rest) :
    ∃ trees, repeated step [] ⟨printSeparated (parts.map print) ++ bracket :: rest, o⟩ =
        .ok (trees, ⟨rest, o + (printSeparated (parts.map print)).length + 1⟩) ∧
      Shows trees parts := by
  cases parts with
  | nil => exact ⟨[], repeated_inr (h.close [] rest o), h.nil⟩
  | cons a parts =>
    rw [List.map_cons, printSeparated, List.append_assoc] at hsource ⊢
    obtain ⟨first, hstep, hshows⟩ := h.part_more hsource []
    have hfuel : (printMore (parts.map print)).length <
        (' ' :: (print a ++ (printMore (parts.map print) ++ bracket :: rest))).length := by
      simp only [List.length_cons, List.length_append]
      omega
    obtain ⟨trees, hloop, htrees⟩ :=
      h.tail.loop_eq hfuel (drop_add_of_drop hsource) (first.reverse ++ [])
    refine ⟨first ++ trees, ?_, hshows _ _ htrees⟩
    unfold repeated
    rw [get_bind, loop_inl hstep, hloop, List.length_append, Nat.add_assoc o, List.append_nil,
      List.reverse_reverse]

theorem repeated_printBracketed (h : ReadsRounds source step bracket print Shows parts)
    {opening : Char}
    (hsource : source.drop o = printBracketed opening bracket (parts.map print) ++ rest) :
    ∃ trees,
      repeated step [] ⟨printSeparated (parts.map print) ++ bracket :: rest, o + 1⟩ =
        .ok (trees, ⟨rest, o + (printBracketed opening bracket (parts.map print)).length⟩) ∧
      Shows trees parts := by
  rw [printBracketed_append] at hsource
  obtain ⟨trees, hread, hshows⟩ := h.repeated_eq (@drop_add_of_drop source [opening] _ _ hsource)
  rw [length_printBracketed]
  refine ⟨trees, hread.trans ?_, hshows⟩
  rw [List.length_singleton]
  congr 3
  omega

end ReadsRounds

end Rounds

namespace Rules

section Arrays

theorem spreadable_eq {c : Cursor} (h : StartsLiteral c) :
    r.spreadable c = r.expression {} c := by
  unfold spreadable
  rw [atOperand_bind, h.stays, if_neg]
  rw [beq_iff_eq]
  exact h.punctuator_ne (by decide)

/--
One round of the items of an array or of a call.
-/
def itemStep (r : Rules) (close : String) (items : List Tree) :
    Parser (List Tree ⊕ List Tree) := do
  let items := (← comments).reverse ++ items
  if ← eat close then
    return .inr items.reverse
  else if ← eat "," then
    return .inl items
  else
    let item ← r.spreadable
    if (← atPunctuator ",") || (← atPunctuator close) then
      return .inl (item :: items)
    else
      unexpected

theorem items_eq (close : String) : r.items close = repeated (r.itemStep close) [] :=
  rfl

theorem itemStep_close (items : List Tree) (rest : List Char) (o : Nat) :
    r.itemStep "]" items ⟨']' :: rest, o⟩ = .ok (.inr items.reverse, ⟨rest, o + 1⟩) := by
  have hstay := skipTrivia_of_head (x := ']') rfl false rest o
  have hclose : punctuator (skipTrivia false ⟨']' :: rest, o⟩).rest = "]" := by
    rw [hstay]
    rfl
  unfold itemStep
  rw [comments_bind, trivia_of_head rfl, bind_of_ok (eat_of_eq hclose), hstay]
  rfl

theorem itemStep_comma (items : List Tree) (rest : List Char) (o : Nat) :
    r.itemStep "]" items ⟨',' :: rest, o⟩ = .ok (.inl items, ⟨rest, o + 1⟩) := by
  have hstay := skipTrivia_of_head (x := ',') rfl false rest o
  have hcomma : punctuator (skipTrivia false ⟨',' :: rest, o⟩).rest = "," := by
    rw [hstay]
    rfl
  have hclose : punctuator (skipTrivia false ⟨',' :: rest, o⟩).rest ≠ "]" := by
    rw [hcomma]
    decide
  unfold itemStep
  rw [comments_bind, trivia_of_head rfl, bind_of_ok (eat_of_ne hclose),
    if_neg Bool.false_ne_true, bind_of_ok (eat_of_eq hcomma), hstay]
  rfl

theorem itemStep_item {c : Cursor} (hc : StartsLiteral c) {t : Tree} {x : Char}
    {tail : List Char} (hread : r.spreadable c = .ok (t, ⟨x :: tail, o⟩))
    (hx : x = ',' ∨ x = ']') (items : List Tree) :
    r.itemStep "]" items c = .ok (.inl (t :: items), ⟨x :: tail, o⟩) := by
  have hclose : punctuator (skipTrivia false c).rest ≠ "]" := by
    rw [hc.stays]
    exact hc.punctuator_ne (by decide)
  have hcomma : punctuator (skipTrivia false c).rest ≠ "," := by
    rw [hc.stays]
    exact hc.punctuator_ne (by decide)
  unfold itemStep
  rw [comments_bind, hc.noComments, bind_of_ok (eat_of_ne hclose), if_neg Bool.false_ne_true,
    bind_of_ok (eat_of_ne hcomma), if_neg Bool.false_ne_true, bind_of_ok hread,
    atPunctuator_bind, atPunctuator_bind]
  obtain rfl | rfl := hx
  . rw [skipTrivia_of_head rfl]
    rfl
  . rw [skipTrivia_of_head rfl]
    rfl

variable {items : List Literal}

theorem readsRounds_items (hitems : ∀ e ∈ items, e.Valid ∧ ReadsLiteral source r e) :
    ReadsRounds source (r.itemStep "]") ']' Literal.print (ShowsItems source) items where
  close := itemStep_close
  comma := fun before rest o => ⟨[], itemStep_comma before rest o, fun _ _ h => h⟩
  part := by
    intro e he before x rest o hx hsource
    have hstops : Stops (x :: rest) := by
      intro y hy
      cases hy
      obtain rfl | rfl := hx
      . exact Or.inl rfl
      . exact Or.inr (Or.inr rfl)
    have hstarts := startsLiteral_print (hitems e he).1 hstops o
    obtain ⟨t, hread, hshows⟩ := (hitems e he).2 {} _ _ _ hstops hsource hstarts.stays
    rw [← spreadable_eq hstarts] at hread
    exact ⟨[t], itemStep_item hstarts hread hx before, fun _ _ h => h.cons hshows⟩
  nil := showsItems_nil
  pos := fun e he => print_length_pos (hitems e he).1

theorem arrayLiteral_print (hitems : ∀ e ∈ items, e.Valid ∧ ReadsLiteral source r e)
    (hsource : source.drop o = (Literal.array items).print ++ rest)
    (hc : LexemeAt c ⟨(Literal.array items).print ++ rest, o⟩) :
    ∃ t, r.arrayLiteral c = .ok (t, ⟨rest, o + (Literal.array items).print.length⟩) ∧
      ShowsLiteral source t ⟨o, o + (Literal.array items).print.length⟩ (.array items) := by
  rw [Literal.print_array] at hsource hc ⊢
  obtain ⟨trees, hread, hshows⟩ := (readsRounds_items hitems).repeated_printBracketed hsource
  rw [printBracketed_append] at hc
  have hopen : punctuator (skipTrivia false c).rest = "[" := by
    rw [hc]
    rfl
  refine ⟨_, ?_, hshows.array⟩
  unfold arrayLiteral
  rw [atOperand_bind, bind_of_ok (expect_of_eq hopen), items_eq, hc, hc]
  exact (bind_of_ok hread).trans rfl

end Arrays

section Keys

variable {key : Key}

theorem exists_key_cons (hkey : key.Valid) :
    ∃ x tail, key.print = x :: tail ∧ startsLexeme x = true ∧
      ∀ rest, punctuator (x :: rest) = "" := by
  cases key with
  | bare name =>
    obtain ⟨x, tail, hname, hx⟩ := hkey.isName.exists_cons
    exact ⟨x, tail, hname, startsLexeme_of_isNameStart hx, punctuator_of_isNameStart hx⟩
  | quoted text => exact ⟨'\'', text.toList ++ ['\''], rfl, rfl, fun _ => rfl⟩

theorem endsWord_colon (rest : List Char) : EndsWord (':' :: rest) := by
  intro x hx
  cases hx
  exact ⟨rfl, by decide⟩

theorem atModifier_key (hkey : key.Valid) (modifiers : List String) (rest : List Char) (o : Nat) :
    atModifier modifiers ⟨key.print ++ ':' :: rest, o⟩ =
      .ok (false, ⟨key.print ++ ':' :: rest, o⟩) := by
  obtain ⟨x, tail, hcons, hx, _⟩ := exists_key_cons hkey
  have hstay : skipTrivia true ⟨key.print ++ ':' :: rest, o⟩ = ⟨key.print ++ ':' :: rest, o⟩ := by
    rw [hcons]
    exact skipTrivia_of_head hx _ _ _
  have hname : startsName (':' :: rest) = false := by
    simp [startsName, wordLength_of_endsWord (endsWord_colon rest)]
  unfold atModifier
  rw [atOperand_bind, hstay]
  cases key with
  | bare name =>
    rw [Key.print, hkey.isName.word?_eq (endsWord_colon rest)]
    dsimp only
    rw [skipTrivia_of_head rfl, hname, Bool.and_false]
    rfl
  | quoted text =>
    have hword : word? ⟨(Key.quoted text).print ++ ':' :: rest, o⟩ = none := by
      apply word?_of_endsWord
      intro y hy
      cases hy
      exact ⟨rfl, by decide⟩
    rw [hword]
    rfl

theorem propertyName_of_name {name : List Char} (hname : IsName name) (hrest : EndsWord rest)
    (o : Nat) :
    r.propertyName ⟨name ++ rest, o⟩ =
      .ok (.node ⟨.propertyName, .plain⟩ ⟨o, o + name.length⟩ [], ⟨rest, o + name.length⟩) := by
  have hlength := hname.wordLength_eq hrest
  have hleaf := leafAt_append .propertyName name rest o ⟨name ++ rest, o⟩
  obtain ⟨x, tail, rfl, hx⟩ := hname.exists_cons
  rw [List.cons_append] at hlength hleaf ⊢
  unfold propertyName
  rw [atOperand_bind, skipTrivia_of_head (startsLexeme_of_isNameStart hx)]
  dsimp only
  refine run_congr (q := leafAt .propertyName ⟨x :: (tail ++ rest), o⟩ (x :: tail).length) ?_ hleaf
  split
  all_goals first
    | next heq =>
      cases heq
      cases hx
    | skip
  rw [hlength, if_pos]
  exact Nat.succ_pos _

theorem propertyName_print (hkey : key.Valid)
    (hsource : source.drop o = key.print ++ ':' :: rest) :
    ∃ t, r.propertyName ⟨key.print ++ ':' :: rest, o⟩ =
        .ok (t, ⟨':' :: rest, o + key.print.length⟩) ∧ ShowsKey source t key := by
  cases key with
  | bare name =>
    exact ⟨_, propertyName_of_name hkey.isName (endsWord_colon rest) o,
      showsKey_bare (Span.text_of_drop hsource)⟩
  | quoted text =>
    have hread : r.propertyName ⟨printString '\'' text ++ ':' :: rest, o⟩ = _ :=
      stringLiteral_print hkey (Or.inr rfl) fun markup => skipTrivia_of_head rfl markup _ o
    exact ⟨_, hread, showsKey_quoted (Span.slice_of_drop hsource)⟩

end Keys

section Objects

variable {key : Key} {e : Literal} {comments : List Comment}

theorem entryValue_print (he : e.Valid ∧ ReadsLiteral source r e) (hrest : Stops rest)
    (hsource : source.drop o = e.print ++ rest) :
    ∃ t, r.entryValue ⟨e.print ++ rest, o⟩ =
        .ok (t.withRole .value, ⟨rest, o + e.print.length⟩) ∧
      ShowsLiteral source t ⟨o, o + e.print.length⟩ e := by
  have hstarts := startsLiteral_print he.1 hrest o
  obtain ⟨t, hread, hshows⟩ := he.2 {} _ _ _ hrest hsource hstarts.stays
  refine ⟨t, ?_, hshows⟩
  unfold entryValue
  rw [get_bind, peekPunctuator_bind, hstarts.stays, if_neg, bind_of_ok hread]
  . rfl
  . obtain hp | hp | hp := hstarts.punctuator
    all_goals
      rw [hp]
      decide

theorem objectEntry_print (hkey : key.Valid) (he : e.Valid ∧ ReadsLiteral source r e)
    (hrest : Stops rest)
    (hsource : source.drop o = key.print ++ ':' :: (e.print ++ rest)) :
    ∃ name value, r.objectEntry ⟨key.print ++ ':' :: (e.print ++ rest), o⟩ =
        .ok (.node ⟨.pair, .plain⟩ ⟨o, o + key.print.length + 1 + e.print.length⟩
            [name.withRole .key, value.withRole .value],
          ⟨rest, o + key.print.length + 1 + e.print.length⟩) ∧
      ShowsKey source name key ∧
      ShowsLiteral source value
        ⟨o + key.print.length + 1, o + key.print.length + 1 + e.print.length⟩ e := by
  obtain ⟨name, hname, hshowsKey⟩ := propertyName_print (r := r) hkey hsource
  have hvalueSource : source.drop (o + key.print.length + 1) = e.print ++ rest :=
    @drop_add_of_drop source [':'] _ _ (drop_add_of_drop hsource)
  obtain ⟨value, hvalue, hshows⟩ := entryValue_print he hrest hvalueSource
  obtain ⟨x, tail, hcons, hx, hpunctuator⟩ := exists_key_cons hkey
  have hstay : ∀ markup, skipTrivia markup ⟨key.print ++ ':' :: (e.print ++ rest), o⟩ =
      ⟨key.print ++ ':' :: (e.print ++ rest), o⟩ := by
    intro markup
    rw [hcons]
    exact skipTrivia_of_head hx _ _ _
  have hnone : punctuator (key.print ++ ':' :: (e.print ++ rest)) = "" := by
    rw [hcons]
    exact hpunctuator _
  have hcolon : punctuator (skipTrivia false
      ⟨':' :: (e.print ++ rest), o + key.print.length⟩).rest = ":" := by
    rw [skipTrivia_of_head rfl]
    rfl
  refine ⟨name, value, ?_, hshowsKey, hshows⟩
  unfold objectEntry
  rw [atOperand_bind, hstay]
  dsimp only
  rw [hnone, if_neg (by decide), if_neg (by decide), bind_of_ok (atModifier_key hkey _ _ o),
    atPunctuator_bind, hstay, hnone, if_neg (by decide), bind_of_ok hname, peekPunctuator_bind,
    hcolon, if_pos (by decide), bind_of_ok (expect_of_eq hcolon), skipTrivia_of_head rfl]
  exact (bind_of_ok hvalue).trans rfl

/--
One round of an object literal.
-/
def objectStep (r : Rules) (items : List Tree) : Parser (List Tree ⊕ List Tree) := do
  let items := (← Parser.comments).reverse ++ items
  let d ← get
  match punctuator d.rest with
  | "\x7d" =>
    set (d.advance 1)
    return .inr items.reverse
  | "," => return .inl ((← leafAt .punctuation d 1) :: items)
  | _ =>
    let entry ← r.objectEntry
    let q ← peekPunctuator
    if q == "," || q == "\x7d" then
      return .inl (entry :: items)
    else
      unexpected

theorem objectLiteral_eq (c : Cursor) :
    r.objectLiteral c =
      (do
        expect "\x7b"
        let children ← repeated r.objectStep []
        node .object (skipTrivia true c).offset children : Parser Tree) c :=
  rfl

theorem objectStep_close (items : List Tree) (rest : List Char) (o : Nat) :
    objectStep r items ⟨'}' :: rest, o⟩ = .ok (.inr items.reverse, ⟨rest, o + 1⟩) := by
  unfold objectStep
  rw [comments_bind, trivia_of_head rfl]
  rfl

theorem objectStep_comma (items : List Tree) (rest : List Char) (o : Nat) :
    objectStep r items ⟨',' :: rest, o⟩ =
      .ok (.inl (.node ⟨.punctuation, .plain⟩ ⟨o, o + 1⟩ [] :: items), ⟨rest, o + 1⟩) := by
  unfold objectStep
  rw [comments_bind, trivia_of_head rfl]
  rfl

theorem objectStep_of_entry {c d : Cursor} {trees : List Tree} {t : Tree} {x : Char}
    {tail : List Char} (htrivia : trivia true c = (trees, d)) (hd : punctuator d.rest = "")
    (hread : r.objectEntry d = .ok (t, ⟨x :: tail, o⟩)) (hx : x = ',' ∨ x = '}')
    (items : List Tree) :
    objectStep r items c = .ok (.inl (t :: (trees.reverse ++ items)), ⟨x :: tail, o⟩) := by
  have hstep : objectStep r items c =
      (do
        let entry ← r.objectEntry
        let q ← peekPunctuator
        if q == "," || q == "\x7d" then
          return .inl (entry :: (trees.reverse ++ items))
        else
          unexpected : Parser (List Tree ⊕ List Tree)) d := by
    unfold objectStep
    rw [comments_bind, htrivia]
    dsimp only
    rw [get_bind, hd]
    rfl
  rw [hstep, bind_of_ok hread, peekPunctuator_bind]
  obtain rfl | rfl := hx
  . rw [skipTrivia_of_head rfl]
    rfl
  . rw [skipTrivia_of_head rfl]
    rfl

/--
Whether an entry can be read back, if the rules at hand read its value back.
-/
def ReadsEntry (source : List Char) (r : Rules) (entry : LiteralEntry Literal) : Prop :=
  (∀ comment ∈ entry.comments, comment.Valid) ∧ entry.key.Valid ∧
    entry.value.Valid ∧ ReadsLiteral source r entry.value

variable {entry : LiteralEntry Literal} {entries : List (LiteralEntry Literal)}

theorem objectStep_entry (hentry : ReadsEntry source r entry) {x : Char} (hx : x = ',' ∨ x = '}')
    (hsource : source.drop o = printEntry entry ++ x :: rest) (before : List Tree) :
    ∃ trees, objectStep r before ⟨printEntry entry ++ x :: rest, o⟩ =
        .ok (.inl (trees.reverse ++ before), ⟨x :: rest, o + (printEntry entry).length⟩) ∧
      ShowsEntry source trees entry := by
  obtain ⟨comments, key, e⟩ := entry
  simp only [ReadsEntry] at hentry
  obtain ⟨hcomments, hkey, he⟩ := hentry
  have hstops : Stops (x :: rest) := by
    intro y hy
    cases hy
    obtain rfl | rfl := hx
    . exact Or.inl rfl
    . exact Or.inr (Or.inl rfl)
  have hprint : printEntry ⟨comments, key, e⟩ ++ (x :: rest) =
      printComments comments ++ (key.print ++ ':' :: (e.print ++ x :: rest)) := by
    simp [printEntry]
  have hlength : o + (printComments comments).length + key.print.length + 1 + e.print.length =
      o + (printEntry ⟨comments, key, e⟩).length := by
    simp only [printEntry, List.length_append, List.length_cons]
    omega
  obtain ⟨y, more, hcons, hy, hpunctuator⟩ := exists_key_cons hkey
  rw [hprint] at hsource ⊢
  have hkeySource := drop_add_of_drop hsource
  have hvalueSource := @drop_add_of_drop source [':'] _ _ (drop_add_of_drop hkeySource)
  obtain ⟨name, value, hread, hshowsKey, hshows⟩ := objectEntry_print hkey he hstops hkeySource
  have hnone : punctuator (key.print ++ ':' :: (e.print ++ x :: rest)) = "" := by
    rw [hcons]
    exact hpunctuator _
  have htriviaSource : source.drop o =
      printComments comments ++ y :: (more ++ ':' :: (e.print ++ x :: rest)) := by
    rw [hsource, hcons]
    rfl
  obtain ⟨trees, htrivia, hshowsComments⟩ := trivia_print hcomments hy htriviaSource
  rw [← List.cons_append, ← hcons] at htrivia
  have hstep := objectStep_of_entry htrivia hnone hread hx before
  rw [hlength] at hstep
  refine ⟨_, ?_, showsEntry_pair hshowsComments hshowsKey hshows hvalueSource
    ⟨o + (printComments comments).length, o + (printEntry ⟨comments, key, e⟩).length⟩⟩
  rw [hstep, List.reverse_append]
  rfl

theorem readsRounds_entries (hentries : ∀ entry ∈ entries, ReadsEntry source r entry) :
    ReadsRounds source (objectStep r) '}' printEntry (ShowsEntries source) entries where
  close := objectStep_close
  comma := fun before rest o =>
    ⟨[_], objectStep_comma before rest o, fun _ _ h => h.comma ⟨o, o + 1⟩⟩
  part := by
    intro entry hentry before x rest o hx hsource
    obtain ⟨trees, hstep, hshows⟩ := objectStep_entry (hentries entry hentry) hx hsource before
    exact ⟨trees, hstep, fun _ _ h => h.cons hshows⟩
  nil := showsEntries_nil
  pos := by
    intro entry hentry
    rw [printEntry, List.length_append, List.length_append, List.length_cons]
    omega

theorem objectLiteral_print (hentries : ∀ entry ∈ entries, ReadsEntry source r entry)
    (hsource : source.drop o = (Literal.object entries).print ++ rest)
    (hc : LexemeAt c ⟨(Literal.object entries).print ++ rest, o⟩) :
    ∃ t, r.objectLiteral c = .ok (t, ⟨rest, o + (Literal.object entries).print.length⟩) ∧
      ShowsLiteral source t ⟨o, o + (Literal.object entries).print.length⟩ (.object entries) := by
  rw [Literal.print_object] at hsource hc ⊢
  obtain ⟨trees, hread, hshows⟩ := (readsRounds_entries hentries).repeated_printBracketed hsource
  rw [printBracketed_append] at hc
  have hopen : punctuator (skipTrivia false c).rest = "\x7b" := by
    rw [hc]
    rfl
  refine ⟨_, ?_, hshows.object⟩
  rw [objectLiteral_eq, bind_of_ok (expect_of_eq hopen), hc, hc]
  exact (bind_of_ok hread).trans rfl

end Objects

section Values

theorem primary_array {items : List Literal}
    (hitems : ∀ e ∈ items, e.Valid ∧ ReadsLiteral source r e) (hrest : Stops rest)
    (hsource : source.drop o = (Literal.array items).print ++ rest)
    (hc : LexemeAt c ⟨(Literal.array items).print ++ rest, o⟩) :
    ∃ t, r.primary context c = .ok (t, ⟨rest, o + (Literal.array items).print.length⟩) ∧
      ShowsLiteral source t ⟨o, o + (Literal.array items).print.length⟩ (.array items) := by
  obtain ⟨t, hread, hshows⟩ := arrayLiteral_print hitems hsource hc.self
  refine ⟨t, ?_, hshows⟩
  rw [← bracketed_of_ok hread hrest]
  rw [Literal.print] at hc ⊢
  unfold primary
  rw [atOperand_bind, hc]
  rfl

theorem primary_object {entries : List (LiteralEntry Literal)}
    (hentries : ∀ entry ∈ entries, ReadsEntry source r entry) (hrest : Stops rest)
    (hsource : source.drop o = (Literal.object entries).print ++ rest)
    (hc : LexemeAt c ⟨(Literal.object entries).print ++ rest, o⟩) :
    ∃ t, r.primary context c = .ok (t, ⟨rest, o + (Literal.object entries).print.length⟩) ∧
      ShowsLiteral source t ⟨o, o + (Literal.object entries).print.length⟩ (.object entries) := by
  obtain ⟨t, hread, hshows⟩ := objectLiteral_print hentries hsource hc.self
  refine ⟨t, ?_, hshows⟩
  rw [← bracketed_of_ok hread hrest]
  rw [Literal.print] at hc ⊢
  unfold primary
  rw [atOperand_bind, hc]
  rfl

end Values

end Rules

end ComponentDoc.Script
