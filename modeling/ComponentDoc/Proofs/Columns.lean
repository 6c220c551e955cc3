import ComponentDoc.Proofs.Json.Document
import ComponentDoc.Proofs.Json.Layout
import ComponentDoc.Proofs.OrderedMap

/-!
What a column configuration says. A configuration is printed as a JSON object: each category at
most once, with pairs of a column key and its label in which keys may repeat, and any other members
between them. However it is laid out, it is read, and what is read depends on the pairs of each
category alone.
-/

namespace ComponentDoc

open Json Json.Reader

namespace Json.Datum

/--
The tokens behind the brace that opens an object, or behind one of its members.
-/
def membersFrom (first : Bool) : List (String × Datum) → List Token
  | [] => [.mark '}']
  | m :: members =>
    (if first then [] else [.mark ',']) ++ (memberTokens m ++ membersTokens members)

theorem tokens_object (members : List (String × Datum)) :
    (Datum.object members).tokens = .mark '{' :: membersFrom true members := by
  cases members with
  | nil => rfl
  | cons m members => rfl

theorem membersFrom_cons {first : Bool} (m : String × Datum) (members : List (String × Datum)) :
    membersFrom first (m :: members) = (if first then [] else [.mark ',']) ++
      .string m.1 :: .mark ':' :: (m.2.tokens ++ membersFrom false members) := by
  have hmembers : membersTokens members = membersFrom false members := by
    cases members with
    | nil => rfl
    | cons m members => rfl
  rw [← hmembers, membersFrom, memberTokens_eq]
  rfl

theorem length_lt_length_membersFrom {first : Bool} (members : List (String × Datum)) :
    members.length < (membersFrom first members).length := by
  induction members generalizing first with
  | nil => simp [membersFrom]
  | cons m members ih =>
    have hmembers := @ih false
    rw [membersFrom_cons]
    simp only [List.length_append, List.length_cons]
    omega

end Json.Datum

namespace ColumnConfig

section Readers

variable {first : Bool} {tokens : List Token} {text rest : List Char} {fuel : Nat}
  {columns : Columns} {pairs : List (String × String)}

theorem moves_key {key : String} (h : Lays (.string key :: .mark ':' :: tokens) text rest) :
    ∃ blanks quoted after tail, (∀ c ∈ blanks, isSpace c) ∧ text = blanks ++ '"' :: quoted ∧
      Moves string quoted key after ∧ Moves colon after () tail ∧ Lays tokens tail rest := by
  obtain ⟨blanks, chars, after, hblanks, hchars, htext, hcolon⟩ := h.of_string
  obtain ⟨blanks', tail, hblanks', rfl, htokens⟩ := hcolon.of_mark
  exact ⟨blanks, _, _, tail, hblanks, htext, moves_string_spells hchars, moves_colon hblanks',
    htokens⟩

theorem moves_member {m : String × Datum} {members : List (String × Datum)}
    (h : Lays (Datum.membersFrom first (m :: members) ++ tokens) text rest) :
    ∃ quoted after tail, Moves (hasMember first) text true ('"' :: quoted) ∧
      Moves string quoted m.1 after ∧ Moves colon after () tail ∧
      Lays (m.2.tokens ++ (Datum.membersFrom false members ++ tokens)) tail rest := by
  rw [Datum.membersFrom_cons] at h
  simp only [List.append_assoc, List.cons_append] at h
  cases first with
  | true =>
    obtain ⟨blanks, quoted, after, tail, hblanks, rfl, hkey⟩ := moves_key h
    exact ⟨quoted, after, tail, moves_hasMember_first hblanks, hkey⟩
  | false =>
    obtain ⟨blanks, text', hblanks, rfl, hmember⟩ := h.of_mark
    obtain ⟨blanks', quoted, after, tail, hblanks', rfl, hkey⟩ := moves_key hmember
    exact ⟨quoted, after, tail, moves_hasMember_next hblanks hblanks', hkey⟩

theorem moves_membersEnd (h : Lays (Datum.membersFrom first [] ++ tokens) text rest) :
    ∃ tail, Moves (hasMember first) text false ('}' :: tail) ∧ Lays tokens tail rest := by
  obtain ⟨blanks, tail, hblanks, rfl, htokens⟩ := h.of_mark
  exact ⟨tail, moves_hasMember_end hblanks, htokens⟩

theorem moves_readLabel {label : String} (h : Lays (.string label :: tokens) text rest) :
    ∃ tail, Moves readLabel text label tail ∧ Lays tokens tail rest := by
  obtain ⟨blanks, chars, tail, hblanks, hchars, rfl, htokens⟩ := h.of_string
  refine ⟨tail, ?_, htokens⟩
  unfold readLabel
  apply Moves.bind (moves_peekToken_cons hblanks (by decide))
  apply Moves.bind moves_advance
  apply moves_string_spells hchars

/--
The members of the object of a category.
-/
def labels (pairs : List (String × String)) : List (String × Datum) :=
  pairs.map fun pair => (pair.1, .string pair.2)

theorem moves_columnMembers (hfuel : pairs.length < fuel)
    (h : Lays (Datum.membersFrom first (labels pairs) ++ tokens) text rest) :
    ∃ tail, Moves (columnMembers fuel first columns) text
      (pairs.foldl (fun columns pair => columns.insert pair.1 pair.2) columns) tail ∧
      Lays tokens tail rest := by
  induction pairs generalizing fuel first columns text with
  | nil =>
    obtain ⟨fuel, rfl⟩ : ∃ less, fuel = less + 1 := ⟨fuel - 1, by omega⟩
    obtain ⟨tail, hmember, htokens⟩ := moves_membersEnd h
    refine ⟨tail, ?_, htokens⟩
    unfold columnMembers
    apply Moves.bind hmember
    apply Moves.bind moves_advance
    apply moves_pure
  | cons pair pairs ih =>
    rw [List.length_cons] at hfuel
    obtain ⟨fuel, rfl⟩ : ∃ less, fuel = less + 1 := ⟨fuel - 1, by omega⟩
    obtain ⟨quoted, after, tail, hmember, hkey, hcolon, hvalue⟩ := moves_member h
    obtain ⟨tail', hlabel, hmore⟩ := moves_readLabel hvalue
    obtain ⟨tail'', hmembers, htokens⟩ := ih (Nat.lt_of_succ_lt_succ hfuel) hmore
    refine ⟨tail'', ?_, htokens⟩
    unfold columnMembers
    apply Moves.bind hmember
    apply Moves.bind moves_advance
    apply Moves.bind hkey
    apply Moves.bind hcolon
    apply Moves.bind hlabel
    apply hmembers

theorem moves_readColumns (h : Lays ((Datum.object (labels pairs)).tokens ++ tokens) text rest) :
    ∃ tail, Moves readColumns text (.ofList pairs) tail ∧ Lays tokens tail rest := by
  rw [Datum.tokens_object] at h
  obtain ⟨blanks, tail, hblanks, rfl, hmembers⟩ := h.of_mark
  have hfuel : pairs.length < tail.length + 1 := by
    have hlength := hmembers.length_le
    have hpairs := @Datum.length_lt_length_membersFrom true (labels pairs)
    have hlabels : (labels pairs).length = pairs.length := by
      apply List.length_map
    simp only [List.append_eq, List.length_append] at hlength
    omega
  obtain ⟨tail', hread, htokens⟩ := moves_columnMembers hfuel hmembers
  refine ⟨tail', ?_, htokens⟩
  unfold readColumns
  apply Moves.bind (moves_peekToken_cons hblanks (by decide))
  apply Moves.bind moves_advance
  apply moves_get_bind
  intro line column
  apply hread

end Readers

/--
A member of a printed configuration: the pairs of a category, or anything under another name.
-/
inductive Member where
  | columns (category : Category) (pairs : List (String × String))
  | other (name : String) (value : Datum)

namespace Member

def entry : Member → String × Datum
  | .columns category pairs => (category.key, .object (labels pairs))
  | .other name value => (name, value)

def category? : Member → Option Category
  | .columns category _ => some category
  | .other _ _ => none

def set (config : ColumnConfig) : Member → ColumnConfig
  | .columns category pairs => config.setColumns category (.ofList pairs)
  | .other _ _ => config

end Member

/--
The members of a configuration: no category twice, and under no other name a category.
-/
structure Admissible (members : List Member) : Prop where
  distinct : (members.filterMap Member.category?).Nodup
  foreign : ∀ name value, .other name value ∈ members → ∀ category : Category, name ≠ category.key

def document (members : List Member) : Datum :=
  .object (members.map Member.entry)

section Settings

variable {config : ColumnConfig} {category : Category} {pairs : List (String × String)}
  {m : Member} {members : List Member}

theorem Admissible.tail (h : Admissible (m :: members)) : Admissible members := by
  constructor
  . apply List.Nodup.sublist _ h.distinct
    apply List.Sublist.filterMap
    apply List.sublist_cons_self
  . intro name value hm
    apply h.foreign name value (List.mem_cons_of_mem m hm)

theorem Admissible.absent (h : Admissible (.columns category pairs :: members)) :
    ∀ pairs', .columns category pairs' ∉ members := by
  intro pairs' hm
  have hdistinct := h.distinct
  rw [List.filterMap_cons] at hdistinct
  exact (List.nodup_cons.1 hdistinct).1 (List.mem_filterMap.2 ⟨_, hm, rfl⟩)

theorem columnsOf_setColumns (config : ColumnConfig) (category other : Category)
    (columns : Columns) : (config.setColumns category columns).columnsOf other =
      if other = category then columns else config.columnsOf other := by
  cases category with
  | _ =>
    cases other with
    | _ => rfl

theorem ext_columnsOf {left right : ColumnConfig}
    (h : ∀ category, left.columnsOf category = right.columnsOf category) : left = right := by
  cases left
  cases right
  simp only [mk.injEq]
  exact ⟨h .props, h .slots, h .data, h .methods⟩

theorem columnsOf_foldl_set_of_absent (h : ∀ pairs, .columns category pairs ∉ members) :
    (members.foldl Member.set config).columnsOf category = config.columnsOf category := by
  induction members generalizing config with
  | nil => rfl
  | cons m members ih =>
    rw [List.foldl_cons, ih (fun pairs hm => h pairs (List.mem_cons_of_mem m hm))]
    cases m with
    | other name value => rfl
    | columns category' pairs =>
      have hcategory : ¬ category = category' := by
        rintro rfl
        exact h pairs List.mem_cons_self
      unfold Member.set
      dsimp only
      rw [columnsOf_setColumns, if_neg hcategory]

theorem columnsOf_foldl_set (hmembers : Admissible members)
    (h : .columns category pairs ∈ members) :
    (members.foldl Member.set config).columnsOf category = .ofList pairs := by
  induction members generalizing config with
  | nil => cases h
  | cons m members ih =>
    rw [List.foldl_cons]
    rcases List.mem_cons.1 h with rfl | h
    . rw [columnsOf_foldl_set_of_absent hmembers.absent]
      unfold Member.set
      dsimp only
      rw [columnsOf_setColumns, if_pos rfl]
    . apply ih hmembers.tail h

end Settings

section Documents

variable {first : Bool} {tokens : List Token} {text rest : List Char} {fuel : Nat}
  {seen : List Category} {config : ColumnConfig} {members : List Member}

theorem ofKey?_key (category : Category) : Category.ofKey? category.key = some category := by
  cases category with
  | _ => rfl

theorem ofKey?_eq_none {name : String} (h : ∀ category : Category, name ≠ category.key) :
    Category.ofKey? name = none := by
  have hprops : name ≠ "props" := h .props
  have hslots : name ≠ "slots" := h .slots
  have hdata : name ≠ "data" := h .data
  have hmethods : name ≠ "methods" := h .methods
  unfold Category.ofKey?
  rw [if_neg hprops, if_neg hslots, if_neg hdata, if_neg hmethods]

theorem endsNumber_membersFrom {members : List (String × Datum)}
    (h : Lays (Datum.membersFrom false members ++ tokens) text rest) : EndsNumber text := by
  cases members with
  | nil => apply h.endsNumber (by simp)
  | cons m members =>
    rw [Datum.membersFrom_cons] at h
    apply h.endsNumber (by simp)

theorem moves_configMembers (hfuel : members.length < fuel) (hmembers : Admissible members)
    (hseen : ∀ category ∈ seen, ∀ pairs, .columns category pairs ∉ members)
    (h : Lays (Datum.membersFrom first (members.map Member.entry)) text rest) :
    Moves (configMembers fuel first seen config) text (members.foldl Member.set config) rest := by
  rw [← List.append_nil (Datum.membersFrom _ _)] at h
  induction members generalizing fuel first seen config text with
  | nil =>
    obtain ⟨fuel, rfl⟩ : ∃ less, fuel = less + 1 := ⟨fuel - 1, by omega⟩
    obtain ⟨tail, hmember, hnil⟩ := moves_membersEnd h
    cases hnil
    unfold configMembers
    apply Moves.bind hmember
    apply Moves.bind moves_advance
    apply moves_pure
  | cons m members ih =>
    rw [List.length_cons] at hfuel
    obtain ⟨fuel, rfl⟩ : ∃ less, fuel = less + 1 := ⟨fuel - 1, by omega⟩
    obtain ⟨quoted, after, tail, hmember, hkey, hcolon, hvalue⟩ := moves_member h
    unfold configMembers
    apply Moves.bind hmember
    apply Moves.bind moves_advance
    apply Moves.bind hkey
    cases m with
    | columns category pairs =>
      have hfresh : ¬ seen.contains category = true := by
        intro hcategory
        apply hseen category (List.contains_iff_mem.1 hcategory) pairs List.mem_cons_self
      obtain ⟨tail', hcolumns, hmore⟩ := moves_readColumns hvalue
      dsimp only [Member.entry]
      rw [ofKey?_key]
      dsimp only
      rw [if_neg hfresh]
      apply Moves.bind hcolon
      apply Moves.bind hcolumns
      apply ih (Nat.lt_of_succ_lt_succ hfuel) hmembers.tail _ hmore
      intro other hother pairs'
      rcases List.mem_cons.1 hother with rfl | hother
      . apply hmembers.absent
      . intro hm
        apply hseen other hother pairs' (List.mem_cons_of_mem _ hm)
    | other name value =>
      obtain ⟨middle, hskipped, hmore⟩ := hvalue.of_append
      dsimp only [Member.entry]
      rw [ofKey?_eq_none (hmembers.foreign name value List.mem_cons_self)]
      apply Moves.bind hcolon
      apply Moves.bind (moves_skipValue hskipped _)
      . apply ih (Nat.lt_of_succ_lt_succ hfuel) hmembers.tail _ hmore
        intro other hother pairs' hm
        apply hseen other hother pairs' (List.mem_cons_of_mem _ hm)
      . apply endsNumber_membersFrom hmore

theorem moves_readAll (hmembers : Admissible members) (h : (document members).Printed text) :
    Moves readAll text (members.foldl Member.set {}) [] := by
  obtain ⟨rest, hlays, hrest⟩ := h
  unfold document at hlays
  rw [Datum.tokens_object] at hlays
  obtain ⟨blanks, tail, hblanks, rfl, hentries⟩ := hlays.of_mark
  have hfuel : members.length < tail.length + 1 := by
    have hlength := hentries.length_le
    have hmore := @Datum.length_lt_length_membersFrom true (members.map Member.entry)
    rw [List.length_map] at hmore
    omega
  have hread : Moves readConfig (blanks ++ '{' :: tail) (members.foldl Member.set {}) rest := by
    unfold readConfig
    apply Moves.bind (moves_peekToken_cons hblanks (by decide))
    apply Moves.bind moves_advance
    apply moves_get_bind
    intro line column
    apply moves_configMembers hfuel hmembers (by simp) hentries
  unfold readAll
  apply Moves.bind hread
  have hend := @moves_peekToken [] rest hrest nofun
  rw [List.append_nil] at hend
  apply Moves.bind hend
  apply moves_pure

theorem ofJson_eq_foldl_set {text : String} (hmembers : Admissible members)
    (h : (document members).Printed text.toList) :
    ofJson text = .ok (members.foldl Member.set {}) := by
  obtain ⟨line, column, hrun⟩ := moves_readAll hmembers h 1 0
  unfold ofJson
  rw [hrun]

theorem printed_document {blanks : List Char} (hblanks : ∀ c ∈ blanks, isSpace c)
    (members : List Member) :
    (document members).Printed (String.ofList ((document members).print blanks)).toList := by
  rw [String.toList_ofList]
  apply Datum.printed_print hblanks

/--
A printed configuration is read. Each category that it lists has its keys in the order of their
first occurrence, each with the label of its last; a category that it does not list has its
default; and nothing else in the text has an influence.
-/
theorem ofJson_printed {text : String} (hmembers : Admissible members)
    (h : (document members).Printed text.toList) :
    ∃ config, ofJson text = .ok config ∧
      (∀ category pairs, .columns category pairs ∈ members →
        (config.columnsOf category).keys = (pairs.map Prod.fst).eraseDups ∧
        ∀ key, (config.columnsOf category).get? key =
          (pairs.reverse.find? fun pair => pair.1 = key).map Prod.snd) ∧
      (∀ category, (∀ pairs, .columns category pairs ∉ members) →
        config.columnsOf category = ({} : ColumnConfig).columnsOf category) ∧
      ∀ members' text', Admissible members' → (document members').Printed (String.toList text') →
        (∀ category pairs, Member.columns category pairs ∈ members' ↔
          .columns category pairs ∈ members) → ofJson text' = .ok config := by
  refine ⟨_, ofJson_eq_foldl_set hmembers h, ?_, ?_, ?_⟩
  . intro category pairs hm
    rw [columnsOf_foldl_set hmembers hm]
    exact ⟨OrderedMap.keys_ofList pairs, OrderedMap.get?_ofList pairs⟩
  . intro category habsent
    apply columnsOf_foldl_set_of_absent habsent
  . intro members' text' hmembers' h' hsame
    rw [ofJson_eq_foldl_set hmembers' h']
    congr 1
    apply ext_columnsOf
    intro category
    by_cases hlisted : ∃ pairs, .columns category pairs ∈ members
    . obtain ⟨pairs, hm⟩ := hlisted
      rw [columnsOf_foldl_set hmembers hm,
        columnsOf_foldl_set hmembers' ((hsame category pairs).2 hm)]
    . have habsent := not_exists.1 hlisted
      rw [columnsOf_foldl_set_of_absent habsent, columnsOf_foldl_set_of_absent]
      intro pairs hm
      exact habsent pairs ((hsame category pairs).1 hm)

theorem ofJson_printed_slots :
    ∃ config,
      ofJson (String.ofList ((document [.other "note" (.list [.null, .object [("props", .null)]]),
        .columns .slots [("name", "N"), ("desc", "D"), ("name", "\"é")], .columns .props []]).print
          ['\n', ' '])) = .ok config ∧
      (config.columnsOf .slots).keys = ["name", "desc"] ∧
      (config.columnsOf .slots).get? "name" = some "\"é" ∧
      (config.columnsOf .props).keys = [] ∧ config.columnsOf .data = .basic ∧
      ofJson (String.ofList ((document [.columns .props [],
        .columns .slots [("name", "N"), ("desc", "D"), ("name", "\"é")]]).print [])) =
          .ok config := by
  have hadmissible : Admissible [.other "note" (.list [.null, .object [("props", .null)]]),
      .columns .slots [("name", "N"), ("desc", "D"), ("name", "\"é")], .columns .props []] := by
    constructor
    . decide
    . intro name value hm category
      simp only [List.mem_cons, Member.other.injEq, reduceCtorEq, List.not_mem_nil, or_false] at hm
      rw [hm.1]
      cases category with
      | _ => decide
  have hadmissible' : Admissible [.columns .props [],
      .columns .slots [("name", "N"), ("desc", "D"), ("name", "\"é")]] := by
    constructor
    . decide
    . simp
  have hblanks : ∀ c ∈ ['\n', ' '], isSpace c := by
    simp [isSpace]
  obtain ⟨config, hread, hlisted, hdefault, hsame⟩ :=
    ofJson_printed hadmissible (printed_document hblanks _)
  obtain ⟨hkeys, hlabels⟩ := hlisted .slots _ (.tail _ (.head _))
  refine ⟨config, hread, hkeys, hlabels "name", ?_, ?_, ?_⟩
  . apply (hlisted .props _ (.tail _ (.tail _ (.head _)))).1
  . apply hdefault
    simp
  . apply hsame _ _ hadmissible' (printed_document (by simp) _)
    intro category pairs
    simp [or_comm]

end Documents

end ColumnConfig

end ComponentDoc
