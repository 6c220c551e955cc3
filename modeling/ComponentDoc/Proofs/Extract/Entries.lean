import ComponentDoc.Proofs.Extract.Accounted

/-!
What a tolerant pass makes of the entries of an object, for props, methods and data fields alike.
Each key has one record, at the place of the first entry with the key and made from the last one.
What is reported goes entry by entry, also for the entries that a later one replaces.
-/

namespace ComponentDoc

open Pass Script

namespace Script.Entry

def description (options : Options) (entry : Entry Expr) : String :=
  (resolveComments entry.comments).getD options.noDescription

def record (options : Options) (entry : Entry Expr) : Record :=
  ⟨entry.key, entry.description options⟩

def gaps (category : String) (entry : Entry Expr) : List Problem :=
  descriptionGaps category entry.key (resolveComments entry.comments)

def prop (options : Options) (entry : Entry Expr) : PropRecord :=
  match entry.value with
  | .object members =>
    let o := PropOptions.ofEntries options.typeDelimiter members
    ⟨entry.key, o.type, entry.description options, o.required, o.default⟩
  | value =>
    ⟨entry.key, some (typeLabel options.typeDelimiter value), entry.description options, none, none⟩

theorem summary_prop (options : Options) (entry : Entry Expr) :
    (entry.prop options).summary = entry.record options := by
  unfold Entry.prop
  split
  . rfl
  . rfl

/--
Whether an entry declares a prop by options that do not say its type.
-/
def isUntyped (entry : Entry Expr) : Bool :=
  match entry.value with
  | .object members => members.all fun member => member.key ≠ "type"
  | _ => false

def propGaps (entry : Entry Expr) : List Problem :=
  entry.gaps "prop" ++ if entry.isUntyped then [.missingType entry.key] else []

/--
The last of several entries with a key.
-/
def lastWith (entries : List (Entry Expr)) (key : String) : Option (Entry Expr) :=
  entries.reverse.find? fun entry => entry.key = key

theorem key_of_lastWith {entries : List (Entry Expr)} {key : String} {entry : Entry Expr}
    (h : lastWith entries key = some entry) : entry.key = key := by
  simpa using List.find?_some h

theorem lastWith_append_singleton (entries : List (Entry Expr)) (entry : Entry Expr)
    (key : String) :
    lastWith (entries ++ [entry]) key =
      if entry.key = key then some entry else lastWith entries key := by
  unfold lastWith
  rw [List.reverse_append, List.reverse_singleton, List.singleton_append, List.find?_cons]
  by_cases h : entry.key = key
  . simp [h]
  . simp [h]

theorem lastWith_eq_none {entries : List (Entry Expr)} {key : String} :
    lastWith entries key = none ↔ ∀ entry ∈ entries, entry.key ≠ key := by
  unfold lastWith
  simp

end Script.Entry

open Entry

namespace PropOptions

variable (delimiter : String) (o : PropOptions) (member : Entry Expr) (members : List (Entry Expr))

theorem type_add :
    (o.add delimiter member).type =
      if member.key = "type" then some (typeLabel delimiter member.value) else o.type := by
  grind [add]

theorem ofEntries_append_singleton :
    ofEntries delimiter (members ++ [member]) =
      (ofEntries delimiter members).add delimiter member := by
  unfold ofEntries
  rw [List.foldl_append]
  rfl

theorem type_ofEntries :
    (ofEntries delimiter members).type =
      (lastWith members "type").map fun member => typeLabel delimiter member.value := by
  induction members using List.reverseRecOn with
  | nil => rfl
  | append_singleton members member ih =>
    rw [ofEntries_append_singleton, type_add, lastWith_append_singleton, ih]
    split
    . rfl
    . rfl

theorem isNone_type_ofEntries :
    (ofEntries delimiter members).type.isNone =
      members.all fun member => decide (member.key ≠ "type") := by
  rw [type_ofEntries, Option.isNone_map, Bool.eq_iff_iff, Option.isNone_iff_eq_none,
    lastWith_eq_none]
  simp

end PropOptions

/--
Whether a function returns a value: it is that expression, or the first `return` among the
statements of its block has it. What stands behind that `return` does not matter.
-/
inductive Returns : FunctionBody Expr → Expr → Prop where
  | expression (value : Expr) : Returns (.expression value) value
  | statement (n : Nat) (value : Expr) (rest : List (Statement Expr)) :
      Returns (.block (List.replicate n .other ++ .return (some value) :: rest)) value

theorem firstReturn_replicate (n : Nat) (value : Option Expr) (rest : List (Statement Expr)) :
    Statement.firstReturn (List.replicate n .other ++ .return value :: rest) = value := by
  induction n with
  | zero => rfl
  | succ n ih =>
    rw [List.replicate_succ, List.cons_append, Statement.firstReturn]
    exact ih

theorem Returns.returned_eq {body : FunctionBody Expr} {value : Expr} (h : Returns body value) :
    body.returned = some value := by
  cases h with
  | expression => rfl
  | statement n value rest => exact firstReturn_replicate n (some value) rest

theorem extractData_of_returns {body : FunctionBody Expr} {entries : List (Entry Expr)}
    (h : Returns body (.object entries)) :
    extractData (.function body) = extractRecords "data" entries := by
  dsimp only [extractData]
  rw [h.returned_eq]

theorem extractData_of_bare_return (n : Nat) (rest : List (Statement Expr)) :
    extractData (.function (.block (List.replicate n .other ++ .return none :: rest))) =
      throw (.malformed "data" "function returns no value") := by
  dsimp only [extractData, FunctionBody.returned]
  rw [firstReturn_replicate]

section Tolerant

variable {options : Options} (hmode : options.strict = false)
include hmode

theorem exec_propRecord (entry : Entry Expr) (log : List Problem) :
    (propRecord entry).exec options log = (.ok (entry.prop options), log ++ entry.propGaps) := by
  unfold propRecord
  rw [exec_bind_of_ok (exec_describe hmode _ _ _), exec_bind_of_ok exec_read]
  unfold Entry.prop propGaps isUntyped
  cases entry.value with
  | object members =>
    dsimp only
    rw [PropOptions.isNone_type_ofEntries]
    by_cases hall : (members.all fun member => decide (member.key ≠ "type")) = true
    . rw [if_pos hall, if_pos hall, exec_bind, exec_report, hmode, ← List.append_assoc]
      rfl
    . rw [if_neg hall, if_neg hall, List.append_nil]
      rfl
  | _ =>
    rw [if_neg Bool.false_ne_true, List.append_nil]
    rfl

theorem exec_extractRecords (category : String) (entries : List (Entry Expr))
    (log : List Problem) :
    (extractRecords category entries).exec options log =
      (.ok (.collect Entry.key (Entry.record options) entries),
        log ++ entries.flatMap (Entry.gaps category)) := by
  apply exec_foldlM_of_step
  intro records entry log
  rw [exec_bind_of_ok (exec_describe hmode _ _ _)]
  rfl

theorem exec_extractProps (entries : List (Entry Expr)) (log : List Problem) :
    (extractProps (.object entries)).exec options log =
      (.ok (.collect Entry.key (Entry.prop options) entries),
        log ++ entries.flatMap propGaps) := by
  apply exec_foldlM_of_step
  intro props entry log
  rw [exec_bind_of_ok (exec_propRecord hmode entry log)]
  rfl

/--
The entries of an object lead to one map of props and to one map of records, which is the same for
methods and for data fields. All have the keys of the entries in the order of their first
occurrence, and what stands at a key comes from the last entry with the key. The log grows entry
by entry, by a problem for each that has no description and then, for props, by one for each that
has no type. A function whose first `return` is bare has no data, whatever stands behind it.
-/
theorem object_entries_collected (entries : List (Entry Expr)) (log : List Problem) :
    ∃ (props : OrderedMap String PropRecord) (records : OrderedMap String Record),
      (extractProps (.object entries)).exec options log =
        (.ok props, log ++ entries.flatMap propGaps) ∧
      (extractMethods (.object entries)).exec options log =
        (.ok records, log ++ entries.flatMap (Entry.gaps "method")) ∧
      (∀ body, Returns body (.object entries) →
        (extractData (.function body)).exec options log =
          (.ok records, log ++ entries.flatMap (Entry.gaps "data"))) ∧
      (∀ n rest, (extractData (.function
          (.block (List.replicate n .other ++ .return none :: rest)))).exec options log =
        (.error (.malformed "data" "function returns no value"), log)) ∧
      props.keys = (entries.map Entry.key).eraseDups ∧
      records.keys = (entries.map Entry.key).eraseDups ∧
      (∀ key, props.get? key = (lastWith entries key).map (Entry.prop options)) ∧
      (∀ key, (props.get? key).map PropRecord.summary = records.get? key) ∧
      ∀ key, records.get? key =
        (lastWith entries key).map fun entry => ⟨key, entry.description options⟩ := by
  have hprops := OrderedMap.get?_collect Entry.key (Entry.prop options) entries
  have hrecords := OrderedMap.get?_collect Entry.key (Entry.record options) entries
  refine ⟨_, _, exec_extractProps hmode entries log, exec_extractRecords hmode _ entries log,
    ?_, ?_, OrderedMap.keys_collect _ _ entries, OrderedMap.keys_collect _ _ entries,
    hprops, ?_, ?_⟩
  . intro body hbody
    rw [extractData_of_returns hbody, exec_extractRecords hmode]
  . intro n rest
    rw [extractData_of_bare_return, exec_throw]
  . intro key
    rw [hprops, hrecords, Option.map_map]
    congr 1
    funext entry
    exact summary_prop options entry
  . intro key
    rw [hrecords]
    apply Option.map_congr
    intro entry hlast
    rw [Entry.record, key_of_lastWith hlast]

end Tolerant

/--
A key that occurs twice, first with a comment and without a type, then the other way round: the
record is that of the second entry at the place of the first, and both gaps are reported.
-/
theorem object_entries_collected_repeated :
    ∃ (entries : List (Entry Expr)) (props : OrderedMap String PropRecord)
        (records : OrderedMap String Record),
      (extractProps (.object entries)).exec {} [] =
        (.ok props, [.missingType "a", .missingDescription "prop" "b",
          .missingDescription "prop" "a"]) ∧
      (extractData (.function (.block [.other, .return (some (.object entries)),
          .return none]))).exec {} [] =
        (.ok records, [.missingDescription "data" "b", .missingDescription "data" "a"]) ∧
      props.keys = ["a", "b"] ∧
      props.get? "a" = some ⟨"a", some "Number", "no description", none, none⟩ ∧
      records.get? "a" = some ⟨"a", "no description"⟩ := by
  let entries : List (Entry Expr) :=
    [⟨"a", .object [], "", [⟨" one ", false⟩]⟩, ⟨"b", .identifier "String", "", []⟩,
      ⟨"a", .identifier "Number", "", []⟩]
  obtain ⟨props, records, hprops, _, hdata, _, hkeys, _, hprop, _, hrecord⟩ :=
    @object_entries_collected {} rfl entries []
  refine ⟨entries, props, records, hprops, ?_, hkeys, hprop "a", hrecord "a"⟩
  exact hdata _ (.statement 1 _ [.return none])

end ComponentDoc
