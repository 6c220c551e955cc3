import ComponentDoc.Proofs.Extract.Entries

/-!
How a prop is declared. The options of a prop are read key by key: the last type counts, the last
`required` that is a literal, and the text of the last default. So options with other keys do not
matter, and neither does the order among options with different keys.
-/

namespace ComponentDoc

open Pass Script Entry

/--
The names of the identifiers among some items, in order.
-/
inductive NamesOf : List Expr → List String → Prop where
  | nil : NamesOf [] []
  | name (name : String) {items : List Expr} {names : List String} (h : NamesOf items names) :
    NamesOf (.identifier name :: items) (name :: names)
  | skip {item : Expr} {items : List Expr} {names : List String}
    (hitem : ∀ name, item ≠ .identifier name) (h : NamesOf items names) :
    NamesOf (item :: items) names

/--
The label of a type by the shape of its value.
-/
inductive IsTypeLabel (delimiter : String) : Expr → String → Prop where
  | identifier (name : String) : IsTypeLabel delimiter (.identifier name) name
  | union {items : List Expr} {names : List String} (h : NamesOf items names) (hne : names ≠ []) :
    IsTypeLabel delimiter (.array items) (delimiter.intercalate names)
  | nameless {items : List Expr} (h : ∀ name, .identifier name ∉ items) :
    IsTypeLabel delimiter (.array items) "Any"
  | shapeless {value : Expr} (hname : ∀ name, value ≠ .identifier name)
    (hitems : ∀ items, value ≠ .array items) : IsTypeLabel delimiter value "Any"

section Labels

variable {items : List Expr} {names : List String}

theorem namesOf_identifierNames (items : List Expr) : NamesOf items (identifierNames items) := by
  induction items with
  | nil => exact .nil
  | cons item items ih =>
    cases item with
    | identifier name => exact .name name ih
    | _ => exact .skip nofun ih

theorem NamesOf.mem_iff (h : NamesOf items names) (name : String) :
    name ∈ names ↔ .identifier name ∈ items := by
  induction h with
  | nil => simp
  | name other h ih => simp [ih]
  | skip hitem h ih => simp [ih, (hitem name).symm]

theorem isTypeLabel_typeLabel (delimiter : String) (value : Expr) :
    IsTypeLabel delimiter value (typeLabel delimiter value) := by
  cases value with
  | identifier name => exact .identifier name
  | array items =>
    have hnames := namesOf_identifierNames items
    dsimp only [typeLabel]
    split
    . next hnil =>
      apply IsTypeLabel.nameless
      intro name hname
      rw [← hnames.mem_iff, hnil] at hname
      cases hname
    . next hne => exact .union hnames hne
  | _ => exact .shapeless nofun nofun

end Labels

namespace Script.Entry

theorem lastWith_eq_getLast? (entries : List (Entry Expr)) (key : String) :
    lastWith entries key = (entries.filter fun entry => entry.key = key).getLast? := by
  unfold lastWith
  rw [← List.head?_filter, List.filter_reverse, List.head?_reverse]

theorem lastWith_eq_some {before after : List (Entry Expr)} {entry : Entry Expr}
    (h : ∀ other ∈ after, other.key ≠ entry.key) :
    lastWith (before ++ entry :: after) entry.key = some entry := by
  have hafter : (after.filter fun other => other.key = entry.key) = [] := by
    simpa using h
  rw [lastWith_eq_getLast?, List.filter_append, List.filter_cons, hafter]
  simp

end Script.Entry

namespace PropOptions

/--
The keys of the options that a prop can have.
-/
def keys : List String :=
  ["type", "required", "default"]

/--
The literal that an option gives under `required`.
-/
def literal? (member : Entry Expr) : Option Bool :=
  match member.value with
  | .boolean required => if member.key = "required" then some required else none
  | _ => none

variable (delimiter : String) (o : PropOptions) (member : Entry Expr) (members : List (Entry Expr))

theorem required_add :
    (o.add delimiter member).required = (literal? member).or o.required := by
  unfold add literal?
  grind

theorem default_add :
    (o.add delimiter member).default =
      if member.key = "default" then some member.text else o.default := by
  grind [add]

theorem required_ofEntries :
    (ofEntries delimiter members).required = members.reverse.findSome? literal? := by
  induction members using List.reverseRecOn with
  | nil => rfl
  | append_singleton members member ih =>
    rw [ofEntries_append_singleton, required_add, ih, List.reverse_append, List.reverse_singleton,
      List.singleton_append, List.findSome?_cons]
    cases literal? member with
    | none => rfl
    | some required => rfl

theorem default_ofEntries :
    (ofEntries delimiter members).default = (lastWith members "default").map Entry.text := by
  induction members using List.reverseRecOn with
  | nil => rfl
  | append_singleton members member ih =>
    rw [ofEntries_append_singleton, default_add, lastWith_append_singleton, ih]
    split
    . rfl
    . rfl

theorem ofEntries_eq :
    ofEntries delimiter members =
      ⟨(lastWith members "type").map fun member => typeLabel delimiter member.value,
        members.reverse.findSome? literal?, (lastWith members "default").map Entry.text⟩ := by
  rw [← type_ofEntries, ← required_ofEntries delimiter, ← default_ofEntries delimiter]

theorem findSome?_literal?_filter (members : List (Entry Expr)) :
    (members.filter fun member => member.key = "required").findSome? literal? =
      members.findSome? literal? := by
  induction members with
  | nil => rfl
  | cons member members ih =>
    rw [List.filter_cons, List.findSome?_cons, ← ih]
    by_cases h : member.key = "required"
    . rw [if_pos (decide_eq_true h), List.findSome?_cons]
    . have hnone : literal? member = none := by
        unfold literal?
        split
        . exact if_neg h
        . rfl
      simp [h, hnone]

/--
Whether two lists of options have, for each key of a prop, the same options with that key in the
same order.
-/
def Agree (members members' : List (Entry Expr)) : Prop :=
  ∀ key ∈ keys, (members'.filter fun member => member.key = key) =
    members.filter fun member => member.key = key

theorem ofEntries_eq_of_agree {members members' : List (Entry Expr)} (h : Agree members members') :
    ofEntries delimiter members' = ofEntries delimiter members := by
  have hlast (key : String) (hkey : key ∈ keys) : lastWith members' key = lastWith members key := by
    rw [lastWith_eq_getLast?, lastWith_eq_getLast?, h key hkey]
  have hrequired : members'.reverse.findSome? literal? = members.reverse.findSome? literal? := by
    rw [← findSome?_literal?_filter, ← findSome?_literal?_filter members.reverse,
      List.filter_reverse, List.filter_reverse, h "required" (by decide)]
  rw [ofEntries_eq, ofEntries_eq, hlast "type" (by decide), hlast "default" (by decide), hrequired]

end PropOptions

/--
What a record says about a prop with a given value: if that holds options, the label of the last
type, the last literal under `required` and the text of the last default, and if it does not, the
label of the value itself.
-/
inductive DeclaredBy (delimiter : String) : Expr → PropRecord → Prop where
  | options {members : List (Entry Expr)} {record : PropRecord}
    (type : record.type =
      (lastWith members "type").map fun member => typeLabel delimiter member.value)
    (typeless : record.type = none ↔ ∀ member ∈ members, member.key ≠ "type")
    (required : record.required = members.reverse.findSome? PropOptions.literal?)
    (default : record.default = (lastWith members "default").map Entry.text) :
    DeclaredBy delimiter (.object members) record
  | type {value : Expr} {record : PropRecord} (hvalue : ∀ members, value ≠ .object members)
    (type : record.type = some (typeLabel delimiter value)) (required : record.required = none)
    (default : record.default = none) : DeclaredBy delimiter value record

variable {options : Options}

theorem declaredBy_prop (entry : Entry Expr) :
    DeclaredBy options.typeDelimiter entry.value (entry.prop options) := by
  unfold Entry.prop
  cases entry.value with
  | object members =>
    have htype := PropOptions.type_ofEntries options.typeDelimiter members
    apply DeclaredBy.options htype ?_ (PropOptions.required_ofEntries _ members)
      (PropOptions.default_ofEntries _ members)
    dsimp only
    rw [htype, Option.map_eq_none_iff, lastWith_eq_none]
  | _ => exact .type nofun rfl rfl rfl

theorem isUntyped_iff (options : Options) (entry : Entry Expr) :
    entry.isUntyped = true ↔ (entry.prop options).type = none := by
  unfold Entry.isUntyped Entry.prop
  cases entry.value with
  | object members =>
    dsimp only
    rw [← PropOptions.isNone_type_ofEntries options.typeDelimiter, Option.isNone_iff_eq_none]
  | _ => simp

theorem prop_eq_of_agree (entry : Entry Expr) {members members' : List (Entry Expr)}
    (hvalue : entry.value = .object members) (h : PropOptions.Agree members members') :
    Entry.prop options { entry with value := .object members' } = entry.prop options := by
  unfold Entry.prop
  rw [hvalue]
  dsimp only
  rw [PropOptions.ofEntries_eq_of_agree _ h]
  rfl

theorem propGaps_eq_of_agree (entry : Entry Expr) {members members' : List (Entry Expr)}
    (hvalue : entry.value = .object members) (h : PropOptions.Agree members members') :
    Entry.propGaps { entry with value := .object members' } = entry.propGaps := by
  have hprop : Entry.prop {} { entry with value := .object members' } = entry.prop {} :=
    prop_eq_of_agree entry hvalue h
  unfold propGaps
  simp only [isUntyped_iff {}, hprop]
  rfl

/--
A prop is declared key by key. Its record is what its value says by the shape of that, and a
problem is reported when no type is given. Options that agree lead to the same props and the same
log, so options with other keys may be left out and options with different keys may change places.
-/
theorem prop_declared_key_by_key (hmode : options.strict = false) (before : List (Entry Expr))
    (entry : Entry Expr) (after : List (Entry Expr)) (log : List Problem) :
    (∃ props record,
      (extractProps (.object (before ++ entry :: after))).exec options log =
        (.ok props, log ++ before.flatMap propGaps ++ entry.gaps "prop" ++
          (if record.type = none then [.missingType entry.key] else []) ++
            after.flatMap propGaps) ∧
      ((∀ other ∈ after, other.key ≠ entry.key) → props.get? entry.key = some record) ∧
      record.name = entry.key ∧ record.desc = entry.description options ∧
      DeclaredBy options.typeDelimiter entry.value record) ∧
    (∀ members members', entry.value = .object members → PropOptions.Agree members members' →
      (extractProps (.object
        (before ++ { entry with value := .object members' } :: after))).exec options log =
          (extractProps (.object (before ++ entry :: after))).exec options log) ∧
    ∀ value, IsTypeLabel options.typeDelimiter value (typeLabel options.typeDelimiter value) := by
  have hsummary := summary_prop options entry
  refine ⟨⟨.collect Entry.key (Entry.prop options) (before ++ entry :: after), entry.prop options,
    ?_, ?_, congrArg Record.name hsummary, congrArg Record.desc hsummary, declaredBy_prop entry⟩,
    ?_, isTypeLabel_typeLabel _⟩
  . rw [exec_extractProps hmode, List.flatMap_append, List.flatMap_cons]
    simp only [propGaps, isUntyped_iff options, List.append_assoc]
  . intro hlast
    rw [OrderedMap.get?_collect]
    exact congrArg (Option.map (Entry.prop options)) (lastWith_eq_some hlast)
  . intro members members' hvalue hagree
    rw [exec_extractProps hmode, exec_extractProps hmode, OrderedMap.collect_eq_ofList,
      OrderedMap.collect_eq_ofList]
    simp only [List.map_append, List.map_cons, List.flatMap_append, List.flatMap_cons,
      prop_eq_of_agree entry hvalue hagree, propGaps_eq_of_agree entry hvalue hagree]

/--
Options that are given twice, and one that means nothing: without that one and in another order
they declare the same prop.
-/
theorem prop_declared_key_by_key_reordered :
    ∃ (entry : Entry Expr) (given members : List (Entry Expr))
        (props : OrderedMap String PropRecord),
      entry.value = .object given ∧
      given.map Entry.key = ["default", "type", "required", "validator", "required", "type"] ∧
      members.map Entry.key = ["type", "type", "required", "required", "default"] ∧
      (extractProps (.object [entry])).exec {} [] = (.ok props, []) ∧
      (extractProps (.object [{ entry with value := .object members }])).exec {} [] =
        (.ok props, []) ∧
      props.get? "size" = some ⟨"size", some "Number、Date", "how big", some true, some "1"⟩ := by
  let string : Entry Expr := ⟨"type", .identifier "String", "", []⟩
  let union : Entry Expr :=
    ⟨"type", .array [.identifier "Number", .other "null" "null", .identifier "Date"], "", []⟩
  let required : Entry Expr := ⟨"required", .boolean true, "true", []⟩
  let unclear : Entry Expr := ⟨"required", .identifier "no", "no", []⟩
  let default : Entry Expr := ⟨"default", .other "number" "1", "1", []⟩
  let validator : Entry Expr := ⟨"validator", .boolean false, "false", []⟩
  let given := [default, string, required, validator, unclear, union]
  let members := [string, union, required, unclear, default]
  let entry : Entry Expr := ⟨"size", .object given, "", [⟨" how big", false⟩]⟩
  have hagree : PropOptions.Agree given members := by
    intro key hkey
    obtain rfl | rfl | rfl : key = "type" ∨ key = "required" ∨ key = "default" := by
      simpa [PropOptions.keys] using hkey
    . rfl
    . rfl
    . rfl
  obtain ⟨⟨props, record, hexec, hget, hname, hdesc, hdeclared⟩, hsame, _⟩ :=
    @prop_declared_key_by_key {} rfl [] entry [] []
  obtain ⟨name, label, desc, literal, text⟩ := record
  cases hdeclared with
  | type hvalue => exact absurd rfl (hvalue given)
  | options type typeless required default =>
    have hname : name = "size" := hname
    have hlabel : label = some "Number、Date" := type
    have hdesc : desc = "how big" := hdesc
    have hliteral : literal = some true := required
    have htext : text = some "1" := default
    subst hname hlabel hdesc hliteral htext
    exact ⟨entry, given, members, props, rfl, rfl, rfl, hexec,
      (hsame given members rfl hagree).trans hexec, hget nofun⟩

end ComponentDoc
