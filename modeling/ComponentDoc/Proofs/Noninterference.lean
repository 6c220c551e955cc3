import Mathlib.Data.List.Forall2
import ComponentDoc.Proofs.Strictness

/-!
The texts among the options go into records and nowhere else. Two runs in the same mode, with
whatever stand-in text and type delimiter, go through the same steps (`Pass.Lockstep`): they fail
with the same problem or both succeed, they log the same problems, and their records differ in
those two texts only.
-/

namespace ComponentDoc

open Pass Script Markup

variable {α β : Type}

/--
Both fail with the same problem, or both succeed with related values.
-/
inductive SameOutcome (R : α → β → Prop) : Except Problem α → Except Problem β → Prop
  | ok {a : α} {b : β} : R a b → SameOutcome R (.ok a) (.ok b)
  | error (problem : Problem) : SameOutcome R (.error problem) (.error problem)

/--
On every log the two passes, each under its own options, end alike and leave the same log.
-/
def Pass.Lockstep (options options' : Options) (R : α → α → Prop) (p q : Pass α) : Prop :=
  ∀ log, SameOutcome R (p.exec options log).1 (q.exec options' log).1 ∧
    (p.exec options log).2 = (q.exec options' log).2

namespace Pass.Lockstep

variable {options options' : Options} {R : α → α → Prop} {S : β → β → Prop} {p q : Pass α}

theorem pure {a b : α} (h : R a b) :
    Lockstep options options' R (Pure.pure a) (Pure.pure b) := by
  intro log
  exact ⟨.ok h, rfl⟩

theorem throw (problem : Problem) :
    Lockstep options options' R (MonadExcept.throw problem) (MonadExcept.throw problem) := by
  intro log
  exact ⟨.error problem, rfl⟩

theorem outcomes (h : Lockstep options options' R p q) (log : List Problem) :
    (∃ a b mid, R a b ∧ p.exec options log = (.ok a, mid) ∧ q.exec options' log = (.ok b, mid)) ∨
    (∃ problem mid, p.exec options log = (.error problem, mid) ∧
      q.exec options' log = (.error problem, mid)) := by
  obtain ⟨hresult, hlog⟩ := h log
  generalize p.exec options log = outcome at hresult hlog
  generalize q.exec options' log = outcome' at hresult hlog
  obtain ⟨result, mid⟩ := outcome
  obtain ⟨result', mid'⟩ := outcome'
  dsimp only at hresult hlog
  subst hlog
  cases hresult with
  | ok h => exact .inl ⟨_, _, mid, h, rfl, rfl⟩
  | error problem => exact .inr ⟨problem, mid, rfl, rfl⟩

theorem bind {f g : α → Pass β} (hp : Lockstep options options' R p q)
    (hf : ∀ a b, R a b → Lockstep options options' S (f a) (g b)) :
    Lockstep options options' S (p >>= f) (q >>= g) := by
  intro log
  rw [exec_bind, exec_bind]
  obtain ⟨a, b, mid, h, hok, hok'⟩ | ⟨problem, mid, herror, herror'⟩ := hp.outcomes log
  . rw [hok, hok']
    apply hf a b h
  . rw [herror, herror']
    exact ⟨.error problem, rfl⟩

theorem read_bind {f g : Options → Pass α}
    (h : Lockstep options options' R (f options) (g options')) :
    Lockstep options options' R (read >>= f) (read >>= g) := by
  intro log
  rw [exec_bind_of_ok exec_read, exec_bind_of_ok exec_read]
  apply h

theorem foldlM {step : α → β → Pass α}
    (hstep : ∀ a b item, R a b → Lockstep options options' R (step a item) (step b item))
    (items : List β) {start start' : α} (hstart : R start start') :
    Lockstep options options' R (items.foldlM step start) (items.foldlM step start') := by
  induction items generalizing start start' with
  | nil => apply pure hstart
  | cons item items ih =>
    rw [List.foldlM_cons, List.foldlM_cons]
    apply bind (hstep _ _ _ hstart)
    intro a b h
    apply ih h

theorem report (hstrict : options.strict = options'.strict) (problem : Problem) :
    Lockstep options options' Eq (Pass.report problem) (Pass.report problem) := by
  intro log
  rw [exec_report, exec_report, hstrict]
  split
  . exact ⟨.error problem, rfl⟩
  . exact ⟨.ok rfl, rfl⟩

theorem orReport (hstrict : options.strict = options'.strict) {other other' : α}
    (hp : Lockstep options options' R p q) (hother : R other other') :
    Lockstep options options' R (p.orReport other) (q.orReport other') := by
  intro log
  rw [exec_orReport, exec_orReport, hstrict]
  obtain ⟨a, b, mid, h, hok, hok'⟩ | ⟨problem, mid, herror, herror'⟩ := hp.outcomes log
  . rw [hok, hok']
    exact ⟨.ok h, rfl⟩
  . rw [herror, herror']
    dsimp only
    split
    . exact ⟨.error problem, rfl⟩
    . exact ⟨.ok hother, rfl⟩

theorem settle (h : Lockstep options options' R p q) (log : List Problem) :
    SameOutcome (fun x y => R x.1 y.1 ∧ x.2 = y.2) (Pass.settle (p.exec options log))
      (Pass.settle (q.exec options' log)) := by
  obtain ⟨a, b, mid, h, hok, hok'⟩ | ⟨problem, mid, herror, herror'⟩ := h.outcomes log
  . rw [hok, hok']
    exact .ok ⟨h, rfl⟩
  . rw [herror, herror']
    exact .error problem

end Pass.Lockstep

section Records

variable (options options' : Options)

/--
The same description, or none: then each is the stand-in text of its own options.
-/
def SameDescription (desc desc' : String) : Prop :=
  desc = desc' ∨ (desc = options.noDescription ∧ desc' = options'.noDescription)

/--
No type, or the same names with the delimiter of the respective options between them.
-/
def SameType (type type' : Option String) : Prop :=
  (type = none ∧ type' = none) ∨
    ∃ names : List String, names ≠ [] ∧
      type = some (options.typeDelimiter.intercalate names) ∧
      type' = some (options'.typeDelimiter.intercalate names)

structure Record.Alike (r r' : Record) : Prop where
  name : r.name = r'.name
  desc : SameDescription options options' r.desc r'.desc

structure PropRecord.Alike (r r' : PropRecord) : Prop where
  name : r.name = r'.name
  type : SameType options options' r.type r'.type
  desc : SameDescription options options' r.desc r'.desc
  required : r.required = r'.required
  default : r.default = r'.default

/--
Maps with the same keys in the same order and related values.
-/
def OrderedMap.Alike (R : α → β → Prop) (m : OrderedMap String α) (n : OrderedMap String β) :
    Prop :=
  List.Forall₂ (fun e f => e.1 = f.1 ∧ R e.2 f.2) m.entries n.entries

structure ScriptInfo.Alike (info info' : ScriptInfo) : Prop where
  name : info.name = info'.name
  props : Option.Rel (OrderedMap.Alike (PropRecord.Alike options options')) info.props info'.props
  data : Option.Rel (OrderedMap.Alike (Record.Alike options options')) info.data info'.data
  methods : Option.Rel (OrderedMap.Alike (Record.Alike options options')) info.methods
    info'.methods

def SlotsAlike (slots slots' : Slots) : Prop :=
  Option.Rel (OrderedMap.Alike (Record.Alike options options')) slots slots'

structure ComponentInfo.Alike (info info' : ComponentInfo) : Prop where
  name : info.name = info'.name
  props : Option.Rel (OrderedMap.Alike (PropRecord.Alike options options')) info.props info'.props
  data : Option.Rel (OrderedMap.Alike (Record.Alike options options')) info.data info'.data
  slots : SlotsAlike options options' info.slots info'.slots
  methods : Option.Rel (OrderedMap.Alike (Record.Alike options options')) info.methods
    info'.methods

end Records

namespace OrderedMap.Alike

variable {R : α → β → Prop} {m : OrderedMap String α} {n : OrderedMap String β}

theorem empty : Alike R ∅ ∅ :=
  .nil

theorem insert (h : Alike R m n) {a : α} {b : β} (hab : R a b) (key : String) :
    Alike R (m.insert key a) (n.insert key b) := by
  unfold Alike at h ⊢
  rw [entries_insert, entries_insert]
  generalize m.entries = es at h ⊢
  generalize n.entries = fs at h ⊢
  induction h with
  | nil => exact .cons ⟨rfl, hab⟩ .nil
  | cons hhead htail ih =>
    simp only [insertEntry, hhead.1]
    split
    . exact .cons ⟨rfl, hab⟩ htail
    . exact .cons hhead ih

theorem nonEmpty? (h : Alike R m n) : Option.Rel (Alike R) m.nonEmpty? n.nonEmpty? := by
  have hempty : m.isEmpty = n.isEmpty := by
    unfold isEmpty
    rw [Bool.eq_iff_iff, List.isEmpty_iff_length_eq_zero, List.isEmpty_iff_length_eq_zero,
      h.length_eq]
  unfold OrderedMap.nonEmpty?
  rw [hempty]
  split
  . exact .none
  . exact .some h

end OrderedMap.Alike

section Extractors

variable {options options' : Options}

theorem describe_lockstep (hstrict : options.strict = options'.strict) (category key : String)
    (found : Option String) :
    Lockstep options options' (SameDescription options options')
      (Pass.describe category key found) (Pass.describe category key found) := by
  cases found with
  | some text => exact Lockstep.pure (.inl rfl)
  | none =>
    apply Lockstep.bind (Lockstep.report hstrict _)
    intro _ _ _
    apply Lockstep.read_bind
    exact Lockstep.pure (.inr ⟨rfl, rfl⟩)

theorem extractRecords_lockstep (hstrict : options.strict = options'.strict) (category : String)
    (entries : List (Entry Expr)) :
    Lockstep options options' (OrderedMap.Alike (Record.Alike options options'))
      (extractRecords category entries) (extractRecords category entries) := by
  apply Lockstep.foldlM _ _ OrderedMap.Alike.empty
  intro records records' entry hrecords
  apply Lockstep.bind (describe_lockstep hstrict _ _ _)
  intro desc desc' hdesc
  apply Lockstep.pure
  apply hrecords.insert
  exact ⟨rfl, hdesc⟩

theorem extractMethods_lockstep (hstrict : options.strict = options'.strict) (value : Expr) :
    Lockstep options options' (OrderedMap.Alike (Record.Alike options options'))
      (extractMethods value) (extractMethods value) := by
  unfold extractMethods
  split
  . apply extractRecords_lockstep hstrict
  . apply Lockstep.throw

theorem extractData_lockstep (hstrict : options.strict = options'.strict) (value : Expr) :
    Lockstep options options' (OrderedMap.Alike (Record.Alike options options'))
      (extractData value) (extractData value) := by
  unfold extractData
  split
  . split
    . apply Lockstep.throw
    . apply extractRecords_lockstep hstrict
    . apply Lockstep.throw
  . apply Lockstep.throw

/--
A label is made of names that do not depend on the delimiter; `Any` is one such name.
-/
theorem typeLabel_eq_intercalate (value : Expr) :
    ∃ names : List String, names ≠ [] ∧
      ∀ delimiter : String, typeLabel delimiter value = delimiter.intercalate names := by
  have hsingle (name : String) : ∃ names : List String, names ≠ [] ∧
      ∀ delimiter : String, name = delimiter.intercalate names := by
    refine ⟨[name], by simp, ?_⟩
    intro delimiter
    rw [String.intercalate_singleton]
  cases value with
  | identifier name => apply hsingle name
  | array items =>
    simp only [typeLabel]
    cases h : identifierNames items with
    | nil => apply hsingle anyType
    | cons name names => exact ⟨name :: names, by simp, fun _ => rfl⟩
  | _ => apply hsingle anyType

theorem sameType_typeLabel (value : Expr) :
    SameType options options' (some (typeLabel options.typeDelimiter value))
      (some (typeLabel options'.typeDelimiter value)) := by
  obtain ⟨names, hne, hlabel⟩ := typeLabel_eq_intercalate value
  exact .inr ⟨names, hne, by rw [hlabel], by rw [hlabel]⟩

structure PropOptions.Alike (options options' : Options) (o o' : PropOptions) : Prop where
  type : SameType options options' o.type o'.type
  required : o.required = o'.required
  default : o.default = o'.default

theorem PropOptions.Alike.add {o o' : PropOptions} (h : Alike options options' o o')
    (option : Entry Expr) :
    Alike options options' (o.add options.typeDelimiter option)
      (o'.add options'.typeDelimiter option) := by
  unfold PropOptions.add
  split
  . exact ⟨sameType_typeLabel option.value, h.required, h.default⟩
  . split
    . split
      . exact ⟨h.type, rfl, h.default⟩
      . exact h
    . split
      . exact ⟨h.type, h.required, rfl⟩
      . exact h

theorem PropOptions.Alike.foldl_add {o o' : PropOptions} (h : Alike options options' o o')
    (members : List (Entry Expr)) :
    Alike options options' (members.foldl (PropOptions.add options.typeDelimiter) o)
      (members.foldl (PropOptions.add options'.typeDelimiter) o') := by
  induction members generalizing o o' with
  | nil => exact h
  | cons option members ih => apply ih (h.add option)

theorem PropOptions.alike_ofEntries (members : List (Entry Expr)) :
    Alike options options' (ofEntries options.typeDelimiter members)
      (ofEntries options'.typeDelimiter members) := by
  apply Alike.foldl_add
  exact ⟨.inl ⟨rfl, rfl⟩, rfl, rfl⟩

theorem SameType.isNone_eq {type type' : Option String} (h : SameType options options' type type') :
    type.isNone = type'.isNone := by
  obtain ⟨rfl, rfl⟩ | ⟨names, _, rfl, rfl⟩ := h
  . rfl
  . rfl

theorem propRecord_lockstep (hstrict : options.strict = options'.strict) (entry : Entry Expr) :
    Lockstep options options' (PropRecord.Alike options options') (propRecord entry)
      (propRecord entry) := by
  unfold propRecord
  apply Lockstep.bind (describe_lockstep hstrict _ _ _)
  intro desc desc' hdesc
  apply Lockstep.read_bind
  cases entry.value with
  | object members =>
    have halike := @PropOptions.alike_ofEntries options options' members
    dsimp only
    rw [halike.type.isNone_eq]
    split
    . apply Lockstep.bind (Lockstep.report hstrict _)
      intro _ _ _
      exact Lockstep.pure ⟨rfl, halike.type, hdesc, halike.required, halike.default⟩
    . exact Lockstep.pure ⟨rfl, halike.type, hdesc, halike.required, halike.default⟩
  | _ => exact Lockstep.pure ⟨rfl, sameType_typeLabel _, hdesc, rfl, rfl⟩

theorem extractProps_lockstep (hstrict : options.strict = options'.strict) (value : Expr) :
    Lockstep options options' (OrderedMap.Alike (PropRecord.Alike options options'))
      (extractProps value) (extractProps value) := by
  unfold extractProps
  split
  . apply Lockstep.foldlM _ _ OrderedMap.Alike.empty
    intro props props' entry hprops
    apply Lockstep.bind (propRecord_lockstep hstrict entry)
    intro prop prop' hprop
    apply Lockstep.pure
    apply hprops.insert hprop
  . apply Lockstep.throw

theorem extractField_lockstep (hstrict : options.strict = options'.strict) (kind : FieldKind)
    (value : Expr) {info info' : ScriptInfo} (h : info.Alike options options' info') :
    Lockstep options options' (ScriptInfo.Alike options options') (extractField kind value info)
      (extractField kind value info') := by
  cases kind with
  | name =>
    dsimp only [extractField]
    split
    . exact Lockstep.pure ⟨rfl, h.props, h.data, h.methods⟩
    . apply Lockstep.throw
  | props =>
    apply Lockstep.bind (extractProps_lockstep hstrict value)
    intro props props' hprops
    exact Lockstep.pure ⟨h.name, hprops.nonEmpty?, h.data, h.methods⟩
  | methods =>
    apply Lockstep.bind (extractMethods_lockstep hstrict value)
    intro methods methods' hmethods
    exact Lockstep.pure ⟨h.name, h.props, h.data, hmethods.nonEmpty?⟩
  | data =>
    apply Lockstep.bind (extractData_lockstep hstrict value)
    intro data data' hdata
    exact Lockstep.pure ⟨h.name, h.props, hdata.nonEmpty?, h.methods⟩

theorem extractEntry_lockstep (hstrict : options.strict = options'.strict)
    {info info' : ScriptInfo} (h : info.Alike options options' info') (entry : Entry Expr) :
    Lockstep options options' (ScriptInfo.Alike options options') (extractEntry info entry)
      (extractEntry info' entry) := by
  cases hkind : FieldKind.ofKey? entry.key with
  | none =>
    unfold extractEntry
    rw [hkind]
    exact Lockstep.pure h
  | some kind =>
    rw [extractEntry_eq_orReport hkind, extractEntry_eq_orReport hkind]
    apply Lockstep.orReport hstrict _ h
    apply extractField_lockstep hstrict kind entry.value h

theorem extractScript_lockstep (hstrict : options.strict = options'.strict)
    (defaultExport : Option Expr) :
    Lockstep options options' (ScriptInfo.Alike options options') (extractScript defaultExport)
      (extractScript defaultExport) := by
  unfold extractScript
  split
  . apply Lockstep.foldlM
    . intro info info' entry h
      apply extractEntry_lockstep hstrict h
    . exact ⟨rfl, .none, .none, .none⟩
  . apply Lockstep.throw

theorem addSlot_lockstep (hstrict : options.strict = options'.strict) (before : Option Node)
    (attributes : List Attribute) {slots slots' : Slots}
    (h : SlotsAlike options options' slots slots') :
    Lockstep options options' (SlotsAlike options options') (addSlot before attributes slots)
      (addSlot before attributes slots') := by
  have hfound : OrderedMap.Alike (Record.Alike options options') (slots.getD ∅)
      (slots'.getD ∅) := by
    cases h with
    | none => apply OrderedMap.Alike.empty
    | some h => exact h
  apply Lockstep.bind (describe_lockstep hstrict _ _ _)
  intro desc desc' hdesc
  apply Lockstep.pure
  apply Option.Rel.some
  apply hfound.insert
  exact ⟨rfl, hdesc⟩

theorem extractSlots_lockstep (hstrict : options.strict = options'.strict) (nodes : List Node) :
    Lockstep options options' (SlotsAlike options options') (extractSlots nodes)
      (extractSlots nodes) := by
  rw [extractSlots_eq_foldlM]
  apply Lockstep.foldlM
  . intro slots slots' occurrence h
    apply addSlot_lockstep hstrict _ _ h
  . exact .none

end Extractors

section Passes

variable {options options' : Options}

theorem scriptPass_sameOutcome (hstrict : options.strict = options'.strict)
    (script : Option ScriptSection) :
    SameOutcome (fun x y => x.1.Alike options options' y.1 ∧ x.2 = y.2)
      (scriptPass script options) (scriptPass script options') := by
  cases script with
  | none => exact .ok ⟨⟨rfl, .none, .none, .none⟩, rfl⟩
  | some script =>
    unfold scriptPass
    dsimp only
    cases Script.parseModule script.dialect script.text with
    | error problem => exact .error problem
    | ok defaultExport => apply (extractScript_lockstep hstrict defaultExport).settle

theorem templatePass_sameOutcome (hstrict : options.strict = options'.strict)
    (template : Option String) :
    SameOutcome (fun x y => SlotsAlike options options' x.1 y.1 ∧ x.2 = y.2)
      (templatePass template options) (templatePass template options') := by
  cases template with
  | none => exact .ok ⟨.none, rfl⟩
  | some text =>
    obtain ⟨nodes, noted, _, htemplate⟩ := templatePass_exec text
    rw [htemplate, htemplate]
    apply (extractSlots_lockstep hstrict nodes).settle

theorem Sections.extract_sameOutcome (hstrict : options.strict = options'.strict)
    (sections : Sections) :
    SameOutcome (fun x y => x.info.Alike options options' y.info ∧ x.warnings = y.warnings)
      (sections.extract options) (sections.extract options') := by
  have hscript := scriptPass_sameOutcome hstrict sections.script
  have htemplate := templatePass_sameOutcome hstrict sections.template
  unfold Sections.extract
  generalize scriptPass sections.script options = script at hscript ⊢
  generalize scriptPass sections.script options' = script' at hscript ⊢
  cases hscript with
  | error problem => exact .error problem
  | ok hscript =>
    generalize templatePass sections.template options = template at htemplate ⊢
    generalize templatePass sections.template options' = template' at htemplate ⊢
    cases htemplate with
    | error problem => exact .error problem
    | ok htemplate =>
      obtain ⟨hinfo, hscriptLog⟩ := hscript
      obtain ⟨hslots, htemplateLog⟩ := htemplate
      apply SameOutcome.ok
      refine ⟨⟨hinfo.name, hinfo.props, hinfo.data, hslots, hinfo.methods⟩, ?_⟩
      dsimp only
      rw [hscriptLog, htemplateLog]

end Passes

/--
Options that agree on the mode lead to the same result up to the stand-in text and the delimiter,
for a module, for a template tree on whatever was logged before, for the two passes over sections
and for the extraction as a whole.
-/
theorem option_texts_do_not_interfere {options options' : Options}
    (hstrict : options.strict = options'.strict) :
    (∀ defaultExport : Option Expr,
      Lockstep options options' (ScriptInfo.Alike options options')
        (extractScript defaultExport) (extractScript defaultExport)) ∧
    (∀ nodes : List Node,
      Lockstep options options' (SlotsAlike options options')
        (extractSlots nodes) (extractSlots nodes)) ∧
    (∀ script : Option ScriptSection,
      SameOutcome (fun x y => x.1.Alike options options' y.1 ∧ x.2 = y.2)
        (scriptPass script options) (scriptPass script options')) ∧
    (∀ template : Option String,
      SameOutcome (fun x y => SlotsAlike options options' x.1 y.1 ∧ x.2 = y.2)
        (templatePass template options) (templatePass template options')) ∧
    (∀ sections : Sections,
      SameOutcome (fun x y => x.info.Alike options options' y.info ∧ x.warnings = y.warnings)
        (sections.extract options) (sections.extract options')) := by
  refine ⟨?_, ?_, ?_, ?_, ?_⟩
  . apply extractScript_lockstep hstrict
  . apply extractSlots_lockstep hstrict
  . apply scriptPass_sameOutcome hstrict
  . apply templatePass_sameOutcome hstrict
  . apply Sections.extract_sameOutcome hstrict

/--
A prop of two types without a comment: the records differ in both texts, the logs do not differ.
-/
theorem option_texts_do_not_interfere_union :
    ∃ defaultExport : Option Expr,
      (extractScript defaultExport).exec {} [] =
        (.ok { props := some ⟨[("size", ⟨"size", some "String、Number", "no description", none,
          none⟩)], by decide⟩ }, [.missingDescription "prop" "size"]) ∧
      (extractScript defaultExport).exec { noDescription := "?", typeDelimiter := " | " } [] =
        (.ok { props := some ⟨[("size", ⟨"size", some "String | Number", "?", none,
          none⟩)], by decide⟩ }, [.missingDescription "prop" "size"]) ∧
      Lockstep {} { noDescription := "?", typeDelimiter := " | " }
        (ScriptInfo.Alike {} { noDescription := "?", typeDelimiter := " | " })
        (extractScript defaultExport) (extractScript defaultExport) := by
  have hstrict : ({} : Options).strict =
      ({ noDescription := "?", typeDelimiter := " | " } : Options).strict := rfl
  refine ⟨some (.object [⟨"props", .object [⟨"size",
    .array [.identifier "String", .identifier "Number"], "", []⟩], "", []⟩]), rfl, rfl, ?_⟩
  apply (option_texts_do_not_interfere hstrict).1

end ComponentDoc
