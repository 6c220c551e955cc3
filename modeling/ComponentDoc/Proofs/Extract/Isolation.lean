import ComponentDoc.Proofs.Extract.Reporting

/-!
The fields of an options object do not get in each other's way. A field changes the part of the
result that its key names, whatever the fields before it did, and reports the same problems
wherever it stands. Entries with other keys change nothing, in either mode.
-/

namespace ComponentDoc

open Pass Script

namespace FieldKind

def key : FieldKind → String
  | .name => "name"
  | .props => "props"
  | .methods => "methods"
  | .data => "data"

def keys : List String :=
  [FieldKind.name.key, FieldKind.props.key, FieldKind.methods.key, FieldKind.data.key]

theorem ofKey?_eq_some_iff {text : String} {kind : FieldKind} :
    ofKey? text = some kind ↔ text = kind.key := by
  cases kind with
  | _ => grind [ofKey?, key]

theorem ofKey?_eq_none_of_not_mem {text : String} (h : text ∉ keys) : ofKey? text = none := by
  cases hkind : ofKey? text with
  | none => rfl
  | some kind =>
    rw [ofKey?_eq_some_iff] at hkind
    subst hkind
    exfalso
    apply h
    cases kind with
    | _ => simp [keys]

end FieldKind

namespace ScriptInfo

/--
The part of the result that fields of one kind give.
-/
def only (info : ScriptInfo) : FieldKind → ScriptInfo
  | .name => { name := info.name }
  | .props => { props := info.props }
  | .methods => { methods := info.methods }
  | .data => { data := info.data }

/--
The result with one part taken from another result.
-/
def graft (info found : ScriptInfo) : FieldKind → ScriptInfo
  | .name => { info with name := found.name }
  | .props => { info with props := found.props }
  | .methods => { info with methods := found.methods }
  | .data => { info with data := found.data }

@[simp]
theorem only_empty (kind : FieldKind) : only {} kind = {} := by
  cases kind with
  | _ => rfl

@[simp]
theorem only_graft_self (info found : ScriptInfo) (kind : FieldKind) :
    (info.graft found kind).only kind = (info.only kind).graft found kind := by
  cases kind with
  | _ => rfl

theorem only_graft_of_ne (info found : ScriptInfo) {kind other : FieldKind} (h : other ≠ kind) :
    (info.graft found other).only kind = info.only kind := by
  cases kind with
  | _ =>
    cases other with
    | _ => simp_all [only, graft]

end ScriptInfo

theorem extractField_eq_map (kind : FieldKind) (value : Expr) (info : ScriptInfo) :
    extractField kind value info =
      (fun found => info.graft found kind) <$> extractField kind value {} := by
  cases kind with
  | name =>
    dsimp only [extractField]
    split
    . simp [ScriptInfo.graft]
    . rfl
  | _ => simp [extractField, ScriptInfo.graft]

section Contribution

variable (options : Options)

/--
What an entry of the options object adds to the result, whatever that is so far: the part that it
sets, if it sets one, and the problems that it reports.
-/
def contribution (entry : Entry Expr) : Option (FieldKind × ScriptInfo) × List Problem :=
  match FieldKind.ofKey? entry.key with
  | none => (none, [])
  | some kind =>
    match (extractField kind entry.value {}).tolerant options with
    | (.ok found, problems) => (some (kind, found), problems)
    | (.error problem, problems) => (none, problems ++ [problem])

def contribute (info : ScriptInfo) (entry : Entry Expr) : ScriptInfo :=
  match (contribution options entry).1 with
  | none => info
  | some (kind, found) => info.graft found kind

variable {options}

theorem extractEntry_tolerant_eq (info : ScriptInfo) (entry : Entry Expr) :
    (extractEntry info entry).tolerant options =
      (.ok (contribute options info entry), (contribution options entry).2) := by
  unfold contribute contribution
  cases hkind : FieldKind.ofKey? entry.key with
  | none =>
    unfold extractEntry
    rw [hkind]
    rfl
  | some kind =>
    rw [extractEntry_eq_orReport hkind, tolerant_orReport, extractField_eq_map, tolerant_map]
    dsimp only
    cases (extractField kind entry.value {}).tolerant options with
    | mk result problems =>
      cases result with
      | ok found => rfl
      | error problem => rfl

theorem exec_extractEntry_tolerant (info : ScriptInfo) (entry : Entry Expr) (log : List Problem) :
    (extractEntry info entry).exec { options with strict := false } log =
      (.ok (contribute options info entry), log ++ (contribution options entry).2) := by
  rw [(extractEntry_reporting info entry).exec_tolerant, extractEntry_tolerant_eq]

theorem extractScript_tolerant_eq (entries : List (Entry Expr)) :
    (extractScript (some (.object entries))).tolerant options =
      (.ok (entries.foldl (contribute options) {}),
        entries.flatMap fun entry => (contribution options entry).2) :=
  exec_foldlM_of_step exec_extractEntry_tolerant entries {} []

theorem contribution_kind {entry : Entry Expr} {kind : FieldKind} {found : ScriptInfo}
    (h : (contribution options entry).1 = some (kind, found)) : entry.key = kind.key := by
  unfold contribution at h
  split at h
  . cases h
  . next hkind =>
    split at h
    . cases h
      rw [← FieldKind.ofKey?_eq_some_iff, hkind]
    . cases h

theorem only_contribute_of_eq (info : ScriptInfo) {entry : Entry Expr} {kind : FieldKind}
    (h : entry.key = kind.key) :
    (contribute options info entry).only kind = contribute options (info.only kind) entry := by
  unfold contribute
  cases hfound : (contribution options entry).1 with
  | none => rfl
  | some found =>
    obtain ⟨other, found⟩ := found
    have hother := contribution_kind hfound
    rw [h, ← FieldKind.ofKey?_eq_some_iff, FieldKind.ofKey?_eq_some_iff.2 rfl] at hother
    cases hother
    apply ScriptInfo.only_graft_self

theorem only_contribute_of_ne (info : ScriptInfo) {entry : Entry Expr} {kind : FieldKind}
    (h : entry.key ≠ kind.key) :
    (contribute options info entry).only kind = info.only kind := by
  unfold contribute
  cases hfound : (contribution options entry).1 with
  | none => rfl
  | some found =>
    obtain ⟨other, found⟩ := found
    apply ScriptInfo.only_graft_of_ne
    intro hother
    subst hother
    apply h
    apply contribution_kind hfound

/--
The part that fields of one kind give is what they give when they are alone.
-/
theorem only_foldl_contribute (kind : FieldKind) (entries : List (Entry Expr)) (info : ScriptInfo) :
    (entries.foldl (contribute options) info).only kind =
      (entries.filter fun entry => entry.key = kind.key).foldl (contribute options)
        (info.only kind) := by
  induction entries generalizing info with
  | nil => rfl
  | cons entry entries ih =>
    rw [List.foldl_cons, ih, List.filter_cons]
    by_cases h : entry.key = kind.key
    . rw [only_contribute_of_eq info h]
      simp [h]
    . rw [only_contribute_of_ne info h]
      simp [h]

end Contribution

theorem foldlM_extractEntry_filter (entries : List (Entry Expr)) (info : ScriptInfo) :
    (entries.filter fun entry => entry.key ∈ FieldKind.keys).foldlM extractEntry info =
      entries.foldlM extractEntry info := by
  induction entries generalizing info with
  | nil => rfl
  | cons entry entries ih =>
    rw [List.filter_cons, List.foldlM_cons]
    by_cases h : entry.key ∈ FieldKind.keys
    . rw [if_pos (by simpa using h), List.foldlM_cons]
      congr 1
      funext info
      apply ih
    . rw [if_neg (by simpa using h), ih]
      have hpure : extractEntry info entry = pure info := by
        unfold extractEntry
        rw [FieldKind.ofKey?_eq_none_of_not_mem h]
      rw [hpure, pure_bind]

section Single

variable (options : Options) (warnings : List Problem)

/--
What becomes of a category when its extractor is run once: the map that was found, unless it is
empty, or nothing; then the problem that stopped the extractor is the last of the warnings.
-/
def MapSettled {ρ : Type} (extractor : Pass (OrderedMap String ρ))
    (category : Option (OrderedMap String ρ)) : Prop :=
  match extractor.exec options [] with
  | (.ok map, problems) =>
    category = (if map.entries = [] then none else some map) ∧ warnings = problems
  | (.error problem, problems) => category = none ∧ warnings = problems ++ [problem]

/--
What becomes of the part of the result that a kind of field gives, given the value of its only
field.
-/
def FieldSettled (value : Expr) (info : ScriptInfo) : FieldKind → Prop
  | .name =>
    match extractName value with
    | .ok name => info.name = name ∧ name ≠ some "" ∧ warnings = []
    | .error problem => info.name = none ∧ warnings = [problem]
  | .props => MapSettled options warnings (extractProps value) info.props
  | .methods => MapSettled options warnings (extractMethods value) info.methods
  | .data => MapSettled options warnings (extractData value) info.data

variable {options}

theorem extractName_ne_empty {value : Expr} {name : Option String}
    (h : extractName value = .ok name) : name ≠ some "" := by
  unfold extractName at h
  split at h
  . cases h
    split
    . simp
    . simp_all
  . cases h

theorem nonEmpty?_eq_ite {ρ : Type} (map : OrderedMap String ρ) :
    map.nonEmpty? = if map.entries = [] then none else some map := by
  simp [OrderedMap.nonEmpty?, OrderedMap.isEmpty]

theorem mapSettled_contribute {ρ : Type} (hmode : options.strict = false) {entry : Entry Expr}
    {kind : FieldKind} (hkey : entry.key = kind.key) {extractor : Pass (OrderedMap String ρ)}
    {part : ScriptInfo → Option (OrderedMap String ρ)}
    {ofPart : Option (OrderedMap String ρ) → ScriptInfo}
    (hfield : extractField kind entry.value {} =
      (fun map => ofPart map.nonEmpty?) <$> extractor)
    (hpart : ∀ category, part (ScriptInfo.graft {} (ofPart category) kind) = category)
    (hnone : part {} = none) :
    MapSettled options (contribution options entry).2 extractor
      (part (contribute options {} entry)) := by
  unfold MapSettled contribute contribution
  rw [FieldKind.ofKey?_eq_some_iff.2 hkey]
  dsimp only
  rw [hfield, tolerant_map, ← tolerant_eq_exec extractor hmode]
  cases extractor.tolerant options with
  | mk result problems =>
    cases result with
    | ok map =>
      refine ⟨?_, rfl⟩
      dsimp only [Except.map]
      rw [hpart, nonEmpty?_eq_ite]
    | error problem => exact ⟨hnone, rfl⟩

theorem fieldSettled_contribute (hmode : options.strict = false) {entry : Entry Expr}
    {kind : FieldKind} (hkey : entry.key = kind.key) :
    FieldSettled options (contribution options entry).2 entry.value
      (contribute options {} entry) kind := by
  cases kind with
  | name =>
    unfold FieldSettled contribute contribution
    rw [FieldKind.ofKey?_eq_some_iff.2 hkey]
    dsimp only [extractField]
    cases hname : extractName entry.value with
    | ok name => exact ⟨rfl, extractName_ne_empty hname, rfl⟩
    | error problem => exact ⟨rfl, rfl⟩
  | props =>
    apply @mapSettled_contribute _ _ hmode _ _ hkey _ ScriptInfo.props fun props => { props }
    . simp [extractField]
    . intro category
      rfl
    . rfl
  | methods =>
    apply @mapSettled_contribute _ _ hmode _ _ hkey _ ScriptInfo.methods fun methods => { methods }
    . simp [extractField]
    . intro category
      rfl
    . rfl
  | data =>
    apply @mapSettled_contribute _ _ hmode _ _ hkey _ ScriptInfo.data fun data => { data }
    . simp [extractField]
    . intro category
      rfl
    . rfl

end Single

section Script

variable {options : Options}

theorem extractScript_exec_eq (hmode : options.strict = false) (entries : List (Entry Expr))
    (log : List Problem) :
    (extractScript (some (.object entries))).exec options log =
      (.ok (entries.foldl (contribute options) {}),
        log ++ entries.flatMap fun entry => (contribution options entry).2) := by
  rw [(extractScript_reporting _).exec_eq, extractScript_tolerant_eq, hmode]
  rfl

theorem extractScript_alone (hmode : options.strict = false) (entry : Entry Expr) :
    ((extractScript (some (.object [entry]))).exec options []).2 =
      (contribution options entry).2 := by
  rw [extractScript_exec_eq hmode]
  simp

theorem key_of_single {entries : List (Entry Expr)} {kind : FieldKind} {entry : Entry Expr}
    (h : entries.filter (fun other => other.key = kind.key) = [entry]) :
    entry.key = kind.key := by
  have hmem : entry ∈ entries.filter (fun other => other.key = kind.key) := by
    simp [h]
  simpa using (List.mem_filter.1 hmem).2

theorem only_eq_of_single {entries : List (Entry Expr)} {kind : FieldKind} {entry : Entry Expr}
    (h : entries.filter (fun other => other.key = kind.key) = [entry]) :
    (entries.foldl (contribute options) {}).only kind =
      (contribute options {} entry).only kind := by
  rw [only_foldl_contribute, h, only_contribute_of_eq _ (key_of_single h)]
  rfl

theorem fieldSettled_congr {warnings : List Problem} {value : Expr} {info info' : ScriptInfo}
    {kind : FieldKind} (h : info.only kind = info'.only kind) :
    FieldSettled options warnings value info kind ↔
      FieldSettled options warnings value info' kind := by
  cases kind with
  | _ =>
    simp only [ScriptInfo.only, ScriptInfo.mk.injEq] at h
    simp only [FieldSettled, h]

/--
A tolerant pass over an options object succeeds. Each part of the result is what the fields with
its key give when they are alone, a single field settles its part, and the log grows by what each
entry reports when it is alone. In either mode, objects that differ in undocumented entries only
lead to the same result and log, and so does a call whose first argument is the object.
-/
theorem extractScript_fields_isolated (options : Options) (log : List Problem)
    (entries : List (Entry Expr)) :
    (options.strict = false →
      ∃ info,
        (extractScript (some (.object entries))).exec options log =
          (.ok info, log ++ entries.flatMap fun entry =>
            ((extractScript (some (.object [entry]))).exec options []).2) ∧
        (∀ kind : FieldKind,
          ((extractScript (some (.object
            (entries.filter fun entry => entry.key = kind.key)))).exec options log).1 =
              .ok (info.only kind)) ∧
        (∀ (kind : FieldKind) (entry : Entry Expr),
          entries.filter (fun other => other.key = kind.key) = [entry] →
            FieldSettled options ((extractScript (some (.object [entry]))).exec options []).2
              entry.value info kind)) ∧
    (∀ kept : List (Entry Expr),
      kept.filter (fun entry => entry.key ∈ FieldKind.keys) =
          entries.filter (fun entry => entry.key ∈ FieldKind.keys) →
        (extractScript (some (.object kept))).exec options log =
          (extractScript (some (.object entries))).exec options log) ∧
    (∀ (callee : Expr) (args : List Expr),
      (extractScript (some (.call callee (.object entries :: args)))).exec options log =
        (extractScript (some (.object entries))).exec options log) := by
  refine ⟨?_, ?_, ?_⟩
  . intro hmode
    simp only [extractScript_alone hmode]
    refine ⟨entries.foldl (contribute options) {}, extractScript_exec_eq hmode entries log, ?_, ?_⟩
    . intro kind
      rw [extractScript_exec_eq hmode, only_foldl_contribute, ScriptInfo.only_empty]
    . intro kind entry hsingle
      rw [fieldSettled_congr (only_eq_of_single hsingle)]
      apply fieldSettled_contribute hmode (key_of_single hsingle)
  . intro kept hkept
    dsimp only [extractScript, optionsObject]
    rw [← foldlM_extractEntry_filter kept, hkept, foldlM_extractEntry_filter]
  . intro callee args
    rfl

/--
Methods of the wrong shape between two lists of props, and an entry that is not documented: the
first props give way to the second, and each problem stays where it was reported.
-/
theorem extractScript_fields_isolated_props :
    ∃ (entries : List (Entry Expr)) (info : ScriptInfo),
      (extractScript (some (.object entries))).exec {} [] =
        (.ok info, [.missingDescription "prop" "a",
          .malformed "methods" "expected an object literal, found array",
          .missingDescription "prop" "b"]) ∧
      (entries.map fun entry => ((extractScript (some (.object [entry]))).exec {} []).2) =
        [[.missingDescription "prop" "a"],
          [.malformed "methods" "expected an object literal, found array"], [],
          [.missingDescription "prop" "b"]] ∧
      FieldSettled {} [.malformed "methods" "expected an object literal, found array"] (.array [])
        info .methods := by
  let entries : List (Entry Expr) :=
    [⟨"props", .object [⟨"a", .identifier "String", "", []⟩], "", []⟩,
      ⟨"methods", .array [], "", []⟩, ⟨"watch", .object [], "", []⟩,
      ⟨"props", .object [⟨"b", .identifier "String", "", []⟩], "", []⟩]
  obtain ⟨info, hexec, _, hsettled⟩ := (extractScript_fields_isolated {} [] entries).1 rfl
  exact ⟨entries, info, hexec, rfl, hsettled .methods _ rfl⟩

end Script

end ComponentDoc
