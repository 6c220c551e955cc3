import ComponentDoc.Proofs.OrderedMap
import ComponentDoc.Proofs.Extract.Reporting
import ComponentDoc.Proofs.Script.Wrapping

/-!
The texts that an expression keeps go into the defaults of props and nowhere else. So parentheses
and type marks around expressions of a script change nothing that is documented about it but
those texts.
-/

namespace ComponentDoc

open Pass Script

section Shapes

theorem identifierNames_textless (items : List Expr) :
    identifierNames (textlessItems items) = identifierNames items := by
  unfold identifierNames
  induction items with
  | nil => rfl
  | cons item items ih =>
    rw [textlessItems, List.filterMap_cons, List.filterMap_cons, ih]
    cases item with
    | _ => rfl

theorem typeLabel_textless (delimiter : String) (e : Expr) :
    typeLabel delimiter e.textless = typeLabel delimiter e := by
  cases e with
  | array items => rw [Expr.textless, typeLabel, typeLabel, identifierNames_textless]
  | _ => rfl

theorem firstReturn_textless (statements : List (Statement Expr)) :
    Statement.firstReturn (textlessStatements statements) =
      textlessValue (Statement.firstReturn statements) := by
  induction statements with
  | nil => rfl
  | cons statement statements ih =>
    cases statement with
    | «return» value => rfl
    | other => exact ih

theorem returned_textless (body : FunctionBody Expr) :
    (textlessBody body).returned = textlessValue body.returned := by
  cases body with
  | block statements => exact firstReturn_textless statements
  | expression value => rfl

end Shapes

def PropOptions.textless (o : PropOptions) : PropOptions :=
  { o with default := o.default.map fun _ => "" }

def PropRecord.textless (p : PropRecord) : PropRecord :=
  { p with default := p.default.map fun _ => "" }

def ScriptInfo.textless (info : ScriptInfo) : ScriptInfo :=
  { info with props := info.props.map (OrderedMap.mapValues PropRecord.textless) }

theorem extractName_textless (value : Expr) : extractName value.textless = extractName value := by
  cases value with
  | _ => rfl

theorem extractRecords_textless (category : String) (entries : List (Entry Expr)) :
    extractRecords category (textlessEntries entries) = extractRecords category entries := by
  unfold extractRecords
  rw [textlessEntries_eq_map, List.foldlM_map]
  simp only [key_textlessEntry, comments_textlessEntry]

theorem extractMethods_textless (value : Expr) :
    extractMethods value.textless = extractMethods value := by
  cases value with
  | object entries => exact extractRecords_textless "method" entries
  | _ => rfl

theorem extractData_textless (value : Expr) :
    extractData value.textless = extractData value := by
  cases value with
  | function body =>
    dsimp only [Expr.textless, extractData]
    rw [returned_textless]
    cases body.returned with
    | none => rfl
    | some value =>
      cases value with
      | object entries => exact extractRecords_textless "data" entries
      | _ => rfl
  | _ => rfl

theorem add_textless (delimiter : String) (o : PropOptions) (member : Entry Expr) :
    o.textless.add delimiter (textlessEntry member) = (o.add delimiter member).textless := by
  unfold PropOptions.add
  rw [key_textlessEntry, value_textlessEntry, typeLabel_textless, text_textlessEntry]
  split
  . rfl
  . split
    . cases member.value with
      | _ => rfl
    . split
      . rfl
      . rfl

theorem ofEntries_textless (delimiter : String) (members : List (Entry Expr)) :
    PropOptions.ofEntries delimiter (textlessEntries members) =
      (PropOptions.ofEntries delimiter members).textless := by
  unfold PropOptions.ofEntries
  rw [textlessEntries_eq_map, List.foldl_map]
  have hfold : members.foldl (fun o member => o.add delimiter (textlessEntry member))
      (PropOptions.textless {}) = (members.foldl (PropOptions.add delimiter) {}).textless :=
    List.foldl_hom PropOptions.textless (add_textless delimiter)
  exact hfold

theorem propRecord_textless (entry : Entry Expr) :
    propRecord (textlessEntry entry) = PropRecord.textless <$> propRecord entry := by
  unfold propRecord
  rw [key_textlessEntry, value_textlessEntry, comments_textlessEntry]
  simp only [map_bind]
  congr 1
  funext desc
  congr 1
  funext options
  cases entry.value with
  | object members =>
    dsimp only [Expr.textless]
    rw [ofEntries_textless]
    generalize PropOptions.ofEntries options.typeDelimiter members = o
    rw [show o.textless.type = o.type from rfl]
    split
    . rw [map_bind]
      rfl
    . rfl
  | array items =>
    have hlabel := typeLabel_textless options.typeDelimiter (.array items)
    rw [Expr.textless] at hlabel ⊢
    dsimp only
    rw [hlabel]
    rfl
  | _ => rfl

theorem extractProps_textless (value : Expr) :
    extractProps value.textless =
      OrderedMap.mapValues PropRecord.textless <$> extractProps value := by
  cases value with
  | object entries =>
    dsimp only [Expr.textless, extractProps]
    rw [textlessEntries_eq_map]
    refine foldlM_map (g := OrderedMap.mapValues PropRecord.textless) ?_ entries ∅
    intro props entry
    simp only [propRecord_textless, key_textlessEntry, bind_map_left, map_bind, map_pure]
    congr 1
    funext prop
    rw [← OrderedMap.insert_mapValues]
  | _ => rfl

theorem extractField_textless (kind : FieldKind) (value : Expr) (info : ScriptInfo) :
    extractField kind value.textless info.textless =
      ScriptInfo.textless <$> extractField kind value info := by
  cases kind with
  | name =>
    dsimp only [extractField]
    rw [extractName_textless]
    split
    . simp [ScriptInfo.textless]
    . rfl
  | props =>
    simp only [extractField, extractProps_textless, bind_map_left, map_bind, map_pure,
      OrderedMap.nonEmpty?_mapValues]
    rfl
  | methods =>
    simp only [extractField, extractMethods_textless, map_bind, map_pure]
    rfl
  | data =>
    simp only [extractField, extractData_textless, map_bind, map_pure]
    rfl

theorem extractEntry_textless (info : ScriptInfo) (entry : Entry Expr) :
    extractEntry info.textless (textlessEntry entry) =
      ScriptInfo.textless <$> extractEntry info entry := by
  have hkey := key_textlessEntry entry
  cases hkind : FieldKind.ofKey? entry.key with
  | none =>
    unfold extractEntry
    rw [hkey, hkind, map_pure]
  | some kind =>
    rw [extractEntry_eq_orReport hkind, extractEntry_eq_orReport (hkey ▸ hkind), ← orReport_map,
      value_textlessEntry, extractField_textless]

theorem toOption_optionsObject_textless (e : Option Expr) :
    (optionsObject (e.map Expr.textless)).toOption =
      (optionsObject e).toOption.map textlessEntries := by
  cases e with
  | none => rfl
  | some e =>
    cases e with
    | call callee args =>
      cases args with
      | nil => rfl
      | cons arg args =>
        cases arg with
        | _ => rfl
    | _ => rfl

section Exports

variable {e e' : Option Expr} {entries : List (Entry Expr)} {options : Options}
  {log log' : List Problem} {info : ScriptInfo}

theorem extractScript_textless (h : optionsObject e = .ok entries) :
    extractScript (e.map Expr.textless) = ScriptInfo.textless <$> extractScript e := by
  have htextless := toOption_optionsObject_textless e
  rw [h] at htextless
  unfold extractScript
  cases hobject : optionsObject (e.map Expr.textless) with
  | error problem =>
    rw [hobject] at htextless
    cases htextless
  | ok entries' =>
    rw [hobject] at htextless
    rw [h, Option.some.inj htextless, textlessEntries_eq_map]
    exact foldlM_map extractEntry_textless entries {}

theorem exists_optionsObject_of_exec
    (h : (extractScript e).exec options log = (.ok info, log')) :
    ∃ entries, optionsObject e = .ok entries := by
  unfold extractScript at h
  split at h
  . next entries hentries => exact ⟨entries, hentries⟩
  . cases h

theorem exists_optionsObject_of_textless_eq (h : e.map Expr.textless = e'.map Expr.textless)
    (hobject : optionsObject e = .ok entries) : ∃ entries', optionsObject e' = .ok entries' := by
  have htextless := toOption_optionsObject_textless e'
  rw [← h, toOption_optionsObject_textless, hobject] at htextless
  cases hobject' : optionsObject e' with
  | ok entries' => exact ⟨entries', rfl⟩
  | error problem =>
    rw [hobject'] at htextless
    cases htextless

/--
The same information, except for the text of the defaults that props have.
-/
structure ScriptInfo.SameButDefaults (info info' : ScriptInfo) : Prop where
  name : info.name = info'.name
  data : info.data = info'.data
  methods : info.methods = info'.methods
  props : info.props.map (OrderedMap.mapValues PropRecord.textless) =
    info'.props.map (OrderedMap.mapValues PropRecord.textless)

theorem ScriptInfo.sameButDefaults_of_textless_eq {info info' : ScriptInfo}
    (h : info.textless = info'.textless) : info.SameButDefaults info' := by
  obtain ⟨hname, hprops, hdata, hmethods⟩ := ScriptInfo.mk.inj h
  exact ⟨hname, hdata, hmethods, hprops⟩

theorem extractScript_of_textless_eq (h : e.map Expr.textless = e'.map Expr.textless)
    (hexec : (extractScript e).exec options log = (.ok info, log')) :
    ∃ info', (extractScript e').exec options log = (.ok info', log') ∧
      info.SameButDefaults info' := by
  obtain ⟨entries, hentries⟩ := exists_optionsObject_of_exec hexec
  obtain ⟨entries', hentries'⟩ := exists_optionsObject_of_textless_eq h hentries
  have hpass : ScriptInfo.textless <$> extractScript e =
      ScriptInfo.textless <$> extractScript e' := by
    rw [← extractScript_textless hentries, ← extractScript_textless hentries', h]
  have houtcome : (ScriptInfo.textless <$> extractScript e).exec options log = _ :=
    exec_map ScriptInfo.textless (extractScript e)
  rw [hpass, exec_map, hexec] at houtcome
  cases hexec' : (extractScript e').exec options log with
  | mk result mid =>
    rw [hexec'] at houtcome
    cases result with
    | error problem => cases houtcome
    | ok info' =>
      obtain ⟨hinfo, hlog⟩ := Prod.mk.inj houtcome
      dsimp only at hlog
      rw [hlog]
      refine ⟨info', rfl, ?_⟩
      apply ScriptInfo.sameButDefaults_of_textless_eq
      exact (Except.ok.inj hinfo).symm

end Exports

/--
If one of two runs succeeds, both do, with the same log and the same information but for the
texts of defaults.
-/
structure SucceedAlike (outcome outcome' : Except Problem ScriptInfo × List Problem) : Prop where
  right : ∀ info log, outcome = (.ok info, log) →
    ∃ info', outcome' = (.ok info', log) ∧ info.SameButDefaults info'
  left : ∀ info' log, outcome' = (.ok info', log) →
    ∃ info, outcome = (.ok info, log) ∧ info'.SameButDefaults info

/--
Wrapping expressions of a script, wherever they are but in computed keys, changes no more of the
default export than the texts that it keeps, and no more of what is documented about it than the
texts of defaults.
-/
theorem extractScript_of_wrapped {source source' : List Char} {role : Role} {span : Span}
    {statements : List Tree} {t' : Tree}
    (h : Wrapped source source' false false (.node ⟨.program, role⟩ span statements) t') :
    (defaultExportOf source statements).map Expr.textless =
        (defaultExportOf source' t'.children).map Expr.textless ∧
      ∀ options log,
        SucceedAlike ((extractScript (defaultExportOf source statements)).exec options log)
          ((extractScript (defaultExportOf source' t'.children)).exec options log) := by
  have hexport := h.defaultExportOf
  refine ⟨hexport, fun options log => ⟨?_, ?_⟩⟩
  . intro info log' hexec
    exact extractScript_of_textless_eq hexport hexec
  . intro info' log' hexec
    exact extractScript_of_textless_eq hexport.symm hexec

/--
The labels and stretches of the nodes of a tree, in preorder.
-/
def outline (t : Tree) : List (Option Label × Span) :=
  t.preorder.map fun u => (u.label?, u.span)

def nameSource : List Char :=
  "export default \x7b name: 'A' \x7d".toList

/--
The statements in `nameSource`.
-/
def nameExport : List Tree :=
  [.node ⟨.exportDefault, .plain⟩ ⟨0, 28⟩
    [.node ⟨.object, .value⟩ ⟨15, 28⟩
      [.node ⟨.pair, .plain⟩ ⟨17, 26⟩
        [.node ⟨.propertyName, .key⟩ ⟨17, 21⟩ [],
          .node ⟨.string, .value⟩ ⟨23, 26⟩ []]]]]

def wrappedNameSource : List Char :=
  "export default (/*c*/\x7b name: (/*d*/'A' as any)! \x7d)".toList

/--
The statements in `wrappedNameSource`.
-/
def wrappedNameExport : List Tree :=
  [.node ⟨.exportDefault, .plain⟩ ⟨0, 50⟩
    [.node ⟨.parenthesized, .value⟩ ⟨15, 50⟩
      [.node ⟨.comment, .plain⟩ ⟨16, 21⟩ [],
        .node ⟨.object, .plain⟩ ⟨21, 49⟩
          [.node ⟨.pair, .plain⟩ ⟨23, 47⟩
            [.node ⟨.propertyName, .key⟩ ⟨23, 27⟩ [],
              .node ⟨.nonNullExpression, .value⟩ ⟨29, 47⟩
                [.node ⟨.parenthesized, .plain⟩ ⟨29, 46⟩
                  [.node ⟨.comment, .plain⟩ ⟨30, 35⟩ [],
                    .node ⟨.asExpression, .plain⟩ ⟨35, 45⟩
                      [.node ⟨.string, .plain⟩ ⟨35, 38⟩ []]]]]]]]]

theorem wrapped_nameExport :
    Wrapped nameSource wrappedNameSource false false
      (.node ⟨.program, .plain⟩ ⟨0, 28⟩ nameExport)
      (.node ⟨.program, .plain⟩ ⟨0, 50⟩ wrappedNameExport) := by
  refine .of_forall₂ (by decide) (.cons (.of_forall₂ (by decide) (.cons ?_ .nil)) .nil)
  refine .wrapper ⟨.object, .value⟩ .plain [.node ⟨.comment, .plain⟩ ⟨16, 21⟩ []] [] ?_ (by decide)
    rfl (by decide)
  refine .of_forall₂ (by decide) (.cons (.of_forall₂ (by decide) (.cons ?_ (.cons ?_ .nil))) .nil)
  . exact .of_forall₂ (by decide) .nil
  . refine .wrapper ⟨.parenthesized, .value⟩ .plain [] [] ?_ (by decide) rfl nofun
    refine .wrapper ⟨.asExpression, .value⟩ .plain [.node ⟨.comment, .plain⟩ ⟨30, 35⟩ []] [] ?_
      (by decide) rfl (by decide)
    refine .wrapper ⟨.string, .value⟩ .plain [] [] ?_ (by decide) rfl nofun
    exact .of_forall₂ (by decide) .nil

theorem extractScript_of_wrapped_name :
    outline (parseProgram .typeScript wrappedNameSource) =
        outline (.node ⟨.program, .plain⟩ ⟨0, 50⟩ wrappedNameExport) ∧
      Wrapped nameSource wrappedNameSource false false
        (.node ⟨.program, .plain⟩ ⟨0, 28⟩ nameExport)
        (.node ⟨.program, .plain⟩ ⟨0, 50⟩ wrappedNameExport) ∧
      ∃ info, (extractScript (defaultExportOf wrappedNameSource wrappedNameExport)).exec {} [] =
        (.ok info, []) ∧ info.name = some "A" := by
  have hplain : (extractScript (defaultExportOf nameSource nameExport)).exec {} [] =
      (.ok { name := some "A" }, []) := by
    decide +kernel
  obtain ⟨info, hexec, hsame⟩ :=
    ((extractScript_of_wrapped wrapped_nameExport).2 {} []).right _ _ hplain
  exact ⟨by decide +kernel, wrapped_nameExport, info, hexec, hsame.name.symm⟩

def computedSource : List Char :=
  "export default \x7b [f(a)]: b \x7d".toList

/--
The statements in `computedSource`.
-/
def computedExport : List Tree :=
  [.node ⟨.exportDefault, .plain⟩ ⟨0, 28⟩
    [.node ⟨.object, .value⟩ ⟨15, 28⟩
      [.node ⟨.pair, .plain⟩ ⟨17, 26⟩
        [.node ⟨.computedName, .key⟩ ⟨17, 23⟩
          [.node ⟨.callExpression, .plain⟩ ⟨18, 22⟩
            [.node ⟨.identifier, .callee⟩ ⟨18, 19⟩ [],
              .node ⟨.arguments, .arguments⟩ ⟨19, 22⟩
                [.node ⟨.identifier, .plain⟩ ⟨20, 21⟩ []]]],
          .node ⟨.identifier, .value⟩ ⟨25, 26⟩ []]]]]

def wrappedComputedSource : List Char :=
  "export default \x7b [f((a))]: b \x7d".toList

/--
The statements in `wrappedComputedSource`.
-/
def wrappedComputedExport : List Tree :=
  [.node ⟨.exportDefault, .plain⟩ ⟨0, 30⟩
    [.node ⟨.object, .value⟩ ⟨15, 30⟩
      [.node ⟨.pair, .plain⟩ ⟨17, 28⟩
        [.node ⟨.computedName, .key⟩ ⟨17, 25⟩
          [.node ⟨.callExpression, .plain⟩ ⟨18, 24⟩
            [.node ⟨.identifier, .callee⟩ ⟨18, 19⟩ [],
              .node ⟨.arguments, .arguments⟩ ⟨19, 24⟩
                [.node ⟨.parenthesized, .plain⟩ ⟨20, 23⟩
                  [.node ⟨.identifier, .plain⟩ ⟨21, 22⟩ []]]]],
          .node ⟨.identifier, .value⟩ ⟨27, 28⟩ []]]]]

theorem wrapped_computedExport :
    Wrapped computedSource wrappedComputedSource true false
      (.node ⟨.program, .plain⟩ ⟨0, 28⟩ computedExport)
      (.node ⟨.program, .plain⟩ ⟨0, 30⟩ wrappedComputedExport) := by
  refine .of_forall₂ (by decide) (.cons (.of_forall₂ (by decide) (.cons ?_ .nil)) .nil)
  refine .of_forall₂ (by decide) (.cons (.of_forall₂ (by decide) (.cons ?_ (.cons ?_ .nil))) .nil)
  . refine .of_forall₂ (by decide) (.cons ?_ .nil)
    refine .of_forall₂ (by decide) (.cons ?_ (.cons ?_ .nil))
    . exact .of_forall₂ (by decide) .nil
    . refine .of_forall₂ (by decide) (.cons ?_ .nil)
      refine .wrapper ⟨.identifier, .plain⟩ .plain [] [] ?_ (by decide) rfl nofun
      exact .of_forall₂ (by decide) .nil
  . exact .of_forall₂ (by decide) .nil

/--
A computed key keeps its source text, and with it the wrappers inside.
-/
theorem computed_key_keeps_wrapper :
    outline (parseProgram .javaScript wrappedComputedSource) =
        outline (.node ⟨.program, .plain⟩ ⟨0, 30⟩ wrappedComputedExport) ∧
      Wrapped computedSource wrappedComputedSource true false
        (.node ⟨.program, .plain⟩ ⟨0, 28⟩ computedExport)
        (.node ⟨.program, .plain⟩ ⟨0, 30⟩ wrappedComputedExport) ∧
      (defaultExportOf computedSource computedExport).map Expr.textless ≠
        (defaultExportOf wrappedComputedSource wrappedComputedExport).map Expr.textless := by
  refine ⟨by decide +kernel, wrapped_computedExport, ?_⟩
  intro h
  have hkeys := congrArg (fun e => (optionsObject e).toOption.map (List.map Entry.key)) h
  revert hkeys
  decide +kernel

end ComponentDoc
