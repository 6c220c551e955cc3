import ComponentDoc.Proofs.Extract.Entries
import ComponentDoc.Proofs.Extract.Isolation

/-!
Documented fields that are given several times, some of them with a value of the wrong shape. Such
a field is reported and has no other effect: its category is what the last field of the right
shape makes it, also when the field of the wrong shape comes behind that one.
-/

namespace ComponentDoc

open Pass Script

/--
An extractor either stops before it reports anything, whatever the options, or never fails in a
tolerant pass.
-/
theorem extractField_throws_or_gives (kind : FieldKind) (value : Expr) :
    (∃ problem, extractField kind value {} = (throw problem : Pass ScriptInfo)) ∨
      ∀ options, ∃ found problems,
        (extractField kind value {}).tolerant options = (.ok found, problems) := by
  cases kind with
  | name =>
    dsimp only [extractField]
    cases extractName value with
    | ok name => exact .inr fun options => ⟨_, _, rfl⟩
    | error problem => exact .inl ⟨problem, rfl⟩
  | props =>
    cases value with
    | object entries =>
      right
      intro options
      dsimp only [extractField, tolerant]
      rw [exec_bind_of_ok (exec_extractProps rfl entries [])]
      exact ⟨_, _, rfl⟩
    | _ => exact .inl ⟨_, rfl⟩
  | methods =>
    cases value with
    | object entries =>
      right
      intro options
      dsimp only [extractField, extractMethods, tolerant]
      rw [exec_bind_of_ok (exec_extractRecords rfl "method" entries [])]
      exact ⟨_, _, rfl⟩
    | _ => exact .inl ⟨_, rfl⟩
  | data =>
    cases value with
    | function body =>
      dsimp only [extractField, extractData]
      split
      . exact .inl ⟨_, rfl⟩
      . next entries _ =>
        right
        intro options
        dsimp only [tolerant]
        rw [exec_bind_of_ok (exec_extractRecords rfl "data" entries [])]
        exact ⟨_, _, rfl⟩
      . exact .inl ⟨_, rfl⟩
    | _ => exact .inl ⟨_, rfl⟩

namespace FieldKind

/--
The problem with which the extractor of a field stops at a value, if it does not take its shape.
-/
def refusal? (kind : FieldKind) (value : Expr) : Option Problem :=
  match ((extractField kind value {}).tolerant {}).1 with
  | .ok _ => none
  | .error problem => some problem

/--
The last of the entries with the key of a field whose value has a shape that the extractor takes.
-/
def lastTaken (kind : FieldKind) (entries : List (Entry Expr)) : Option (Entry Expr) :=
  entries.reverse.find? fun entry => entry.key = kind.key ∧ kind.refusal? entry.value = none

theorem extractField_of_refusal {kind : FieldKind} {value : Expr} {problem : Problem}
    (h : kind.refusal? value = some problem) :
    extractField kind value {} = (throw problem : Pass ScriptInfo) := by
  unfold refusal? at h
  cases extractField_throws_or_gives kind value with
  | inl hthrow =>
    obtain ⟨other, hthrow⟩ := hthrow
    rw [hthrow] at h
    cases h
    exact hthrow
  | inr hgives =>
    obtain ⟨found, problems, hgives⟩ := hgives {}
    rw [hgives] at h
    cases h

theorem tolerant_of_no_refusal {kind : FieldKind} {value : Expr} (h : kind.refusal? value = none)
    (options : Options) : ∃ found problems,
      (extractField kind value {}).tolerant options = (.ok found, problems) := by
  unfold refusal? at h
  cases extractField_throws_or_gives kind value with
  | inl hthrow =>
    obtain ⟨problem, hthrow⟩ := hthrow
    rw [hthrow] at h
    cases h
  | inr hgives => exact hgives options

end FieldKind

section Refused

variable {options : Options} {kind : FieldKind} {entry : Entry Expr}

theorem contribution_of_refusal (hkey : entry.key = kind.key) {problem : Problem}
    (h : kind.refusal? entry.value = some problem) :
    contribution options entry = (none, [problem]) := by
  unfold contribution
  rw [FieldKind.ofKey?_eq_some_iff.2 hkey]
  dsimp only
  rw [FieldKind.extractField_of_refusal h]
  rfl

theorem contribute_of_refusal (hkey : entry.key = kind.key) {problem : Problem}
    (h : kind.refusal? entry.value = some problem) (info : ScriptInfo) :
    contribute options info entry = info := by
  unfold contribute
  rw [contribution_of_refusal hkey h]

theorem only_contribute_of_taken (hkey : entry.key = kind.key)
    (h : kind.refusal? entry.value = none) (info : ScriptInfo) :
    (contribute options info entry).only kind = contribute options {} entry := by
  obtain ⟨found, problems, hfound⟩ := FieldKind.tolerant_of_no_refusal h options
  unfold contribute contribution
  rw [FieldKind.ofKey?_eq_some_iff.2 hkey]
  dsimp only
  rw [hfound]
  cases kind with
  | _ => rfl

/--
The part of the result that fields of one kind give is what the last one of the right shape gives.
-/
theorem only_foldl_contribute_eq (kind : FieldKind) (entries : List (Entry Expr)) :
    (entries.foldl (contribute options) {}).only kind =
      match kind.lastTaken entries with
      | none => {}
      | some entry => contribute options {} entry := by
  induction entries using List.reverseRecOn with
  | nil => exact ScriptInfo.only_empty kind
  | append_singleton entries entry ih =>
    rw [List.foldl_append, List.foldl_cons, List.foldl_nil]
    unfold FieldKind.lastTaken at ih ⊢
    rw [List.reverse_append, List.reverse_singleton, List.singleton_append, List.find?_cons]
    by_cases hkey : entry.key = kind.key
    . cases hrefusal : kind.refusal? entry.value with
      | none =>
        rw [only_contribute_of_taken hkey hrefusal]
        simp [hkey]
      | some problem =>
        rw [contribute_of_refusal hkey hrefusal, ih]
        simp
    . rw [only_contribute_of_ne _ hkey, ih]
      simp [hkey]

/--
A field whose value has the wrong shape is reported, wherever it stands and however often its key
is given. It changes nothing else: without it the result is the same, and so its category is not
empty if a field with the same key and a value of the right shape comes before it. In all cases
the category is what the last field of the right shape gives when it is alone, and it is empty if
there is none.
-/
theorem refused_field_changes_nothing {options : Options} (hmode : options.strict = false)
    (entries : List (Entry Expr)) (log : List Problem) :
    ∃ info problems,
      (extractScript (some (.object entries))).exec options log = (.ok info, log ++ problems) ∧
      ∀ kind : FieldKind,
        (∀ before entry after problem, entries = before ++ entry :: after →
          entry.key = kind.key → kind.refusal? entry.value = some problem →
            problem ∈ problems ∧
            ((extractScript (some (.object (before ++ after)))).exec options log).1 = .ok info) ∧
        match kind.lastTaken entries with
        | none => info.only kind = {}
        | some entry =>
          ((extractScript (some (.object [entry]))).exec options []).1 = .ok (info.only kind) := by
  refine ⟨_, _, extractScript_exec_eq hmode entries log, ?_⟩
  intro kind
  constructor
  . intro before entry after problem hentries hkey hrefusal
    subst hentries
    constructor
    . rw [List.mem_flatMap]
      refine ⟨entry, by simp, ?_⟩
      rw [contribution_of_refusal hkey hrefusal]
      exact List.mem_singleton_self problem
    . rw [extractScript_exec_eq hmode, List.foldl_append, List.foldl_append, List.foldl_cons,
        contribute_of_refusal hkey hrefusal]
  . rw [only_foldl_contribute_eq]
    cases kind.lastTaken entries with
    | none => rfl
    | some entry =>
      dsimp only
      rw [extractScript_exec_eq hmode]
      rfl

/--
A name that is a number behind one that is a string: the number is reported, and the string stays
the name.
-/
theorem refused_field_changes_nothing_stale :
    ∃ (kept refused : Entry Expr) (problem : Problem) (info : ScriptInfo) (problems : List Problem),
      refused.key = FieldKind.name.key ∧
      FieldKind.name.refusal? refused.value = some problem ∧
      (extractScript (some (.object [kept, refused]))).exec {} [] = (.ok info, problems) ∧
      problem ∈ problems ∧
      info.only .name = { name := some "Foo" } := by
  let kept : Entry Expr := ⟨"name", .string "Foo", "", []⟩
  let refused : Entry Expr := ⟨"name", .other "number" "1", "", []⟩
  obtain ⟨info, problems, hexec, hkinds⟩ :=
    @refused_field_changes_nothing {} rfl [kept, refused] []
  obtain ⟨hrefused, htaken⟩ := hkinds .name
  obtain ⟨hreported, _⟩ := hrefused [kept] refused [] _ rfl rfl rfl
  have hname : Except.ok { name := some "Foo" } = Except.ok (info.only .name) := htaken
  exact ⟨kept, refused, _, info, problems, rfl, rfl, hexec, hreported, (Except.ok.inj hname).symm⟩

end Refused

end ComponentDoc
