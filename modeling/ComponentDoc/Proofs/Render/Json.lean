import ComponentDoc.Render.Format
import ComponentDoc.Proofs.Json.Document

/-!
Documents in JSON lose nothing. What a value says about a component is found by `ofJson?`, which
takes members only in the order in which they are written and only where they are written: it
finds a component in exactly one value, the one that is read from its document.
-/

namespace ComponentDoc

open Json

def Json.Value.toOption? : Value → Option (Option String)
  | .null => some none
  | .string s => some (some s)
  | _ => none

def Record.ofJson? : Value → Option Record
  | .object [("name", .string name), ("desc", .string desc)] => some ⟨name, desc⟩
  | _ => none

/--
What the members behind the description of a prop say about `required` and `default`.
-/
def PropRecord.remarks? : List (String × Value) → Option (Option Bool × Option String)
  | [] => some (none, none)
  | [("required", .bool required)] => some (some required, none)
  | [("default", .string text)] => some (none, some text)
  | [("required", .bool required), ("default", .string text)] => some (some required, some text)
  | _ => none

def PropRecord.ofJson? : Value → Option PropRecord
  | .object (("name", .string name) :: ("type", type) :: ("desc", .string desc) :: more) => do
    let type ← type.toOption?
    let (required, default) ← remarks? more
    return ⟨name, type, desc, required, default⟩
  | _ => none

/--
The category that a value describes: no map at all, or a map with an entry for each member.
-/
def categoryOfJson? {ρ : Type} (ofJson? : Value → Option ρ) :
    Value → Option (Option (OrderedMap String ρ))
  | .null => some none
  | .object members => do
    let entries ← members.mapM fun m => (ofJson? m.2).map (m.1, ·)
    if h : (entries.map Prod.fst).Nodup then
      return some ⟨entries, h⟩
    else
      none
  | _ => none

def ComponentInfo.ofJson? : Value → Option ComponentInfo
  | .object [("name", name), ("props", props), ("data", data), ("slots", slots),
      ("methods", methods)] => do
    return {
      name := ← name.toOption?
      props := ← categoryOfJson? PropRecord.ofJson? props
      data := ← categoryOfJson? Record.ofJson? data
      slots := ← categoryOfJson? Record.ofJson? slots
      methods := ← categoryOfJson? Record.ofJson? methods
    }
  | _ => none

/--
What is written is recovered, and nothing else is.
-/
structure Recovers {α γ : Type} (write : α → γ) (read? : γ → Option α) : Prop where
  recovered : ∀ a, read? (write a) = some a
  written : ∀ {c a}, read? c = some a → c = write a

theorem recovers_option : Recovers Value.ofOption Value.toOption? := by
  constructor
  . intro text
    cases text with
    | none => rfl
    | some text => rfl
  . intro value text h
    unfold Value.toOption? at h
    split at h
    . cases h
      rfl
    . cases h
      rfl
    . cases h

theorem recovers_record : Recovers Record.toJson Record.ofJson? := by
  constructor
  . intro record
    rfl
  . intro value record h
    unfold Record.ofJson? at h
    split at h
    . cases h
      rfl
    . cases h

theorem recovers_remarks :
    Recovers
      (fun remarks : Option Bool × Option String =>
        (remarks.1.map fun required => ("required", Value.bool required)).toList
          ++ (remarks.2.map fun text => ("default", Value.string text)).toList)
      PropRecord.remarks? := by
  constructor
  . intro remarks
    cases remarks with
    | mk required default =>
      cases required with
      | none =>
        cases default with
        | none => rfl
        | some text => rfl
      | some required =>
        cases default with
        | none => rfl
        | some text => rfl
  . intro members remarks h
    unfold PropRecord.remarks? at h
    split at h
    . cases h
      rfl
    . cases h
      rfl
    . cases h
      rfl
    . cases h
      rfl
    . cases h

theorem recovers_propRecord : Recovers PropRecord.toJson PropRecord.ofJson? := by
  constructor
  . intro record
    have htype := recovers_option.recovered record.type
    have hremarks := recovers_remarks.recovered (record.required, record.default)
    unfold PropRecord.toJson PropRecord.ofJson?
    dsimp only at hremarks ⊢
    simp only [List.cons_append, List.nil_append]
    rw [htype, hremarks]
    rfl
  . intro value record h
    unfold PropRecord.ofJson? at h
    split at h
    . simp only [Option.bind_eq_bind, Option.bind_eq_some_iff] at h
      obtain ⟨type, htype, remarks, hremarks, h⟩ := h
      cases h
      rw [recovers_option.written htype, recovers_remarks.written hremarks]
      rfl
    . cases h

section Category

variable {ρ : Type} {toJson : ρ → Value} {ofJson? : Value → Option ρ}

theorem Recovers.entries (h : Recovers toJson ofJson?) :
    Recovers (fun entries : List (String × ρ) => entries.map fun e => (e.1, toJson e.2))
      (fun members => members.mapM fun m => (ofJson? m.2).map (m.1, ·)) := by
  constructor
  . intro entries
    induction entries with
    | nil => rfl
    | cons e entries ih =>
      rw [List.map_cons, List.mapM_cons, ih, h.recovered]
      rfl
  . intro members entries hmembers
    induction members generalizing entries with
    | nil =>
      cases hmembers
      rfl
    | cons m members ih =>
      rw [List.mapM_cons] at hmembers
      simp only [Option.bind_eq_bind, Option.bind_eq_some_iff, Option.map_eq_some_iff] at hmembers
      obtain ⟨e, ⟨record, hrecord, rfl⟩, rest, hrest, hentries⟩ := hmembers
      cases hentries
      rw [List.map_cons, ← ih hrest, ← h.written hrecord]

theorem Recovers.category (h : Recovers toJson ofJson?) :
    Recovers (categoryJson toJson) (categoryOfJson? ofJson?) := by
  constructor
  . intro category
    cases category with
    | none => rfl
    | some records =>
      have hentries := h.entries.recovered records.entries
      unfold categoryJson categoryOfJson?
      dsimp only at hentries ⊢
      rw [hentries]
      simp only [Option.bind_eq_bind, Option.bind_some]
      rw [dif_pos records.nodup]
      rfl
  . intro value category hvalue
    unfold categoryOfJson? at hvalue
    split at hvalue
    . cases hvalue
      rfl
    . simp only [Option.bind_eq_bind, Option.bind_eq_some_iff] at hvalue
      obtain ⟨entries, hentries, hvalue⟩ := hvalue
      split at hvalue
      . cases hvalue
        rw [h.entries.written hentries]
        rfl
      . cases hvalue
    . cases hvalue

end Category

theorem recovers_componentInfo : Recovers ComponentInfo.toJson ComponentInfo.ofJson? := by
  constructor
  . intro info
    rw [ComponentInfo.toJson, ComponentInfo.ofJson?, recovers_option.recovered,
      recovers_propRecord.category.recovered, recovers_record.category.recovered,
      recovers_record.category.recovered, recovers_record.category.recovered]
    rfl
  . intro value info h
    unfold ComponentInfo.ofJson? at h
    split at h
    . simp only [Option.bind_eq_bind, Option.bind_eq_some_iff] at h
      obtain ⟨name, hname, props, hprops, data, hdata, slots, hslots, methods, hmethods, h⟩ := h
      cases h
      rw [recovers_option.written hname, recovers_propRecord.category.written hprops,
        recovers_record.category.written hdata, recovers_record.category.written hslots,
        recovers_record.category.written hmethods]
      rfl
    . cases h

theorem Recovers.eq_some_iff {α γ : Type} {write : α → γ} {read? : γ → Option α} {c : γ} {a : α}
    (h : Recovers write read?) : read? c = some a ↔ c = write a := by
  constructor
  . exact h.written
  . intro hc
    rw [hc, h.recovered]

theorem Recovers.injective {α γ : Type} {write : α → γ} {read? : γ → Option α} {a b : α}
    (h : Recovers write read?) (heq : write a = write b) : a = b := by
  have hread := h.recovered a
  rw [heq, h.recovered b] at hread
  cases hread
  rfl

theorem parse_jsonText (info : ComponentInfo) : Value.parse info.jsonText = .ok info.toJson := by
  apply Value.parse_pretty_append
  intro c hc
  cases List.mem_singleton.1 hc
  rfl

theorem jsonText_injective {info other : ComponentInfo} (h : other.jsonText = info.jsonText) :
    other = info := by
  have hparse := parse_jsonText other
  rw [h, parse_jsonText info] at hparse
  apply recovers_componentInfo.injective
  exact (Except.ok.inj hparse).symm

/--
The JSON document of a component is one value and a line feed, and the component can be found
again in that value and in no other. So no two components have the same document.
-/
theorem Format.render_json_lossless (info : ComponentInfo) (config : ColumnConfig) :
    (∃ document members,
      Format.json.render info config = document ++ "\n" ∧
      Value.parse document = .ok (.object members) ∧
      Value.parse (Format.json.render info config) = .ok (.object members) ∧
      members.map Prod.fst = ["name", "props", "data", "slots", "methods"] ∧
      ∀ value, ComponentInfo.ofJson? value = some info ↔ value = .object members) ∧
    ∀ other config',
      Format.json.render other config' = Format.json.render info config ↔ other = info := by
  constructor
  . refine ⟨info.toJson.pretty, _, rfl, ?_, parse_jsonText info, rfl, ?_⟩
    . exact info.toJson.parse_pretty
    . intro value
      exact recovers_componentInfo.eq_some_iff
  . intro other config'
    constructor
    . exact jsonText_injective
    . intro h
      rw [h]
      rfl

end ComponentDoc
