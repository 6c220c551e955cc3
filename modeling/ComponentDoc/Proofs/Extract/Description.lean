import ComponentDoc.Extract.Slots
import ComponentDoc.Proofs.Pass
import ComponentDoc.Proofs.Text.Trim

/-!
Descriptions. A description that is found is the cleaned text of one comment, is not empty and is
trimmed; one that is not found is stood in for, and the log says so.
-/

namespace ComponentDoc

open Pass Text Script Markup

theorem trimmed_cleanComment (text : String) (block : Bool) :
    Trimmed (cleanComment text block).toList := by
  unfold cleanComment
  split
  . rw [String.toList_intercalate]
    apply (trimmed_intercalate ?_).1
    intro word hword
    simp only [List.map_map, List.mem_map, List.mem_filter, Function.comp_apply,
      String.toList_ofList] at hword
    obtain ⟨line, ⟨⟨source, _, rfl⟩, hne⟩, rfl⟩ := hword
    exact ⟨by simpa using hne, trimmed_trimChars _⟩
  . rw [trim, String.toList_ofList]
    exact trimmed_trimChars _

/--
Whether a description is fit to be shown: it holds something, and no blanks around it.
-/
def Presentable (desc : String) : Prop :=
  desc ≠ "" ∧ Trimmed desc.toList

instance : DecidablePred Presentable := fun desc =>
  inferInstanceAs (Decidable (desc ≠ "" ∧ Trimmed desc.toList))

theorem resolveComments_eq_some {comments : List Comment} {desc : String}
    (h : resolveComments comments = some desc) :
    Presentable desc ∧ ∃ comment rest, comments = comment :: rest ∧
      desc = cleanComment comment.text comment.block := by
  unfold resolveComments at h
  split at h
  . cases h
  . next comment rest =>
    dsimp only at h
    split at h
    . cases h
    . next hne =>
      cases h
      refine ⟨⟨?_, trimmed_cleanComment _ _⟩, comment, rest, rfl, rfl⟩
      simpa using hne

theorem slotDescription_eq_some {before : Option Node} {desc : String}
    (h : slotDescription before = some desc) :
    Presentable desc ∧ ∃ text, before = some (.comment text) ∧ desc = cleanComment text false := by
  unfold slotDescription at h
  split at h
  . next text =>
    dsimp only at h
    split at h
    . cases h
    . next hne =>
      cases h
      refine ⟨⟨?_, trimmed_cleanComment _ _⟩, text, rfl, rfl⟩
      simpa using hne
  . cases h

theorem exec_describe_eq_ok {category key desc : String} {found : Option String}
    {options : Options} {log log' : List Problem}
    (h : (describe category key found).exec options log = (.ok desc, log')) :
    (found = some desc ∧ log' = log) ∨
      (found = none ∧ desc = options.noDescription ∧
        log' = log ++ [.missingDescription category key]) := by
  cases found with
  | some text =>
    rw [exec_describe_some] at h
    cases h
    exact .inl ⟨rfl, rfl⟩
  | none =>
    rw [exec_describe_none] at h
    split at h
    . cases h
    . cases h
      exact .inr ⟨rfl, rfl, rfl⟩

end ComponentDoc
