import ComponentDoc.Files.Path

/-!
Paths as texts and as components. What is joined to a path stands behind its parts, the order of
paths is total, and the stem of a file name holds no slash.
-/

namespace ComponentDoc

section Splitting

variable {cs front back : List Char}

theorem splitSlashes_ne_nil (cs : List Char) : splitSlashes cs ≠ [] := by
  cases cs with
  | nil => simp [splitSlashes]
  | cons c cs =>
    unfold splitSlashes
    split
    . simp
    . split
      . simp
      . simp

theorem splitSlashes_append_slash (front back : List Char) :
    splitSlashes (front ++ '/' :: back) = splitSlashes front ++ splitSlashes back := by
  induction front with
  | nil => rfl
  | cons c front ih =>
    simp only [List.cons_append, splitSlashes, ih]
    by_cases hc : c = '/'
    . simp [hc]
    . simp only [hc, if_false]
      cases hfront : splitSlashes front with
      | nil => exact absurd hfront (splitSlashes_ne_nil front)
      | cons part parts => rfl

theorem splitSlashes_of_not_mem (h : '/' ∉ cs) : splitSlashes cs = [cs] := by
  induction cs with
  | nil => rfl
  | cons c cs ih =>
    simp only [List.mem_cons, not_or] at h
    have hc : ¬ c = '/' := fun hc => h.1 hc.symm
    unfold splitSlashes
    rw [if_neg hc, ih h.2]

theorem not_mem_of_mem_splitSlashes {part : List Char} (h : part ∈ splitSlashes cs) :
    '/' ∉ part := by
  induction cs generalizing part with
  | nil =>
    cases List.mem_singleton.1 h
    exact List.not_mem_nil
  | cons c cs ih =>
    unfold splitSlashes at h
    split at h
    . rcases List.mem_cons.1 h with rfl | h
      . exact List.not_mem_nil
      . exact ih h
    . next hc =>
      have hfirst : ∀ {part' : List Char}, '/' ∉ part' → '/' ∉ c :: part' := by
        intro part' hpart
        simp only [List.mem_cons, not_or]
        exact ⟨fun heq => hc heq.symm, hpart⟩
      split at h
      . cases List.mem_singleton.1 h
        apply hfirst List.not_mem_nil
      . next part' parts hparts =>
        rw [hparts] at ih
        rcases List.mem_cons.1 h with rfl | h
        . apply hfirst (ih List.mem_cons_self)
        . exact ih (List.mem_cons_of_mem part' h)

end Splitting

namespace PathComponent

variable {a b c : PathComponent}

theorem lt_iff :
    a.lt b ↔ a.rank < b.rank ∨ ∃ x y, a = .name x ∧ b = .name y ∧ x < y := by
  cases a with
  | name x =>
    cases b with
    | name y => simp [lt, rank]
    | _ => simp [lt]
  | _ => simp [lt]

theorem lt_trans (hab : a.lt b) (hbc : b.lt c) : a.lt c := by
  rw [lt_iff] at hab hbc ⊢
  rcases hab with hab | ⟨x, y, rfl, rfl, hxy⟩
  . rcases hbc with hbc | ⟨y, z, rfl, rfl, hyz⟩
    . exact .inl (Nat.lt_trans hab hbc)
    . exact .inl hab
  . rcases hbc with hbc | ⟨y', z, hy, rfl, hyz⟩
    . exact .inl hbc
    . cases hy
      exact .inr ⟨x, z, rfl, rfl, String.lt_trans hxy hyz⟩

theorem lt_irrefl (a : PathComponent) : ¬ a.lt a := by
  rw [lt_iff]
  rintro (hrank | ⟨x, y, rfl, hy, hxy⟩)
  . exact Nat.lt_irrefl _ hrank
  . cases hy
    exact String.lt_irrefl x hxy

theorem eq_or_names_of_rank_eq (h : a.rank = b.rank) :
    a = b ∨ ∃ x y, a = .name x ∧ b = .name y := by
  cases a with
  | name x =>
    cases b with
    | name y => exact .inr ⟨x, y, rfl, rfl⟩
    | _ => cases h
  | _ =>
    cases b with
    | _ => simp_all [rank]

theorem lt_trichotomy (a b : PathComponent) : a.lt b ∨ a = b ∨ b.lt a := by
  rw [lt_iff, lt_iff]
  rcases Nat.lt_trichotomy a.rank b.rank with hrank | hrank | hrank
  . exact .inl (.inl hrank)
  . rcases eq_or_names_of_rank_eq hrank with rfl | ⟨x, y, rfl, rfl⟩
    . exact .inr (.inl rfl)
    . by_cases hxy : x < y
      . exact .inl (.inr ⟨x, y, rfl, rfl, hxy⟩)
      . by_cases hyx : y < x
        . exact .inr (.inr (.inr ⟨y, x, rfl, rfl, hyx⟩))
        . rw [String.le_antisymm (String.not_lt.1 hyx) (String.not_lt.1 hxy)]
          exact .inr (.inl rfl)
  . exact .inr (.inr (.inl hrank))

end PathComponent

namespace Path

section Order

theorem componentsLe_trans {as bs cs : List PathComponent} (hab : componentsLe as bs)
    (hbc : componentsLe bs cs) : componentsLe as cs := by
  induction as generalizing bs cs with
  | nil => rfl
  | cons a as ih =>
    cases bs with
    | nil => cases hab
    | cons b bs =>
      cases cs with
      | nil => cases hbc
      | cons c cs =>
        simp only [componentsLe, Bool.or_eq_true, Bool.and_eq_true, decide_eq_true_eq] at hab hbc ⊢
        rcases hab with hab | ⟨rfl, hab⟩
        . rcases hbc with hbc | ⟨rfl, hbc⟩
          . exact .inl (PathComponent.lt_trans hab hbc)
          . exact .inl hab
        . rcases hbc with hbc | ⟨rfl, hbc⟩
          . exact .inl hbc
          . exact .inr ⟨rfl, ih hab hbc⟩

theorem componentsLe_total (as bs : List PathComponent) :
    componentsLe as bs ∨ componentsLe bs as := by
  induction as generalizing bs with
  | nil => exact .inl rfl
  | cons a as ih =>
    cases bs with
    | nil => exact .inr rfl
    | cons b bs =>
      simp only [componentsLe, Bool.or_eq_true, Bool.and_eq_true, decide_eq_true_eq]
      rcases PathComponent.lt_trichotomy a b with hlt | rfl | hlt
      . exact .inl (.inl hlt)
      . rcases ih bs with hle | hle
        . exact .inl (.inr ⟨rfl, hle⟩)
        . exact .inr (.inr ⟨rfl, hle⟩)
      . exact .inr (.inl hlt)

theorem componentsLe_antisymm {as bs : List PathComponent} (hab : componentsLe as bs)
    (hba : componentsLe bs as) : as = bs := by
  induction as generalizing bs with
  | nil =>
    cases bs with
    | nil => rfl
    | cons b bs => cases hba
  | cons a as ih =>
    cases bs with
    | nil => cases hab
    | cons b bs =>
      simp only [componentsLe, Bool.or_eq_true, Bool.and_eq_true, decide_eq_true_eq] at hab hba
      rcases hab with hab | ⟨rfl, hab⟩
      . rcases hba with hba | ⟨rfl, hba⟩
        . exact absurd (PathComponent.lt_trans hab hba) (PathComponent.lt_irrefl a)
        . exact absurd hab (PathComponent.lt_irrefl b)
      . rcases hba with hba | ⟨_, hba⟩
        . exact absurd hba (PathComponent.lt_irrefl a)
        . rw [ih hab hba]

theorem le_trans {p q r : Path} (hpq : p.le q) (hqr : q.le r) : p.le r :=
  componentsLe_trans hpq hqr

theorem same_of_le {p q : Path} (hpq : p.le q) (hqp : q.le p) : p.same q := by
  unfold same
  rw [decide_eq_true_eq]
  exact componentsLe_antisymm hpq hqp

theorem le_refl (p : Path) : p.le p := by
  rcases componentsLe_total p.components p.components with h | h
  . exact h
  . exact h

theorem pairwise_mergeSort_le (paths : List Path) :
    (paths.mergeSort le).Pairwise fun p q => p.le q := by
  apply List.pairwise_mergeSort
  . intro p q r hpq hqr
    exact le_trans hpq hqr
  . intro p q
    rw [Bool.or_eq_true]
    exact componentsLe_total p.components q.components

theorem dropRepeats_eq_self {paths : List Path} (h : paths.Pairwise fun p q => ¬ p.same q) :
    dropRepeats paths = paths := by
  induction paths with
  | nil => rfl
  | cons p paths ih =>
    rw [List.pairwise_cons] at h
    unfold dropRepeats
    rw [ih h.2]
    cases paths with
    | nil => rfl
    | cons q paths =>
      dsimp only
      rw [if_neg (h.1 q List.mem_cons_self)]

theorem same_symm {p q : Path} (h : p.same q) : q.same p := by
  unfold same at h ⊢
  rw [decide_eq_true_eq] at h ⊢
  exact h.symm

/--
Where no two paths are the same, sorting only brings them in order.
-/
theorem sorted_eq_mergeSort {paths : List Path} (h : paths.Pairwise fun p q => ¬ p.same q) :
    sorted paths = paths.mergeSort le := by
  apply dropRepeats_eq_self
  rw [(List.mergeSort_perm paths le).pairwise_iff]
  . exact h
  . intro p q hpq hqp
    exact hpq (same_symm hqp)

theorem same_trans {p q r : Path} (hpq : p.same q) (hqr : q.same r) : p.same r := by
  unfold same at hpq hqr ⊢
  rw [decide_eq_true_eq] at hpq hqr ⊢
  exact hpq.trans hqr

theorem le_of_same {p q : Path} (h : p.same q) : p.le q := by
  unfold same at h
  rw [decide_eq_true_eq] at h
  have hrefl := le_refl p
  unfold le at hrefl ⊢
  rw [← h]
  exact hrefl

theorem dropRepeats_subset (paths : List Path) : dropRepeats paths ⊆ paths := by
  induction paths with
  | nil => exact List.Subset.refl _
  | cons p paths ih =>
    unfold dropRepeats
    split
    . simp
    . next q qs heq =>
      rw [heq, List.cons_subset] at ih
      split
      . exact List.cons_subset_cons p ih.2
      . exact List.cons_subset_cons p (List.cons_subset.2 ih)

theorem pairwise_dropRepeats {paths : List Path} (h : paths.Pairwise fun p q => p.le q) :
    (dropRepeats paths).Pairwise fun p q => p.le q ∧ ¬ p.same q := by
  induction paths with
  | nil => exact .nil
  | cons p paths ih =>
    rw [List.pairwise_cons] at h
    have hrest := ih h.2
    have hle : ∀ r ∈ dropRepeats paths, p.le r := by
      intro r hr
      exact h.1 r (dropRepeats_subset paths hr)
    unfold dropRepeats
    split
    . apply List.pairwise_singleton
    . next q qs heq =>
      rw [heq] at hrest hle
      have hbehind := (List.pairwise_cons.1 hrest).1
      split
      . next hsame =>
        refine List.pairwise_cons.2 ⟨?_, (List.pairwise_cons.1 hrest).2⟩
        intro r hr
        refine ⟨hle r (List.mem_cons_of_mem q hr), ?_⟩
        intro hpr
        exact (hbehind r hr).2 (same_trans (same_symm hsame) hpr)
      . next hne =>
        refine List.pairwise_cons.2 ⟨?_, hrest⟩
        intro r hr
        refine ⟨hle r hr, ?_⟩
        intro hpr
        -- What lies between two equal paths is equal to them.
        apply hne
        apply same_of_le (hle q List.mem_cons_self)
        rcases List.mem_cons.1 hr with rfl | hr
        . exact le_of_same (same_symm hpr)
        . exact le_trans (hbehind r hr).1 (le_of_same (same_symm hpr))

/--
Sorted paths are in strict order: no two of them are the same.
-/
theorem pairwise_sorted (paths : List Path) :
    (sorted paths).Pairwise fun p q => p.le q ∧ ¬ p.same q :=
  pairwise_dropRepeats (pairwise_mergeSort_le paths)

theorem same_iff {p q : Path} : p.same q ↔ p.components = q.components :=
  decide_eq_true_iff

theorem exists_same_of_mem_dropRepeats {paths : List Path} {p : Path} (h : p ∈ paths) :
    ∃ q ∈ dropRepeats paths, q.same p := by
  induction paths with
  | nil => cases h
  | cons r paths ih =>
    unfold dropRepeats
    rcases List.mem_cons.1 h with rfl | h
    . refine ⟨p, ?_, same_iff.2 rfl⟩
      split
      . exact List.mem_cons_self
      . split
        . exact List.mem_cons_self
        . exact List.mem_cons_self
    . obtain ⟨q, hq, hsame⟩ := ih h
      split
      . next hnil =>
        rw [hnil] at hq
        cases hq
      . next first rest hrest =>
        rw [hrest] at hq
        split
        . next hfirst =>
          -- The one that stays for `first` is the same as what `first` stood for.
          rcases List.mem_cons.1 hq with rfl | hq
          . exact ⟨r, List.mem_cons_self, same_trans hfirst hsame⟩
          . exact ⟨q, List.mem_cons_of_mem r hq, hsame⟩
        . exact ⟨q, List.mem_cons_of_mem r hq, hsame⟩

/--
Sorting keeps every path, up to its spelling, and brings in no other one.
-/
theorem exists_mem_sorted_iff {paths : List Path} {p : Path} :
    (∃ q ∈ sorted paths, q.same p) ↔ ∃ q ∈ paths, q.same p := by
  constructor
  . rintro ⟨q, hq, hsame⟩
    exact ⟨q, List.mem_mergeSort.1 (dropRepeats_subset _ hq), hsame⟩
  . rintro ⟨q, hq, hsame⟩
    obtain ⟨r, hr, hrq⟩ := exists_same_of_mem_dropRepeats (List.mem_mergeSort.2 hq)
    exact ⟨r, hr, same_trans hrq hsame⟩

/--
Lists in strict order that hold the same paths are equal, up to the spelling of the paths.
-/
theorem map_components_eq {paths others : List Path}
    (hpaths : paths.Pairwise fun p q => p.le q ∧ ¬ p.same q)
    (hothers : others.Pairwise fun p q => p.le q ∧ ¬ p.same q)
    (h : ∀ p, (∃ q ∈ others, q.same p) ↔ ∃ q ∈ paths, q.same p) :
    others.map components = paths.map components := by
  have hle {ps : List Path} (hps : ps.Pairwise fun p q => p.le q ∧ ¬ p.same q) :
      (ps.map components).Pairwise fun as bs => componentsLe as bs = true :=
    List.pairwise_map.2 (hps.imp fun hpq => hpq.1)
  have hnodup {ps : List Path} (hps : ps.Pairwise fun p q => p.le q ∧ ¬ p.same q) :
      (ps.map components).Nodup :=
    List.pairwise_map.2 (hps.imp fun hpq heq => hpq.2 (same_iff.2 heq))
  have hmem (ps : List Path) (p : Path) :
      p.components ∈ ps.map components ↔ ∃ q ∈ ps, q.same p := by
    simp only [List.mem_map, same_iff]
  apply List.Perm.eq_of_pairwise (fun _ _ _ _ => componentsLe_antisymm) (hle hothers) (hle hpaths)
  rw [List.perm_ext_iff_of_nodup (hnodup hothers) (hnodup hpaths)]
  intro cs
  constructor
  . intro hcs
    obtain ⟨p, _, rfl⟩ := List.mem_map.1 hcs
    exact (hmem paths p).2 ((h p).1 ((hmem others p).1 hcs))
  . intro hcs
    obtain ⟨p, _, rfl⟩ := List.mem_map.1 hcs
    exact (hmem others p).2 ((h p).2 ((hmem paths p).1 hcs))

end Order

section Names

variable {directory path : Path} {name : String}

/--
Joining a name replaces what is empty behind the last slash, or adds a part.
-/
theorem parts_join (h : '/' ∉ name.toList) :
    ∃ parts, (directory.join name).parts = parts ++ [name] ∧
      (directory.parts = parts ∨ directory.parts = parts ++ [""]) := by
  have hhead : ¬ name.toList.head? = some '/' := fun hslash => h (List.mem_of_mem_head? hslash)
  have hname : (splitSlashes name.toList).map String.ofList = [name] := by
    rw [splitSlashes_of_not_mem h, List.map_singleton, String.ofList_toList]
  unfold join
  rw [if_neg hhead]
  split
  . next hend =>
    rw [Bool.or_eq_true, decide_eq_true_eq, decide_eq_true_eq] at hend
    rcases hend with hempty | hslash
    . refine ⟨[], ?_, .inr ?_⟩
      . unfold parts
        rw [hempty, String.empty_append, hname, List.nil_append]
      . unfold parts
        rw [hempty]
        rfl
    . obtain ⟨front, hfront⟩ := List.getLast?_eq_some_iff.1 hslash
      refine ⟨(splitSlashes front).map String.ofList, ?_, .inr ?_⟩
      . unfold parts
        rw [String.toList_append, hfront, List.append_assoc, List.singleton_append,
          splitSlashes_append_slash, List.map_append, hname]
      . unfold parts
        rw [hfront, splitSlashes_append_slash, List.map_append]
        rfl
  . refine ⟨directory.parts, ?_, .inl rfl⟩
    have hslash : "/".toList = ['/'] := rfl
    unfold parts
    rw [String.toList_append, String.toList_append, hslash, List.append_assoc,
      List.singleton_append, splitSlashes_append_slash, List.map_append, hname]

theorem isAbsolute_join (h : '/' ∉ name.toList) :
    (directory.join name).isAbsolute = directory.isAbsolute := by
  have hhead : ¬ name.toList.head? = some '/' := fun hslash => h (List.mem_of_mem_head? hslash)
  unfold isAbsolute join
  rw [if_neg hhead]
  cases htext : directory.text.toList with
  | nil =>
    have hempty : directory.text = "" := String.toList_eq_nil_iff.1 htext
    simpa [hempty] using hhead
  | cons c cs =>
    split
    . simp [htext]
    . simp [htext]

theorem splitExtension_subset (name : String) :
    (splitExtension name).1.toList ⊆ name.toList := by
  unfold splitExtension
  dsimp only
  split
  . exact List.Subset.refl _
  . rw [String.toList_ofList]
    intro c hc
    have hdrop := List.drop_subset _ _ (List.mem_reverse.1 hc)
    exact List.mem_reverse.1 hdrop

theorem componentOf?_eq_some {part : String} {component : PathComponent}
    (h : componentOf? part = some component) : component = .parent ∨ component = .name part := by
  unfold componentOf? at h
  split at h
  . cases h
  . split at h
    . cases h
      exact .inl rfl
    . cases h
      exact .inr rfl

theorem mem_parts_of_fileName? (h : path.fileName? = some name) : name ∈ path.parts := by
  have hlast : path.components.getLast? = some (.name name) := by
    unfold fileName? at h
    split at h
    . next heq =>
      cases h
      exact heq
    . cases h
  have hmem := List.mem_of_getLast? hlast
  unfold components at hmem
  rw [List.mem_append, List.mem_filterMap] at hmem
  rcases hmem with hstart | ⟨part, hpart, hname⟩
  . split at hstart
    . cases List.mem_singleton.1 hstart
    . split at hstart
      . cases List.mem_singleton.1 hstart
      . cases hstart
  . rcases componentOf?_eq_some hname with heq | heq
    . cases heq
    . cases heq
      exact hpart

theorem fileName?_of_parts {front : List String} (hparts : path.parts = front ++ [name])
    (hname : componentOf? name = some (.name name)) : path.fileName? = some name := by
  have hlast : path.components.getLast? = some (.name name) := by
    unfold components
    rw [hparts, List.filterMap_append, List.filterMap_cons_some hname, List.filterMap_nil,
      ← List.append_assoc, List.getLast?_concat]
  unfold fileName?
  rw [hlast]

theorem not_mem_of_mem_parts (h : name ∈ path.parts) : '/' ∉ name.toList := by
  obtain ⟨part, hpart, rfl⟩ := List.mem_map.1 h
  rw [String.toList_ofList]
  exact not_mem_of_mem_splitSlashes hpart

theorem not_mem_stem (h : path.fileName? = some name) : '/' ∉ path.stem.toList := by
  intro hslash
  unfold stem at hslash
  rw [h] at hslash
  exact not_mem_of_mem_parts (mem_parts_of_fileName? h) (splitExtension_subset name hslash)

theorem stem_eq_of_same {other : Path} (h : path.same other)
    (hpath : path.fileName?.isSome) : path.stem = other.stem := by
  unfold same at h
  rw [decide_eq_true_eq] at h
  have hnames : path.fileName? = other.fileName? := by
    unfold fileName?
    rw [h]
  obtain ⟨name, hname⟩ := Option.isSome_iff_exists.1 hpath
  unfold stem
  rw [← hnames, hname]
  rfl

end Names

end Path

end ComponentDoc
