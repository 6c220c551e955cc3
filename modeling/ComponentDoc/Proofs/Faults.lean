import Mathlib.Data.List.Induction
import ComponentDoc.Markup.Template
import ComponentDoc.Script.Module
import ComponentDoc.Proofs.Pass
import ComponentDoc.Proofs.SyntaxTree

/-!
Where the first fault of a syntax tree is. Parsers mark the nodes that are faults or have one below
them, so the first fault in document order is found by following the marks. A script with a fault is
refused, and a template with a fault is read to its end with one problem noted; both times the
problem stands at the first fault.
-/

namespace ComponentDoc

namespace Position

variable (source : List Char) (offset : Nat)

/--
The number of lines that end before an offset.
-/
def linesBefore (source : List Char) (offset : Nat) : Nat :=
  (source.take offset).count '\n'

/--
The number of bytes between the start of a line and an offset in it.
-/
def bytesInLine (source : List Char) (offset : Nat) : Nat :=
  ((source.take offset).reverse.takeWhile (· != '\n')).foldr (fun c bytes => bytes + c.utf8Size) 0

theorem foldl_advance (cs : List Char) :
    cs.foldl advance ⟨1, 1⟩ =
      ⟨cs.count '\n' + 1,
        (cs.reverse.takeWhile (· != '\n')).foldr (fun c bytes => bytes + c.utf8Size) 0 + 1⟩ := by
  induction cs using List.reverseRecOn with
  | nil => rfl
  | append_singleton cs c ih =>
    rw [List.foldl_append, List.foldl_cons, List.foldl_nil, ih, List.reverse_concat,
      List.count_append, List.takeWhile_cons]
    unfold advance
    by_cases hc : c = '\n'
    . simp [hc]
    . simp [hc]
      omega

theorem of_eq : of source offset = ⟨linesBefore source offset + 1, bytesInLine source offset + 1⟩ := by
  apply foldl_advance

end Position

namespace SyntaxTree

variable {κ : Type}

/--
Whether a tree is a fault or has one below it.
-/
def HasFault (t : SyntaxTree κ) : Prop :=
  ∃ u ∈ t.preorder, u.isFault = true

/--
Whether the nodes of a tree that are marked are those that are faults or have one below them.
-/
def MarksFaults (marked : SyntaxTree κ → Bool) (t : SyntaxTree κ) : Prop :=
  ∀ u ∈ t.preorder, marked u = true ↔ u.HasFault

mutual

/--
The search for the first fault that follows marks: what is not marked is passed over, and a marked
node in whose children no fault is found stands for its own fault, at its `fallback`.
-/
def markedFault (marked : SyntaxTree κ → Bool) (fallback : SyntaxTree κ → Nat) :
    SyntaxTree κ → Option Nat
  | .node label span children =>
    if marked (.node label span children) then
      (markedFaultForest marked fallback children).or
        (some (fallback (.node label span children)))
    else none
  | .error span children => if marked (.error span children) then some span.start else none
  | .missing label position => if marked (.missing label position) then some position else none

def markedFaultForest (marked : SyntaxTree κ → Bool) (fallback : SyntaxTree κ → Nat) :
    List (SyntaxTree κ) → Option Nat
  | [] => none
  | t :: ts => (markedFault marked fallback t).or (markedFaultForest marked fallback ts)

end

section FirstFault

mutual

theorem firstFault_eq_find? (t : SyntaxTree κ) :
    t.firstFault = (t.preorder.find? isFault).map fun u => u.span.start := by
  cases t with
  | node label span children =>
    rw [firstFault, preorder, List.find?_cons_of_neg (by simp [isFault])]
    exact firstFaultForest_eq_find? children
  | error span children =>
    rw [firstFault, preorder, List.find?_cons_of_pos rfl]
    rfl
  | missing label position =>
    rw [firstFault, preorder, List.find?_cons_of_pos rfl]
    rfl

theorem firstFaultForest_eq_find? (ts : List (SyntaxTree κ)) :
    firstFaultForest ts = ((preorderForest ts).find? isFault).map fun u => u.span.start := by
  cases ts with
  | nil => rw [firstFaultForest, preorderForest, List.find?_nil, Option.map_none]
  | cons t ts =>
    rw [firstFaultForest, preorderForest, List.find?_append, Option.map_or,
      ← firstFault_eq_find? t, ← firstFaultForest_eq_find? ts]
    cases t.firstFault with
    | none => rfl
    | some offset => rfl

end

theorem isSome_firstFault {t : SyntaxTree κ} : t.firstFault.isSome ↔ t.HasFault := by
  rw [firstFault_eq_find?, Option.isSome_map, List.find?_isSome]
  rfl

theorem firstFault_eq_none {t : SyntaxTree κ} : t.firstFault = none ↔ ¬ t.HasFault := by
  rw [← isSome_firstFault, Option.not_isSome_iff_eq_none]

variable {label : κ} {span : Span} {children ts : List (SyntaxTree κ)} {t : SyntaxTree κ}
  {marked : SyntaxTree κ → Bool}

theorem hasFault_node : (node label span children).HasFault ↔ ∃ t ∈ children, t.HasFault := by
  constructor
  . rintro ⟨u, hu, hfault⟩
    rcases mem_preorder_node.1 hu with rfl | ⟨t, ht, hu⟩
    . cases hfault
    . exact ⟨t, ht, u, hu, hfault⟩
  . rintro ⟨t, ht, u, hu, hfault⟩
    exact ⟨u, mem_preorder_node.2 (.inr ⟨t, ht, hu⟩), hfault⟩

theorem isSome_firstFaultForest : (firstFaultForest ts).isSome ↔ ∃ t ∈ ts, t.HasFault := by
  rw [firstFaultForest_eq_find?, Option.isSome_map, List.find?_isSome]
  constructor
  . rintro ⟨u, hu, hfault⟩
    obtain ⟨t, ht, hu⟩ := mem_preorderForest.1 hu
    exact ⟨t, ht, u, hu, hfault⟩
  . rintro ⟨t, ht, u, hu, hfault⟩
    exact ⟨u, mem_preorderForest.2 ⟨t, ht, hu⟩, hfault⟩

theorem MarksFaults.self (h : MarksFaults marked t) : marked t = true ↔ t.HasFault :=
  h t (self_mem_preorder t)

theorem MarksFaults.child (h : MarksFaults marked (node label span children)) (ht : t ∈ children) :
    MarksFaults marked t := by
  intro u hu
  exact h u (mem_preorder_node.2 (.inr ⟨t, ht, hu⟩))

mutual

/--
Following the marks finds the first fault, and it never comes to a fallback.
-/
theorem markedFault_eq_firstFault (fallback : SyntaxTree κ → Nat) (t : SyntaxTree κ)
    (h : MarksFaults marked t) : markedFault marked fallback t = t.firstFault := by
  cases t with
  | node label span children =>
    have hchildren := markedFaultForest_eq_firstFaultForest fallback children fun t ht => h.child ht
    rw [markedFault, firstFault, hchildren]
    split
    . next hmarked =>
      have hfault := isSome_firstFaultForest.2 (hasFault_node.1 (h.self.1 hmarked))
      obtain ⟨offset, hoffset⟩ := Option.isSome_iff_exists.1 hfault
      rw [hoffset, Option.some_or]
    . next hmarked =>
      symm
      rw [← Option.not_isSome_iff_eq_none, isSome_firstFaultForest,
        ← @hasFault_node κ label span children, ← h.self]
      exact hmarked
  | error span children =>
    rw [markedFault, if_pos (h.self.2 ⟨_, self_mem_preorder _, rfl⟩), firstFault]
  | missing label position =>
    rw [markedFault, if_pos (h.self.2 ⟨_, self_mem_preorder _, rfl⟩), firstFault]

theorem markedFaultForest_eq_firstFaultForest (fallback : SyntaxTree κ → Nat)
    (ts : List (SyntaxTree κ)) (h : ∀ t ∈ ts, MarksFaults marked t) :
    markedFaultForest marked fallback ts = firstFaultForest ts := by
  cases ts with
  | nil => rw [markedFaultForest, firstFaultForest]
  | cons t ts =>
    rw [markedFaultForest, firstFaultForest,
      markedFault_eq_firstFault fallback t (h t List.mem_cons_self),
      markedFaultForest_eq_firstFaultForest fallback ts
        fun u hu => h u (List.mem_cons_of_mem t hu)]
    cases t.firstFault with
    | none => rfl
    | some offset => rfl

end

end FirstFault

/--
The problem that stands at the first fault of a tree, with lines and bytes counted from one.
-/
def faultProblem? (inSection : Section) (source : List Char) (t : SyntaxTree κ) : Option Problem :=
  (t.preorder.find? isFault).map fun u =>
    .parse inSection (Position.linesBefore source u.span.start + 1)
      (Position.bytesInLine source u.span.start + 1)

theorem isSome_faultProblem? {inSection : Section} {source : List Char} {t : SyntaxTree κ} :
    (faultProblem? inSection source t).isSome ↔ t.HasFault := by
  unfold faultProblem?
  rw [Option.isSome_map, List.find?_isSome]
  rfl

theorem faultProblem?_eq (inSection : Section) (source : List Char) (t : SyntaxTree κ) :
    faultProblem? inSection source t = t.firstFault.map fun offset =>
      .parse inSection (Position.of source offset).line (Position.of source offset).column := by
  rw [firstFault_eq_find?, Option.map_map]
  unfold faultProblem?
  congr 1
  funext u
  rw [Function.comp_apply, Position.of_eq]

end SyntaxTree

open SyntaxTree

theorem Script.parseModule_eq (dialect : Script.Dialect) (text : String) :
    Script.parseModule dialect text =
      match faultProblem? .script text.toList (Script.parseProgram dialect text.toList) with
      | some problem => .error problem
      | none => .ok (Script.defaultExportOf text.toList
          (Script.parseProgram dialect text.toList).children) := by
  unfold Script.parseModule
  dsimp only
  rw [faultProblem?_eq]
  cases (Script.parseProgram dialect text.toList).firstFault with
  | none => rfl
  | some offset => rfl

theorem Markup.exec_parseTemplate (text : String) (options : Options) (log : List Problem) :
    (Markup.parseTemplate text).exec options log =
      (.ok (Markup.lowerForest text.toList (Markup.parseDocument text.toList).children),
        log ++ (faultProblem? .template text.toList
          (Markup.parseDocument text.toList)).toList) := by
  unfold Markup.parseTemplate
  dsimp only
  rw [faultProblem?_eq]
  cases (Markup.parseDocument text.toList).firstFault with
  | none =>
    rw [Option.map_none, Option.toList_none, List.append_nil]
    rfl
  | some offset => rfl

/--
Following marks that are set exactly on the nodes with faults finds the first fault in document
order, if there is one, and never falls back on another node. A script is refused exactly if its
tree has a fault. A template is never refused: all of its tree is lowered, strict or not, and one
problem is noted if the tree has a fault and none if it has not.
-/
theorem first_fault_decides :
    (∀ {κ : Type} (t : SyntaxTree κ) (marked : SyntaxTree κ → Bool) (fallback : SyntaxTree κ → Nat),
      MarksFaults marked t →
        markedFault marked fallback t = t.firstFault ∧
        (t.firstFault = none ↔ ¬ t.HasFault) ∧
        t.firstFault = (t.preorder.find? isFault).map fun u => u.span.start) ∧
    (∀ (dialect : Script.Dialect) (text : String),
      let tree := Script.parseProgram dialect text.toList
      ((∃ problem, Script.parseModule dialect text = .error problem) ↔ tree.HasFault) ∧
      Script.parseModule dialect text =
        match faultProblem? .script text.toList tree with
        | some problem => .error problem
        | none => .ok (Script.defaultExportOf text.toList tree.children)) ∧
    ∀ (text : String) (options : Options) (log : List Problem),
      let tree := Markup.parseDocument text.toList
      ((faultProblem? .template text.toList tree).isSome ↔ tree.HasFault) ∧
      (Markup.parseTemplate text).exec options log =
        (.ok (Markup.lowerForest text.toList tree.children),
          log ++ (faultProblem? .template text.toList tree).toList) := by
  refine ⟨?_, ?_, ?_⟩
  . intro κ t marked fallback h
    exact ⟨markedFault_eq_firstFault fallback t h, firstFault_eq_none, firstFault_eq_find? t⟩
  . intro dialect text
    refine ⟨?_, Script.parseModule_eq dialect text⟩
    rw [Script.parseModule_eq, ← isSome_faultProblem?]
    cases faultProblem? .script text.toList (Script.parseProgram dialect text.toList) with
    | none => simp
    | some problem => simp
  . intro text options log
    exact ⟨isSome_faultProblem?, Markup.exec_parseTemplate text options log⟩

/--
An empty place where something is missing, between a text that reaches further and an error.
-/
theorem first_fault_decides_missing :
    ∃ (t : SyntaxTree Markup.Kind) (marked : SyntaxTree Markup.Kind → Bool),
      MarksFaults marked t ∧ ∀ fallback, markedFault marked fallback t = some 5 := by
  let t : SyntaxTree Markup.Kind := .node .document ⟨0, 9⟩
    [.node .text ⟨0, 4⟩ [],
      .node .element ⟨4, 9⟩ [.node .text ⟨5, 9⟩ [], .missing .tagEnd 5, .error ⟨9, 9⟩ []]]
  have hmarks : MarksFaults (fun u => u.preorder.any isFault) t := by
    intro u _
    exact List.any_eq_true
  refine ⟨t, fun u => u.preorder.any isFault, hmarks, ?_⟩
  intro fallback
  exact (first_fault_decides.1 t _ fallback hmarks).1.trans rfl

end ComponentDoc
