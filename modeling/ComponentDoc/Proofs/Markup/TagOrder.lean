import ComponentDoc.Markup.Repair
import ComponentDoc.Markup.Template

/-!
The order of the tags of an element. In a document that was parsed no tag comes before the opening
tag of an element, whatever was left open or did not fit.
-/

namespace ComponentDoc.Markup

/--
Whether an element has its tags as the grammar has them: no tag comes before the opening one, and
there is no second opening tag.
-/
def Tree.OpensFirst (t : Tree) : Prop :=
  t.children.Pairwise fun earlier later =>
    (isOpeningTag earlier || isEndingTag earlier) = true → isOpeningTag later = false

instance (t : Tree) : Decidable (Tree.OpensFirst t) :=
  inferInstanceAs (Decidable (t.children.Pairwise _))

/--
Whether a node is no opening tag, and has its own opening tag first if it is an element.
-/
structure Tree.Regular (t : Tree) : Prop where
  not_opening : Tree.isOpeningTag t = false
  opensFirst : Tree.is t .element → Tree.OpensFirst t

section Parsing

variable {span : Span} {parts children : List Tree} {first tree t : Tree}

theorem regular_error : Tree.Regular (.error span parts) where
  not_opening := rfl
  opensFirst h := by cases h

theorem regular_node {kind : Kind} (hkind : kind ∉ [Kind.startTag, .selfClosingTag, .element]) :
    Tree.Regular (.node kind span parts) := by
  simp only [List.mem_cons, List.not_mem_nil, or_false, not_or] at hkind
  constructor
  . simp [Tree.isOpeningTag, Tree.is, SyntaxTree.label?, hkind.1, hkind.2.1]
  . intro helement
    cases hkind.2.2 (Option.some.inj (of_decide_eq_true helement))

theorem regular_element (h : ∀ part ∈ parts, Tree.isOpeningTag part = false) :
    Tree.Regular (.node .element span (first :: parts)) where
  not_opening := rfl
  opensFirst _ := by
    apply List.pairwise_cons.2
    constructor
    . intro part hpart _
      exact h part hpart
    . apply List.pairwise_of_forall_mem_list
      intro _ _ part hpart _
      exact h part hpart

theorem regular_closedElement (openTags : List TagName) (c : Cursor) :
    Tree.Regular (closedElement openTags c).1 := by
  unfold closedElement
  split
  . dsimp only
    split
    . unfold rawElement
      dsimp only
      split
      . apply regular_node
        split
        . decide
        . decide
      . apply regular_error
    . split
      . apply regular_error
      . apply regular_element
        intro part hpart
        cases hpart
  . split
    . apply regular_error
    . apply regular_error

theorem regular_doctype {c stop : Cursor} (h : doctype? c = some (tree, stop)) :
    tree.Regular := by
  unfold doctype? at h
  dsimp only at h
  split at h
  . split at h
    . cases h
    . cases h
      apply regular_node
      decide
  . cases h

theorem regular_closedNode (openTags : List TagName) (c : Cursor) :
    Tree.Regular (closedNode openTags c).1 := by
  unfold closedNode
  split
  . split
    . apply regular_node
      decide
    . cases hdoctype : doctype? c with
      | none => apply regular_error
      | some found => exact regular_doctype hdoctype
  . split
    . apply regular_node
      decide
    . apply regular_error
  . apply regular_closedElement
  . apply regular_error
  . split
    . apply regular_node
      decide
    . apply regular_error
  . apply regular_node
    decide

theorem regular_finishElement {openTags : List TagName} {c d : Cursor} {tag : StartTag}
    (h : ∀ part ∈ children, Tree.Regular part) :
    Tree.Regular (finishElement openTags c tag children d).1 := by
  have hopening : ∀ {ending : Tree}, Tree.isOpeningTag ending = false →
      ∀ part ∈ children ++ [ending], Tree.isOpeningTag part = false := by
    intro ending hending part hpart
    rcases List.mem_append.1 hpart with hpart | hpart
    . exact (h part hpart).not_opening
    . rw [List.mem_singleton.1 hpart]
      exact hending
  unfold finishElement
  dsimp only
  split
  . exact regular_element (hopening rfl)
  . exact regular_element fun part hpart => (h part hpart).not_opening
  . exact regular_element (hopening rfl)

theorem regular_content (fuel : Nat) (openTags : List TagName) (c : Cursor) :
    ∀ t ∈ (content fuel openTags c).1, Tree.Regular t := by
  induction fuel generalizing openTags c with
  | zero =>
    intro t ht
    cases ht
  | succ fuel ih =>
    rw [content]
    dsimp only
    split
    . intro t ht
      rcases List.mem_cons.1 ht with rfl | ht
      . split
        . apply regular_finishElement
          apply ih
        . apply regular_closedNode
      . exact ih _ _ t ht
    . intro t ht
      cases ht

theorem regular_repairLast {source : List Char} {before : List Tree} (h : t.Regular) :
    (repairLast source before t).Regular := by
  unfold repairLast
  extract_lets
  split
  . apply regular_error
  . exact h

/--
In a document that was parsed every element at top level has its opening tag first.
-/
theorem opensFirst_of_mem_parseDocument {source : List Char}
    (h : t ∈ (parseDocument source).children) (helement : Tree.is t .element) :
    Tree.OpensFirst t := by
  have hregular := regular_content (source.length + 1) []
  suffices t.Regular by exact this.opensFirst helement
  unfold parseDocument at h
  dsimp only [SyntaxTree.children] at h
  unfold repair at h
  split at h
  . cases h
  . next last before hnodes =>
    split at h
    . exact hregular _ t h
    . have hmem : ∀ u ∈ last :: before, u.Regular := by
        intro u hu
        rw [← hnodes] at hu
        exact hregular _ u (List.mem_reverse.1 hu)
      rcases List.mem_append.1 h with h | h
      . exact hmem t (List.mem_cons_of_mem _ (List.mem_reverse.1 h))
      . rw [List.mem_singleton.1 h]
        exact regular_repairLast (hmem last List.mem_cons_self)

end Parsing

end ComponentDoc.Markup
