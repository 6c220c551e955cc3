import ComponentDoc.Script.Lexeme
import ComponentDoc.Proofs.SyntaxTree

/-!
Names in the syntax tree of a script: the keys of entries, and entries that are only a name. In
the trees of a parser every name covers some of the source.
-/

namespace ComponentDoc

namespace Script

variable {source : List Char}

namespace Tree

/--
Whether a tree is the name of an entry of an object: its key, or an entry that is only a name.
-/
def IsName (t : Tree) : Prop :=
  t.hasRole .key = true ∨ t.kind? = some .shorthand

/--
Whether a tree covers some of the source.
-/
def Covers (source : List Char) (t : Tree) : Prop :=
  t.span.slice source ≠ []

/--
Whether all names of entries in a tree cover some of the source.
-/
def NamesCover (source : List Char) (t : Tree) : Prop :=
  ∀ u ∈ SyntaxTree.preorder t, IsName u → Covers source u

variable {t : Tree} {label : Label} {span : Span} {parts : List Tree} {role : Role}

theorem covers_of_lt (hlt : t.span.start < t.span.stop) (hlength : t.span.start < source.length) :
    t.Covers source := by
  apply List.ne_nil_of_length_pos
  unfold Span.slice
  rw [List.length_take, List.length_drop]
  omega

theorem namesCover_node (hname : IsName (.node label span parts) → span.slice source ≠ [])
    (hparts : ∀ part ∈ parts, NamesCover source part) :
    NamesCover source (.node label span parts) := by
  intro u hu
  rcases SyntaxTree.mem_preorder_node.1 hu with rfl | ⟨part, hpart, hu⟩
  . exact hname
  . exact hparts part hpart u hu

theorem NamesCover.part (h : NamesCover source (.node label span parts)) :
    ∀ part ∈ parts, NamesCover source part := by
  intro part hpart u hu
  exact h u (SyntaxTree.mem_preorder_node.2 (.inr ⟨part, hpart, hu⟩))

theorem NamesCover.covers (h : NamesCover source t) (hname : IsName t) : t.Covers source :=
  h t (SyntaxTree.self_mem_preorder t) hname

theorem NamesCover.asRole (h : NamesCover source t) (hcovers : role = .key → t.Covers source) :
    NamesCover source (t.withRole role) := by
  cases t with
  | node label span parts =>
    apply namesCover_node ?_ h.part
    rintro (hkey | hkind)
    . exact hcovers (by simpa [hasRole, SyntaxTree.label?] using hkey)
    . exact h.covers (.inr hkind)
  | error span parts => exact h
  | missing label position =>
    intro u hu
    rw [withRole, SyntaxTree.preorder, List.mem_singleton] at hu
    rw [hu]
    rintro (hkey | hkind)
    . exact hcovers (by simpa [hasRole, SyntaxTree.label?] using hkey)
    . exact h.covers (.inr hkind)

@[grind ←]
theorem NamesCover.asKey (h : NamesCover source t) (hcovers : t.Covers source) :
    NamesCover source (t.withRole .key) :=
  h.asRole fun _ => hcovers

@[grind ←]
theorem NamesCover.withRole (h : NamesCover source t) (hrole : role ≠ .key) :
    NamesCover source (t.withRole role) :=
  h.asRole fun hkey => absurd hkey hrole

end Tree

section Comments

variable {markup : Bool}

theorem kind_ne_of_commentAt? {cs : List Char} {kind : Kind} {n : Nat}
    (h : commentAt? markup cs = some (kind, n)) : kind ≠ .shorthand := by
  unfold commentAt? at h
  split at h
  . cases h
    decide
  . split at h
    . obtain ⟨_, _, h⟩ := Option.map_eq_some_iff.1 h
      cases h
      decide
    . cases h

theorem namesCover_commentsFrom {cs : List Char} {skip o : Nat} {t : Tree}
    (ht : t ∈ commentsFrom markup skip o cs) : t.NamesCover source := by
  induction cs generalizing skip o with
  | nil => cases ht
  | cons x cs ih =>
    unfold commentsFrom at ht
    split at ht
    . exact ih ht
    . split at ht
      . exact ih ht
      . split at ht
        . next kind n hcomment =>
          cases ht with
          | tail _ ht => exact ih ht
          | head _ =>
            apply Tree.namesCover_node ?_ (List.forall_mem_nil _)
            rintro (hkey | hkind)
            . cases hkey
            . cases hkind
              exact absurd rfl (kind_ne_of_commentAt? hcomment)
        . cases ht

end Comments

end Script

end ComponentDoc
