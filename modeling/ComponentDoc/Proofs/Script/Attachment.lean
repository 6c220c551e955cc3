import ComponentDoc.Script.Module
import Mathlib.Data.List.Induction

/-!
The entries of an object and the comments in front of them. A child that divides an object is an
entry, a spread, or a pair or a method that lacks a part; a comment belongs to the first such
child after it if that is an entry, and to nothing otherwise.
-/

namespace ComponentDoc.Script

def Entry.describedBy (entry : Entry Expr) (comments : List Comment) : Entry Expr :=
  { entry with comments }

/--
The comment that a child of an object is.
-/
def comment? (source : List Char) : Tree → Option Comment
  | .node label span _ =>
    if label.kind = .comment then some (Comment.ofSource (span.slice source)) else none
  | _ => none

/--
The entry that a child of an object declares, as yet without comments: a pair with a key and a
value, a method with a name, or an identifier that stands for an entry of the same name.
-/
def declared? (source : List Char) : Tree → Option (Entry Expr)
  | .node label span parts =>
    match label.kind with
    | .pair => do
      let key ← parts.find? fun part : Tree => part.hasRole .key
      let value ← parts.find? fun part : Tree => part.hasRole .value
      return ⟨keyText source key, lowerExpr source value, value.text source, []⟩
    | .methodDefinition => do
      let name ← parts.find? fun part : Tree => part.hasRole .key
      return ⟨keyText source name, .function (lowerFunction source parts), span.text source, []⟩
    | .shorthand => some ⟨span.text source, .identifier (span.text source), span.text source, []⟩
    | _ => none
  | _ => none

/--
Whether a child of an object ends the comments before it: a pair, a method, a shorthand or a
spread.
-/
def divides : Tree → Bool
  | .node label _ _ =>
    label.kind = .pair || label.kind = .methodDefinition || label.kind = .shorthand ||
      label.kind = .spreadElement
  | _ => false

/--
The comments behind the last child that divides, in source order.
-/
def leadingComments (source : List Char) (before : List Tree) : List Comment :=
  (before.reverse.takeWhile fun t => !divides t).reverse.filterMap (comment? source)

/--
Whether the first child that divides declares an entry.
-/
def entryFollows (source : List Char) (after : List Tree) : Bool :=
  ((after.find? divides).bind (declared? source)).isSome

/--
The comments in front of an entry, without those that are followed first by a spread, by a pair
or a method that lacks a part, or by the end of the object.
-/
def attachedComments (source : List Char) : List Tree → List Comment
  | [] => []
  | t :: ts =>
    (if entryFollows source ts then (comment? source t).toList else []) ++
      attachedComments source ts

variable {source : List Char} {t : Tree}

theorem lowerRole_eq_map (source : List Char) (role : Role) (parts : List Tree) :
    lowerRole source role parts =
      (parts.find? fun part : Tree => part.hasRole role).map (lowerExpr source) := by
  induction parts with
  | nil => rfl
  | cons part parts ih =>
    rw [lowerRole, ih, List.find?_cons]
    cases part.hasRole role with
    | true => rfl
    | false => rfl

theorem declared?_eq_none (h : divides t = false) : declared? source t = none := by
  cases t with
  | node label span parts =>
    rw [divides] at h
    rw [declared?]
    split
    all_goals simp_all
  | error => rfl
  | missing => rfl

theorem comment?_eq_none (h : divides t = true) : comment? source t = none := by
  cases t with
  | node label span parts =>
    rw [divides] at h
    rw [comment?, if_neg]
    intro hkind
    rw [hkind] at h
    cases h
  | error => rfl
  | missing => rfl

theorem lowerEntries_of_not_divides (h : divides t = false) (pending : List Comment)
    (ts : List Tree) :
    lowerEntries source pending (t :: ts) =
      lowerEntries source ((comment? source t).toList ++ pending) ts := by
  cases t with
  | node label span parts =>
    rw [divides] at h
    rw [lowerEntries, comment?]
    split
    . next hkind => rw [if_pos hkind]; rfl
    any_goals simp_all
  | error => simp only [lowerEntries, comment?, Option.toList_none, List.nil_append]
  | missing => simp only [lowerEntries, comment?, Option.toList_none, List.nil_append]

theorem lowerEntries_of_divides (h : divides t = true) (pending : List Comment)
    (ts : List Tree) :
    lowerEntries source pending (t :: ts) =
      ((declared? source t).map fun entry => entry.describedBy pending.reverse).toList ++
        lowerEntries source [] ts := by
  cases t with
  | node label span parts =>
    rw [divides] at h
    rw [lowerEntries, declared?]
    split
    . simp_all
    . next hkind =>
      rw [hkind, keyOf?, lowerRole_eq_map, valueTextOf?]
      cases parts.find? fun part : Tree => part.hasRole .key with
      | none => rfl
      | some key =>
        cases parts.find? fun part : Tree => part.hasRole .value with
        | none => rfl
        | some value => rfl
    . next hkind =>
      rw [hkind, keyOf?]
      cases parts.find? fun part : Tree => part.hasRole .key with
      | none => rfl
      | some name => rfl
    . next hkind => rw [hkind]; rfl
    . next hkind => rw [hkind]; rfl
    . simp_all
  | error => cases h
  | missing => cases h

theorem entryFollows_cons (source : List Char) (t : Tree) (ts : List Tree) :
    entryFollows source (t :: ts) =
      if divides t then (declared? source t).isSome else entryFollows source ts := by
  unfold entryFollows
  rw [List.find?_cons]
  cases divides t with
  | true => rfl
  | false => rfl

theorem leadingComments_append_singleton (source : List Char) (before : List Tree) (t : Tree) :
    leadingComments source (before ++ [t]) =
      if divides t then [] else leadingComments source before ++ (comment? source t).toList := by
  unfold leadingComments
  rw [List.reverse_append, List.reverse_singleton, List.singleton_append, List.takeWhile_cons]
  cases divides t with
  | true => rfl
  | false =>
    cases hcomment : comment? source t with
    | none => simp [hcomment]
    | some comment => simp [hcomment]

section Entries

variable {before after : List Tree} {entry : Entry Expr}

theorem comments_eq_nil_of_declared (h : declared? source t = some entry) :
    entry.comments = [] := by
  cases t with
  | node label span parts =>
    rw [declared?] at h
    split at h
    . obtain ⟨key, -, h⟩ := Option.bind_eq_some_iff.1 h
      obtain ⟨value, -, h⟩ := Option.bind_eq_some_iff.1 h
      cases h
      rfl
    . obtain ⟨name, -, h⟩ := Option.bind_eq_some_iff.1 h
      cases h
      rfl
    . cases h
      rfl
    . cases h
  | error => cases h
  | missing => cases h

theorem divides_of_declared (h : declared? source t = some entry) : divides t = true := by
  cases hdivides : divides t with
  | true => rfl
  | false =>
    rw [declared?_eq_none hdivides] at h
    cases h

theorem map_describedBy_lowerEntries (pending : List Comment) (ts : List Tree) :
    (lowerEntries source pending ts).map (fun entry => entry.describedBy []) =
      ts.filterMap (declared? source) := by
  induction ts generalizing pending with
  | nil => rfl
  | cons t ts ih =>
    cases h : divides t with
    | false =>
      rw [lowerEntries_of_not_divides h, ih, List.filterMap_cons_none (declared?_eq_none h)]
    | true =>
      rw [lowerEntries_of_divides h, List.map_append, ih]
      cases hdeclared : declared? source t with
      | none => rw [List.filterMap_cons_none hdeclared]; rfl
      | some entry =>
        have hbare : (entry.describedBy pending.reverse).describedBy [] = entry := by
          rw [Entry.describedBy, Entry.describedBy, ← comments_eq_nil_of_declared hdeclared]
        rw [List.filterMap_cons_some hdeclared]
        exact congrArg (· :: ts.filterMap (declared? source)) hbare

/--
What is pending after some children is the comments behind the last of them that divides.
-/
theorem lowerEntries_append (before after : List Tree) :
    lowerEntries source [] (before ++ after) =
      lowerEntries source [] before ++
        lowerEntries source (leadingComments source before).reverse after := by
  induction before using List.reverseRecOn generalizing after with
  | nil => rfl
  | append_singleton before t ih =>
    rw [List.append_assoc, ih, ih, List.singleton_append, leadingComments_append_singleton,
      List.append_assoc]
    congr 1
    cases h : divides t with
    | true =>
      rw [lowerEntries_of_divides h, lowerEntries_of_divides h, lowerEntries, List.append_nil]
      rfl
    | false =>
      rw [lowerEntries_of_not_divides h, lowerEntries_of_not_divides h, lowerEntries]
      cases comment? source t with
      | none => simp
      | some comment => simp

theorem lowerEntries_of_declared (h : declared? source t = some entry) :
    lowerEntries source [] (before ++ t :: after) =
      lowerEntries source [] before ++
        entry.describedBy (leadingComments source before) :: lowerEntries source [] after := by
  rw [lowerEntries_append, lowerEntries_of_divides (divides_of_declared h), h,
    List.reverse_reverse]
  rfl

/--
Of the comments ahead each goes to one entry or to none, and so do those that are pending.
-/
theorem flatMap_comments_lowerEntries (pending : List Comment) (ts : List Tree) :
    (lowerEntries source pending ts).flatMap Entry.comments =
      (if entryFollows source ts then pending.reverse else []) ++ attachedComments source ts := by
  induction ts generalizing pending with
  | nil => rfl
  | cons t ts ih =>
    rw [attachedComments, entryFollows_cons]
    cases h : divides t with
    | false =>
      -- What was pending stays pending, with the child behind it if that is a comment.
      rw [lowerEntries_of_not_divides h, ih, List.reverse_append]
      cases entryFollows source ts with
      | false => rfl
      | true => cases comment? source t <;> simp
    | true =>
      rw [lowerEntries_of_divides h, List.flatMap_append, ih, comment?_eq_none h]
      cases declared? source t with
      | none => simp
      | some entry => simp [Entry.describedBy]

end Entries

/--
An object has one entry for each child that declares one, in source order. In front of an entry
are the comments behind the last child that divides, so no comment crosses an entry or a spread
and none belongs to two entries; a comment belongs to none if no entry is the next child that
divides.
-/
theorem entries_of_object (source : List Char) (role : Role) (span : Span)
    (children : List Tree) :
    ∃ entries, lowerExpr source (.node ⟨.object, role⟩ span children) = .object entries ∧
      entries.map (fun entry => entry.describedBy []) = children.filterMap (declared? source) ∧
      (∀ before t after entry, children = before ++ t :: after → declared? source t = some entry →
        entries[(before.filterMap (declared? source)).length]? =
          some (entry.describedBy (leadingComments source before))) ∧
      entries.flatMap Entry.comments = attachedComments source children := by
  refine ⟨lowerEntries source [] children, by rw [lowerExpr], ?_, ?_, ?_⟩
  . exact map_describedBy_lowerEntries [] children
  . intro before t after entry hchildren hdeclared
    rw [hchildren, lowerEntries_of_declared hdeclared, ← map_describedBy_lowerEntries [] before,
      List.length_map, List.getElem?_append_right (Nat.le_refl _), Nat.sub_self]
    rfl
  . rw [flatMap_comments_lowerEntries]
    cases entryFollows source children with
    | false => rfl
    | true => rfl

def spreadSource : List Char :=
  "\x7b'x': v, /*a*/ ...s, /*b*/, //c\ny, /*d*/ m() \x7b\x7d\x7d".toList

/--
The children of the object in `spreadSource`.
-/
def spreadChildren : List Tree :=
  [.node ⟨.pair, .plain⟩ ⟨1, 7⟩
      [.node ⟨.string, .key⟩ ⟨1, 4⟩ [], .node ⟨.identifier, .value⟩ ⟨6, 7⟩ []],
    .node ⟨.punctuation, .plain⟩ ⟨7, 8⟩ [],
    .node ⟨.comment, .plain⟩ ⟨9, 14⟩ [],
    .node ⟨.spreadElement, .plain⟩ ⟨15, 19⟩ [.node ⟨.identifier, .plain⟩ ⟨18, 19⟩ []],
    .node ⟨.punctuation, .plain⟩ ⟨19, 20⟩ [],
    .node ⟨.comment, .plain⟩ ⟨21, 26⟩ [],
    .node ⟨.punctuation, .plain⟩ ⟨26, 27⟩ [],
    .node ⟨.comment, .plain⟩ ⟨28, 31⟩ [],
    .node ⟨.shorthand, .plain⟩ ⟨32, 33⟩ [],
    .node ⟨.punctuation, .plain⟩ ⟨33, 34⟩ [],
    .node ⟨.comment, .plain⟩ ⟨35, 40⟩ [],
    .node ⟨.methodDefinition, .plain⟩ ⟨41, 47⟩
      [.node ⟨.propertyName, .key⟩ ⟨41, 42⟩ [], .node ⟨.statementBlock, .body⟩ ⟨45, 47⟩ []]]

/--
A spread takes the comment in front of it, and a comma takes none. The key of the first entry stands
in quotes, and the last entry is a method.
-/
theorem entries_of_object_spread :
    ∃ entries, lowerExpr spreadSource (.node ⟨.object, .value⟩ ⟨0, 48⟩ spreadChildren) =
        .object entries ∧
      entries[0]? = some ⟨"x", .identifier "v", "v", []⟩ ∧
      entries[1]? = some ⟨"y", .identifier "y", "y", [⟨"b", true⟩, ⟨"c", false⟩]⟩ ∧
      entries[2]? = some ⟨"m", .function (.block []), "m() \x7b\x7d", [⟨"d", true⟩]⟩ ∧
      entries.flatMap Entry.comments = [⟨"b", true⟩, ⟨"c", false⟩, ⟨"d", true⟩] := by
  obtain ⟨entries, hlower, -, hentry, hcomments⟩ :=
    entries_of_object spreadSource .value ⟨0, 48⟩ spreadChildren
  refine ⟨entries, hlower, ?_, ?_, ?_, ?_⟩
  . have hdeclared : declared? spreadSource spreadChildren[0] =
        some ⟨"x", .identifier "v", "v", []⟩ := by
      have hkey : keyText spreadSource (.node ⟨.string, .key⟩ ⟨1, 4⟩ []) = "x" := by
        decide
      have hvalue : Span.text ⟨6, 7⟩ spreadSource = "v" := by
        decide
      rw [← hkey, ← hvalue]
      rfl
    exact hentry [] _ (spreadChildren.drop 1) _ rfl hdeclared
  . have hdeclared : declared? spreadSource spreadChildren[8] =
        some ⟨"y", .identifier "y", "y", []⟩ := by
      have hname : Span.text ⟨32, 33⟩ spreadSource = "y" := by
        decide
      rw [← hname]
      rfl
    have hleading : leadingComments spreadSource (spreadChildren.take 8) =
        [⟨"b", true⟩, ⟨"c", false⟩] := by
      decide
    have hy := hentry (spreadChildren.take 8) _ (spreadChildren.drop 9) _ rfl hdeclared
    rw [hleading] at hy
    exact hy
  . have hdeclared : declared? spreadSource spreadChildren[11] =
        some ⟨"m", .function (.block []), "m() \x7b\x7d", []⟩ := by
      have hname : keyText spreadSource (.node ⟨.propertyName, .key⟩ ⟨41, 42⟩ []) = "m" := by
        decide
      have htext : Span.text ⟨41, 47⟩ spreadSource = "m() \x7b\x7d" := by
        decide
      rw [← hname, ← htext]
      rfl
    have hleading : leadingComments spreadSource (spreadChildren.take 11) = [⟨"d", true⟩] := by
      decide
    have hm := hentry (spreadChildren.take 11) _ [] _ rfl hdeclared
    rw [hleading] at hm
    exact hm
  . rw [hcomments]
    decide

end ComponentDoc.Script
