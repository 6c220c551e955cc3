import ComponentDoc.Script.Module
import ComponentDoc.Proofs.Script.Lexeme

/-!
Syntax trees that show literals. A tree shows a literal if it covers the text of the literal,
has no fault, and is lowered to the expression that the literal stands for.
-/

namespace ComponentDoc.Script

variable {source : List Char} {t : Tree}

structure ShowsLiteral (source : List Char) (t : Tree) (span : Span) (e : Literal) : Prop where
  span_eq : t.span = span
  lower_eq : lowerExpr source t = e.toExpr
  sound : t.firstFault = none
  counts : t.isTrivial = false

/--
Whether trees are those of the items of an array.
-/
structure ShowsItems (source : List Char) (trees : List Tree) (items : List Literal) : Prop where
  lower_eq : lowerValues source trees = toItems items
  sound : SyntaxTree.firstFaultForest trees = none

/--
Whether trees are those between the braces of an object, comments and commas among them.
-/
structure ShowsEntries (source : List Char) (trees : List Tree)
    (entries : List (LiteralEntry Literal)) : Prop where
  lower_eq : lowerEntries source [] trees = toEntries entries
  sound : SyntaxTree.firstFaultForest trees = none

/--
Whether trees are those of an entry of an object, its comments in front of it.
-/
structure ShowsEntry (source : List Char) (trees : List Tree) (entry : LiteralEntry Literal) :
    Prop where
  lower_eq : ∀ more, lowerEntries source [] (trees ++ more) =
    ⟨entry.key.text, entry.value.toExpr, String.ofList entry.value.print, entry.comments⟩ ::
      lowerEntries source [] more
  sound : SyntaxTree.firstFaultForest trees = none

/--
Whether trees are the statements of a script whose default export is a literal.
-/
structure ShowsModule (source : List Char) (trees : List Tree) (e : Literal) : Prop where
  lower_eq : defaultExportOf source trees = some e.toExpr
  sound : SyntaxTree.firstFaultForest trees = none

structure ShowsKey (source : List Char) (t : Tree) (key : Key) : Prop where
  text_eq : keyText source t = key.text
  sound : t.firstFault = none

section Leaves

variable {span : Span} {quote : Char} {text : String}

theorem unquote_slice (hquote : quote = '"' ∨ quote = '\'')
    (h : span.slice source = printString quote text) :
    String.ofList (unquote (span.slice source)) = text := by
  have hunquote : unquote (printString quote text) = text.toList := by
    obtain rfl | rfl := hquote
    . simp [unquote, printString]
    . simp [unquote, printString]
  rw [h, hunquote, String.ofList_toList]

theorem showsKey_bare {name : String} (h : span.text source = name) :
    ShowsKey source (.node ⟨.propertyName, .plain⟩ span []) (.bare name) :=
  ⟨h, rfl⟩

theorem showsKey_quoted (h : span.slice source = printString '\'' text) :
    ShowsKey source (.node ⟨.string, .plain⟩ span []) (.quoted text) :=
  ⟨unquote_slice (Or.inr rfl) h, rfl⟩

theorem showsLiteral_identifier {name : String} (h : span.text source = name) :
    ShowsLiteral source (.node ⟨.identifier, .plain⟩ span []) span (.identifier name) := by
  refine ⟨rfl, ?_, rfl, rfl⟩
  rw [lowerExpr, Literal.toExpr]
  dsimp only
  rw [h]

theorem showsLiteral_string (hquote : quote = '"' ∨ quote = '\'')
    (h : span.slice source = printString quote text) :
    ShowsLiteral source (.node ⟨.string, .plain⟩ span []) span (.string quote text) := by
  refine ⟨rfl, ?_, rfl, rfl⟩
  rw [lowerExpr, Literal.toExpr]
  dsimp only
  rw [unquote_slice hquote h]

theorem showsLiteral_boolean (value : Bool) (span : Span) :
    ShowsLiteral source
      (.node ⟨if value then .trueLiteral else .falseLiteral, .plain⟩ span []) span
      (.boolean value) := by
  cases value with
  | false => exact ⟨rfl, rfl, rfl, rfl⟩
  | true => exact ⟨rfl, rfl, rfl, rfl⟩

end Leaves

section Items

theorem showsItems_nil : ShowsItems source [] [] :=
  ⟨rfl, rfl⟩

theorem ShowsItems.cons {span : Span} {e : Literal} {trees : List Tree} {items : List Literal}
    (ht : ShowsLiteral source t span e) (htrees : ShowsItems source trees items) :
    ShowsItems source (t :: trees) (e :: items) := by
  constructor
  . rw [lowerValues, ht.counts, if_neg Bool.false_ne_true, ht.lower_eq, htrees.lower_eq, toItems]
  . exact SyntaxTree.firstFaultForest_cons ht.sound htrees.sound

end Items

section Roles

variable {role : Role}

theorem span_withRole (t : Tree) : (t.withRole role).span = t.span := by
  cases t with
  | node label span parts => rfl
  | error span parts => rfl
  | missing label position => rfl

theorem firstFault_withRole (t : Tree) : (t.withRole role).firstFault = t.firstFault := by
  cases t with
  | node label span parts => rw [Tree.withRole, SyntaxTree.firstFault, SyntaxTree.firstFault]
  | error span parts => rfl
  | missing label position => rfl

theorem lowerExpr_withRole (t : Tree) :
    lowerExpr source (t.withRole role) = lowerExpr source t := by
  cases t with
  | node label span parts => rw [Tree.withRole, lowerExpr, lowerExpr]
  | error span parts => rfl
  | missing label position => rfl

theorem keyText_withRole (t : Tree) : keyText source (t.withRole role) = keyText source t := by
  cases t with
  | node label span parts => rfl
  | error span parts => rfl
  | missing label position => rfl

theorem hasRole_withRole (ht : t.firstFault = none) (other : Role) :
    (t.withRole role).hasRole other = decide (role = other) := by
  cases t with
  | node label span parts =>
    simp [Tree.withRole, Tree.hasRole, SyntaxTree.label?]
  | error span parts => cases ht
  | missing label position => cases ht

end Roles

section Entries

variable {trees : List Tree} {comments : List Comment}

theorem Comment.ofSource_core (comment : Comment) : Comment.ofSource comment.core = comment := by
  obtain ⟨text, block⟩ := comment
  cases block with
  | true =>
    have hsuffix : ['*', '/'].isSuffixOf (text.toList ++ ['*', '/']) = true := by
      rw [List.isSuffixOf_iff_suffix]
      exact List.suffix_append _ _
    simp [Comment.core, Comment.ofSource, hsuffix]
  | false => simp [Comment.core, Comment.ofSource]

theorem ShowsComments.lowerEntries_eq (h : ShowsComments source trees comments)
    (pending : List Comment) (more : List Tree) :
    lowerEntries source pending (trees ++ more) =
      lowerEntries source (comments.reverse ++ pending) more := by
  induction h generalizing pending with
  | nil => rfl
  | cons hslice _ ih =>
    rw [List.cons_append, lowerEntries]
    dsimp only
    rw [hslice, Comment.ofSource_core, ih, List.reverse_cons, List.append_assoc]
    rfl

theorem ShowsComments.sound (h : ShowsComments source trees comments) :
    SyntaxTree.firstFaultForest trees = none := by
  induction h with
  | nil => rfl
  | cons _ _ ih => exact ih

theorem showsEntry_pair {name value : Tree} {key : Key} {e : Literal} {o : Nat}
    {rest : List Char} (hcomments : ShowsComments source trees comments)
    (hkey : ShowsKey source name key)
    (hvalue : ShowsLiteral source value ⟨o, o + e.print.length⟩ e)
    (hsource : source.drop o = e.print ++ rest) (span : Span) :
    ShowsEntry source
      (trees ++ [.node ⟨.pair, .plain⟩ span [name.withRole .key, value.withRole .value]])
      ⟨comments, key, e⟩ := by
  have hkeyOf : keyOf? source [name.withRole .key, value.withRole .value] = some key.text := by
    simp [keyOf?, hasRole_withRole hkey.sound, keyText_withRole, hkey.text_eq]
  have hrole : lowerRole source .value [name.withRole .key, value.withRole .value] =
      some e.toExpr := by
    simp [lowerRole, hasRole_withRole hkey.sound, hasRole_withRole hvalue.sound,
      lowerExpr_withRole, hvalue.lower_eq]
  have htext : valueTextOf? source [name.withRole .key, value.withRole .value] =
      some (String.ofList e.print) := by
    simp [valueTextOf?, hasRole_withRole hkey.sound, hasRole_withRole hvalue.sound,
      SyntaxTree.text, span_withRole, hvalue.span_eq, Span.text, Span.slice_of_drop hsource]
  constructor
  . intro more
    rw [List.append_assoc, hcomments.lowerEntries_eq, List.append_nil, List.singleton_append,
      lowerEntries]
    dsimp only
    rw [hkeyOf, hrole, htext]
    dsimp only
    rw [List.reverse_reverse, Option.getD_some]
  . rw [SyntaxTree.firstFaultForest_append, hcomments.sound, Option.none_or]
    apply SyntaxTree.firstFaultForest_cons ?_ rfl
    rw [SyntaxTree.firstFault]
    apply SyntaxTree.firstFaultForest_cons
    . rw [firstFault_withRole, hkey.sound]
    . apply SyntaxTree.firstFaultForest_cons ?_ rfl
      rw [firstFault_withRole, hvalue.sound]

theorem showsEntries_nil : ShowsEntries source [] [] :=
  ⟨rfl, rfl⟩

theorem ShowsEntries.cons {more : List Tree} {entry : LiteralEntry Literal}
    {entries : List (LiteralEntry Literal)} (htrees : ShowsEntry source trees entry)
    (hmore : ShowsEntries source more entries) :
    ShowsEntries source (trees ++ more) (entry :: entries) := by
  constructor
  . rw [htrees.lower_eq, hmore.lower_eq, toEntries]
  . rw [SyntaxTree.firstFaultForest_append, htrees.sound, hmore.sound]
    rfl

theorem ShowsEntries.comma {entries : List (LiteralEntry Literal)}
    (htrees : ShowsEntries source trees entries) (span : Span) :
    ShowsEntries source (.node ⟨.punctuation, .plain⟩ span [] :: trees) entries :=
  ⟨htrees.lower_eq, htrees.sound⟩

end Entries

section Brackets

variable {trees : List Tree} {span : Span}

theorem ShowsItems.array {items : List Literal} (h : ShowsItems source trees items) :
    ShowsLiteral source (.node ⟨.array, .plain⟩ span trees) span (.array items) := by
  refine ⟨rfl, ?_, ?_, rfl⟩
  . rw [lowerExpr, Literal.toExpr]
    dsimp only
    rw [h.lower_eq]
  . rw [SyntaxTree.firstFault, h.sound]

theorem ShowsEntries.object {entries : List (LiteralEntry Literal)}
    (h : ShowsEntries source trees entries) :
    ShowsLiteral source (.node ⟨.object, .plain⟩ span trees) span (.object entries) := by
  refine ⟨rfl, ?_, ?_, rfl⟩
  . rw [lowerExpr, Literal.toExpr]
    dsimp only
    rw [h.lower_eq]
  . rw [SyntaxTree.firstFault, h.sound]

theorem ShowsLiteral.exported {e : Literal} (h : ShowsLiteral source t span e) (whole : Span) :
    ShowsModule source [.node ⟨.exportDefault, .plain⟩ whole [t.withRole .value]] e := by
  have hrole : (t.withRole .value).hasRole .value = true := by
    rw [hasRole_withRole h.sound]
    decide
  constructor
  . change lowerRole source .value [t.withRole .value] = _
    rw [lowerRole, if_pos hrole, lowerExpr_withRole, h.lower_eq]
  . apply SyntaxTree.firstFaultForest_cons ?_ rfl
    rw [SyntaxTree.firstFault]
    apply SyntaxTree.firstFaultForest_cons ?_ rfl
    rw [firstFault_withRole, h.sound]

end Brackets

end ComponentDoc.Script
