import ComponentDoc.Proofs.Script.Brackets

/-!
Reading a script whose default export is a printed literal gives back the literal, in every
dialect. The one character that a comment cannot hold beside its own end is the null character.
-/

namespace ComponentDoc.Script

open ComponentDoc.Script.Parser

variable {source : List Char} {o : Nat} {c d : Cursor} {r : Rules} {e : Literal}

/--
Rules that are deep enough read every literal back.
-/
theorem readsLiteral_rules (source : List Char) (dialect : Dialect) {depth : Nat} {e : Literal}
    (he : e.Valid) (hdepth : e.print.length < depth) :
    ReadsLiteral source (rules dialect depth) e := by
  -- The depth bounds the length of the text, so whatever is inside a literal has depth left.
  induction depth generalizing e with
  | zero => cases hdepth
  | succ depth ih =>
    intro context rest o c hrest hsource hc
    have hstarts := startsLiteral_print he hrest o
    have hprimary : ∃ t, (rules dialect depth).primary context c =
        .ok (t, ⟨rest, o + e.print.length⟩) ∧
          ShowsLiteral source t ⟨o, o + e.print.length⟩ e := by
      cases e with
      | object entries =>
        rw [Literal.Valid] at he
        apply Rules.primary_object ?_ hrest hsource hc
        intro entry hentry
        obtain ⟨hcomments, hkey, hvalue⟩ := he.of_mem entry hentry
        have hlength := length_value_lt hentry
        exact ⟨hcomments, hkey, hvalue, ih hvalue (by omega)⟩
      | array items =>
        rw [Literal.Valid] at he
        apply Rules.primary_array ?_ hrest hsource hc
        intro item hitem
        have hlength := length_item_lt hitem
        exact ⟨he.of_mem item hitem, ih (he.of_mem item hitem) (by omega)⟩
      | identifier name =>
        rw [Literal.Valid] at he
        exact Rules.primary_identifier he hrest hsource hc
      | string quote text =>
        rw [Literal.Valid] at he
        exact Rules.primary_string he.1 he.2 hsource hc
      | boolean value => exact Rules.primary_boolean hrest hc
    obtain ⟨t, hread, hshows⟩ := hprimary
    exact ⟨t, Rules.expressionRule_of_primary hc hstarts hread hrest, hshows⟩

theorem stops_nil : Stops [] := by
  intro x hx
  cases hx

theorem lexemeAt_space {rest : List Char} (h : LexemeAt ⟨rest, o + 1⟩ d) :
    LexemeAt ⟨' ' :: rest, o⟩ d := by
  intro markup
  rw [skipTrivia_blank rfl, h]

theorem lexemeAt_name {name : List Char} (hname : IsName name) (rest : List Char) (o : Nat) :
    LexemeAt ⟨name ++ rest, o⟩ ⟨name ++ rest, o⟩ := by
  obtain ⟨x, tail, rfl, hx⟩ := hname.exists_cons
  exact fun markup => skipTrivia_of_head (startsLexeme_of_isNameStart hx) markup _ o

namespace Rules

theorem typedDeclaration_eq {w : String} (hw : w ∉ leadingWords) (c : Cursor) :
    r.typedDeclaration w c = unexpected c := by
  obtain ⟨cs, o⟩ := c
  unfold typedDeclaration
  rw [atOperand_bind]
  refine run_congr (q := unexpected) ?_ rfl
  split
  all_goals first
    | rfl
    | exact absurd (by decide) hw

/--
No declaration starts where a literal does.
-/
theorem declaration_eq (hc : LexemeAt c d) (hd : StartsLiteral d) :
    r.declaration c = unexpected c := by
  have hword : ((word? d).map Prod.fst).getD "" ∉ leadingWords := by
    cases hfound : word? d with
    | none => decide
    | some found => exact hd.word _ _ hfound
  obtain ⟨next, hnext⟩ := exists_afterWord c
  unfold declaration
  rw [atOperand_bind, hc, if_neg]
  . dsimp only
    rw [bind_of_ok hnext]
    revert hword
    generalize ((word? d).map Prod.fst).getD "" = w
    intro hword
    obtain ⟨cs, o⟩ := c
    -- Every case but the last needs one of the leading words.
    refine run_congr (q := if r.dialect.hasTypes then r.typedDeclaration w else unexpected) ?_ ?_
    . split
      all_goals first
        | rfl
        | exact absurd (by decide) hword
    . split
      . exact typedDeclaration_eq hword _
      . rfl
  . obtain hp | hp | hp := hd.punctuator
    all_goals
      rw [hp]
      decide

theorem semicolon_nil (dialect : Dialect) (context : SemicolonContext) (o : Nat) :
    semicolon dialect context ⟨[], o⟩ = .ok (⟨⟩, ⟨[], o⟩) :=
  rfl

theorem exportDefault_print (he : e.Valid) (hread : ReadsLiteral source r e)
    (hsource : source.drop o = e.print) (hc : LexemeAt c ⟨e.print, o⟩) (start : Nat) :
    ∃ t, r.exportDefault start c =
        .ok (.node ⟨.exportDefault, .plain⟩ ⟨start, o + e.print.length⟩ [t.withRole .value],
          ⟨[], o + e.print.length⟩) ∧
      ShowsLiteral source t ⟨o, o + e.print.length⟩ e := by
  rw [← List.append_nil e.print] at hsource hc
  have hstarts := startsLiteral_print he stops_nil o
  obtain ⟨t, hvalue, hshows⟩ := hread { semicolon := true } [] o c stops_nil hsource hc
  refine ⟨t, ?_, hshows⟩
  unfold exportDefault
  have hexport : orElse r.declaration (do
      let v ← r.expression { semicolon := true }
      semicolon r.dialect {}
      return v) c = .ok (t, ⟨[], o + e.print.length⟩) := by
    apply orElse_of_error (declaration_eq hc hstarts)
    rw [bind_of_ok hvalue, bind_of_ok (semicolon_nil _ _ _)]
    rfl
  exact (bind_of_ok hexport).trans rfl

end Rules

theorem endsWord_space (rest : List Char) : EndsWord (' ' :: rest) := by
  intro x hx
  cases hx
  exact ⟨rfl, by decide⟩

theorem isName_export : IsName ['e', 'x', 'p', 'o', 'r', 't'] :=
  ⟨⟨_, rfl, rfl⟩, by decide⟩

theorem isName_default : IsName ['d', 'e', 'f', 'a', 'u', 'l', 't'] :=
  ⟨⟨_, rfl, rfl⟩, by decide⟩

theorem word?_printModule (e : Literal) :
    word? ⟨printModule e, 0⟩ =
      some ("export", ⟨' ' :: (['d', 'e', 'f', 'a', 'u', 'l', 't'] ++ ' ' :: e.print), 6⟩) :=
  isName_export.word?_eq (endsWord_space _) 0

theorem lexemeAt_printModule (e : Literal) :
    LexemeAt ⟨printModule e, 0⟩ ⟨printModule e, 0⟩ :=
  lexemeAt_name isName_export _ 0

namespace Rules

theorem exportStatement_printModule (he : e.Valid) (hread : ReadsLiteral (printModule e) r e)
    (start : Nat) :
    ∃ t, r.exportStatement start ⟨printModule e, 0⟩ =
        .ok (.node ⟨.exportDefault, .plain⟩ ⟨start, 15 + e.print.length⟩ [t.withRole .value],
          ⟨[], 15 + e.print.length⟩) ∧
      ShowsLiteral (printModule e) t ⟨15, 15 + e.print.length⟩ e := by
  have hexport : expectWord "export" ⟨printModule e, 0⟩ =
      .ok (⟨⟩, ⟨' ' :: (['d', 'e', 'f', 'a', 'u', 'l', 't'] ++ ' ' :: e.print), 6⟩) := by
    apply expectWord_of_eq
    rw [lexemeAt_printModule]
    exact word?_printModule e
  have hdefault : eatWord "default"
      ⟨' ' :: (['d', 'e', 'f', 'a', 'u', 'l', 't'] ++ ' ' :: e.print), 6⟩ =
        .ok (true, ⟨' ' :: e.print, 14⟩) := by
    apply eatWord_of_eq
    rw [lexemeAt_space (lexemeAt_name isName_default _ 7)]
    exact isName_default.word?_eq (endsWord_space _) 7
  have hsource : (printModule e).drop 15 = e.print := rfl
  have hstarts : LexemeAt ⟨e.print, 15⟩ ⟨e.print, 15⟩ := by
    have h := (startsLiteral_print he stops_nil 15).stays
    rw [List.append_nil] at h
    exact h
  obtain ⟨t, hvalue, hshows⟩ :=
    exportDefault_print he hread hsource (lexemeAt_space (o := 14) hstarts) start
  refine ⟨t, ?_, hshows⟩
  unfold exportStatement
  rw [bind_of_ok hexport, bind_of_ok hdefault, if_pos rfl, hvalue]

theorem wordStatement_export (c : Cursor) :
    r.wordStatement "export" c = r.exportStatement (skipTrivia true c).offset c := by
  obtain ⟨⟨next, word⟩, hnext⟩ := exists_afterWord c
  unfold wordStatement
  rw [atOperand_bind, bind_of_ok hnext]
  rfl

theorem statementRule_printModule (e : Literal) :
    r.statementRule ⟨printModule e, 0⟩ = r.exportStatement 0 ⟨printModule e, 0⟩ := by
  have hpunctuator : punctuator (printModule e) = "" := rfl
  unfold statementRule
  rw [atOperand_bind, lexemeAt_printModule, set_bind, hpunctuator, word?_printModule]
  exact (wordStatement_export _).trans (by rw [lexemeAt_printModule])

end Rules

/--
A script of one statement: the round behind it finds the end of the text.
-/
theorem statements_singleton {t : Tree} (hc : (skipTrivia true c).atEnd = false)
    (hread : r.statement c = .ok (t, ⟨[], o⟩)) : statements r c = .ok ([t], ⟨[], o⟩) := by
  unfold statements repeated
  rw [get_bind]
  refine Eq.trans (b := Parser.loop _ _ [t] ⟨[], o⟩) (loop_inl ?_) (loop_inr rfl)
  rw [atOperand_bind, hc, if_neg Bool.false_ne_true, bind_of_ok hread]
  rfl

theorem statements_printModule (he : e.Valid) {depth : Nat} (dialect : Dialect)
    (hread : ReadsLiteral (printModule e) (rules dialect depth) e) :
    ∃ trees d, statements (rules dialect (depth + 1)) ⟨printModule e, 0⟩ = .ok (trees, d) ∧
      ShowsModule (printModule e) trees e := by
  obtain ⟨t, hexport, hshows⟩ := Rules.exportStatement_printModule he hread 0
  have hlexeme : (skipTrivia true ⟨printModule e, 0⟩).atEnd = false := by
    rw [lexemeAt_printModule]
    rfl
  have hstatement := (Rules.statementRule_printModule e).trans hexport
  exact ⟨_, _, statements_singleton hlexeme hstatement, hshows.exported _⟩

theorem skipPrelude_printModule (e : Literal) :
    skipPrelude ⟨printModule e, 0⟩ = ⟨printModule e, 0⟩ := by
  have hmark : (⟨printModule e, 0⟩ : Cursor).peek? ≠ some (Char.ofNat 0xFEFF) := by
    change some 'e' ≠ _
    decide
  unfold skipPrelude
  dsimp only
  rw [if_neg hmark, lexemeAt_printModule]
  rfl

theorem parseStatements_printModule (he : e.Valid) (dialect : Dialect) :
    ∃ trees, parseStatements dialect (printModule e) = .ok trees ∧
      ShowsModule (printModule e) trees e := by
  have hprint : e.print.length ≤ (printModule e).length :=
    (List.suffix_append _ e.print).length_le
  obtain ⟨depth, hdepth, hlength⟩ : ∃ depth, 3 * ((printModule e).length + 1) = depth + 1 ∧
      e.print.length < depth := by
    generalize (printModule e).length = n at hprint
    exact ⟨3 * n + 2, rfl, by omega⟩
  obtain ⟨trees, d, hread, hshows⟩ :=
    statements_printModule he dialect (readsLiteral_rules (printModule e) dialect he hlength)
  refine ⟨trees, ?_, hshows⟩
  unfold parseStatements rulesFor Cursor.ofSource
  rw [hdepth, skipPrelude_printModule]
  exact run'_of_ok hread

theorem parseModule_of_showsModule {dialect : Dialect} {trees : List Tree}
    (hparse : parseStatements dialect source = .ok trees) (h : ShowsModule source trees e) :
    parseModule dialect (String.ofList source) = .ok (some e.toExpr) := by
  have hprogram : parseProgram dialect source =
      .node ⟨.program, .plain⟩ ⟨0, source.length⟩ trees := by
    unfold parseProgram
    rw [hparse]
  unfold parseModule
  rw [String.toList_ofList]
  dsimp only
  rw [hprogram, SyntaxTree.firstFault, h.sound]
  exact congrArg Except.ok h.lower_eq

/--
Reading a script undoes printing the literal that it exports, in every dialect.
-/
theorem parseModule_printModule (he : e.Valid) (dialect : Dialect) :
    parseModule dialect (String.ofList (printModule e)) = .ok (some e.toExpr) := by
  obtain ⟨trees, hparse, hshows⟩ := parseStatements_printModule he dialect
  exact parseModule_of_showsModule hparse hshows

/--
An object with comments and a quoted key that holds an array with an object in it.
-/
theorem parseModule_printModule_nested :
    parseModule .typeScript
        "export default \x7b//a\n/*c*/'d-e':[true,\"f\",\x7bg:h\x7d]\x7d" =
      .ok (some (.object [⟨"d-e",
        .array [.boolean true, .string "f", .object [⟨"g", .identifier "h", "h", []⟩]],
        "[true,\"f\",\x7bg:h\x7d]", [⟨"a", false⟩, ⟨"c", true⟩]⟩])) := by
  apply @parseModule_printModule (.object [⟨[⟨"a", false⟩, ⟨"c", true⟩], .quoted "d-e",
    .array [.boolean true, .string '"' "f", .object [⟨[], .bare "g", .identifier "h"⟩]]⟩])
  have ha : Comment.Valid ⟨"a", false⟩ := ⟨by decide, by decide, by decide, by decide⟩
  have hc : Comment.Valid ⟨"c", true⟩ := ⟨by decide, by decide, by decide, by decide⟩
  have hg : ValidName "g" := ⟨⟨_, rfl, rfl⟩, by decide, by decide⟩
  have hh : ValidName "h" := ⟨⟨_, rfl, rfl⟩, by decide, by decide⟩
  have hkey : ValidString "d-e" := by decide
  have hf : ValidString "f" := by decide
  simp [Literal.Valid, ValidEntries, ValidItems, Key.Valid, ha, hc, hg, hh, hkey, hf]

section Faults

variable {dialect : Dialect} {fault : Fault}

theorem exists_firstFault_tree (dialect : Dialect) (source : List Char) (fault : Fault) :
    ∃ offset, (fault.tree dialect source).firstFault = some offset := by
  cases fault with
  | missing kind offset => exact ⟨offset, rfl⟩
  | unexpected offset =>
    unfold Fault.tree
    dsimp only
    split
    . unfold Repair.fault
      split
      . exact ⟨_, rfl⟩
      . exact ⟨_, rfl⟩
    . exact ⟨_, rfl⟩

theorem parseModule_of_error (hparse : parseStatements dialect source = .error fault) :
    ∃ problem, parseModule dialect (String.ofList source) = .error problem := by
  obtain ⟨offset, hoffset⟩ := exists_firstFault_tree dialect source fault
  have hprogram : (parseProgram dialect source).firstFault = some offset := by
    unfold parseProgram
    rw [hparse, SyntaxTree.firstFault]
    dsimp only
    rw [SyntaxTree.firstFaultForest, hoffset]
  unfold parseModule
  rw [String.toList_ofList]
  dsimp only
  rw [hprogram]
  exact ⟨_, rfl⟩

end Faults

/--
A comment that holds a null character has no angle bracket and no end within it, but no script
reads past it.
-/
theorem parseModule_nullComment :
    (∀ c ∈ "\x00".toList, c ≠ '<' ∧ c ≠ '>') ∧ ¬ ['*', '/'] <:+: "\x00".toList ∧
      ValidName "a" ∧ ValidName "b" ∧
      parseModule .javaScript
          (String.ofList (printModule
            (.object [⟨[⟨"\x00", true⟩], .bare "a", .identifier "b"⟩]))) ≠
        .ok (some (Literal.toExpr (.object [⟨[⟨"\x00", true⟩], .bare "a", .identifier "b"⟩]))) := by
  refine ⟨by decide, by decide, ⟨⟨_, rfl, rfl⟩, by decide, by decide⟩,
    ⟨⟨_, rfl, rfl⟩, by decide, by decide⟩, ?_⟩
  have hparse : parseStatements .javaScript
      (printModule (.object [⟨[⟨"\x00", true⟩], .bare "a", .identifier "b"⟩])) =
        .error (.unexpected 16) := by
    rfl
  obtain ⟨problem, hproblem⟩ := parseModule_of_error hparse
  rw [hproblem]
  simp

end ComponentDoc.Script
