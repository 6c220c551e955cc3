import ComponentDoc.Proofs.Cursor
import ComponentDoc.Proofs.Script.Print
import ComponentDoc.Proofs.SyntaxTree
import ComponentDoc.Proofs.Text.Ascii

/-!
Reading printed lexemes. A name ends in front of a character that no word holds, a string and a
comment end where they were printed to end, and nothing is passed over in front of a character that
starts a lexeme.
-/

namespace ComponentDoc.Script

variable {rest : List Char} {x : Char} {o : Nat} {markup : Bool}

/--
Whether a character is neither blank nor the start of a comment.
-/
def startsLexeme (x : Char) : Bool :=
  !(isBlank x || x = '/' || x = '<' || x = '-')

theorem commentAt?_of_head (hx : startsLexeme x = true) (markup : Bool) (rest : List Char) :
    commentAt? markup (x :: rest) = none := by
  simp only [startsLexeme, Bool.not_eq_true', Bool.or_eq_false_iff, decide_eq_false_iff_not] at hx
  obtain ⟨⟨⟨_, hslash⟩, hangle⟩, hdash⟩ := hx
  have hcomment : commentLength? (x :: rest) = none := by
    unfold commentLength?
    split
    . next heq =>
      cases heq
      exact absurd rfl hslash
    . next heq =>
      cases heq
      exact absurd rfl hslash
    . rfl
  have hmarkup : markupCommentLength? (x :: rest) = none := by
    simp [markupCommentLength?, List.isPrefixOf, Ne.symm hangle, Ne.symm hdash]
  unfold commentAt?
  rw [hcomment, hmarkup]
  cases markup with
  | false => rfl
  | true => rfl

theorem isBlank_of_startsLexeme (hx : startsLexeme x = true) : isBlank x = false := by
  simp only [startsLexeme, Bool.not_eq_true', Bool.or_eq_false_iff] at hx
  exact hx.1.1.1

theorem skipTrivia_of_head (hx : startsLexeme x = true) (markup : Bool) (rest : List Char)
    (o : Nat) : skipTrivia markup ⟨x :: rest, o⟩ = ⟨x :: rest, o⟩ := by
  simp [skipTrivia, skipTriviaFrom, isBlank_of_startsLexeme hx, commentAt?_of_head hx]

theorem trivia_of_head (hx : startsLexeme x = true) (markup : Bool) (rest : List Char) (o : Nat) :
    trivia markup ⟨x :: rest, o⟩ = ([], ⟨x :: rest, o⟩) := by
  simp [trivia, skipTrivia_of_head hx, commentsFrom, isBlank_of_startsLexeme hx,
    commentAt?_of_head hx]

theorem skipTrivia_blank (hx : isBlank x = true) (markup : Bool) (rest : List Char) (o : Nat) :
    skipTrivia markup ⟨x :: rest, o⟩ = skipTrivia markup ⟨rest, o + 1⟩ := by
  simp [skipTrivia, skipTriviaFrom, hx]

theorem skipTriviaFrom_idem {markup : Bool} {skip : Nat} {cs : List Char} {c : Cursor}
    (h : skipTriviaFrom markup skip o cs = c) : skipTrivia markup c = c := by
  induction cs generalizing skip o with
  | nil =>
    cases h
    rfl
  | cons x cs ih =>
    unfold skipTriviaFrom at h
    split at h
    . exact ih h
    . split at h
      . exact ih h
      . next hblank =>
        split at h
        . exact ih h
        . next hcomment =>
          subst h
          simp [skipTrivia, skipTriviaFrom, hblank, hcomment]

section Comments

theorem skipTriviaFrom_append (front rest : List Char) (o : Nat) :
    skipTriviaFrom markup front.length o (front ++ rest) =
      skipTriviaFrom markup 0 (o + front.length) rest := by
  induction front generalizing o with
  | nil => rfl
  | cons c front ih =>
    rw [List.length_cons, List.cons_append, skipTriviaFrom, ih]
    congr 1
    omega

theorem commentsFrom_append (front rest : List Char) (o : Nat) :
    commentsFrom markup front.length o (front ++ rest) =
      commentsFrom markup 0 (o + front.length) rest := by
  induction front generalizing o with
  | nil => rfl
  | cons c front ih =>
    rw [List.length_cons, List.cons_append, commentsFrom, ih]
    congr 1
    omega

theorem skipTriviaFrom_comment {front : List Char} {kind : Kind}
    (h : commentAt? markup (front ++ rest) = some (kind, front.length)) (hfront : front ≠ [])
    (hblank : ∀ c, front.head? = some c → isBlank c = false) (o : Nat) :
    skipTriviaFrom markup 0 o (front ++ rest) =
        skipTriviaFrom markup 0 (o + front.length) rest ∧
      commentsFrom markup 0 o (front ++ rest) =
        .node ⟨kind, .plain⟩ ⟨o, o + front.length⟩ [] ::
          commentsFrom markup 0 (o + front.length) rest := by
  cases front with
  | nil => exact absurd rfl hfront
  | cons c front =>
    have hc := hblank c rfl
    have hlength : o + 1 + front.length = o + (c :: front).length := by
      rw [List.length_cons]
      omega
    rw [List.cons_append] at h ⊢
    rw [skipTriviaFrom, commentsFrom]
    simp only [hc, h, Bool.false_eq_true, if_false]
    rw [List.length_cons, Nat.add_sub_cancel, skipTriviaFrom_append, commentsFrom_append, hlength]
    exact ⟨rfl, rfl⟩

theorem blockCommentLength_print {body : List Char} (hnull : ∀ c ∈ body, isNull c = false)
    (hend : ¬ ['*', '/'] <:+: body) (rest : List Char) :
    blockCommentLength (body ++ '*' :: '/' :: rest) = some (body.length + 2) := by
  induction body with
  | nil => rfl
  | cons c body ih =>
    have hend' : ¬ ['*', '/'] <:+: body := by
      intro hfound
      exact hend (hfound.trans (List.suffix_cons c body).isInfix)
    have hrest := ih (fun d hd => hnull d (List.mem_cons_of_mem c hd)) hend'
    rw [List.cons_append, blockCommentLength]
    . rw [hnull c List.mem_cons_self, hrest]
      rfl
    . rintro more rfl heq
      cases body with
      | nil => cases heq
      | cons d body =>
        cases heq
        exact hend ⟨[], body, rfl⟩

/--
What is left of a printed comment without the line break behind it.
-/
def Comment.core (comment : Comment) : List Char :=
  if comment.block then '/' :: '*' :: (comment.text.toList ++ ['*', '/'])
  else '/' :: '/' :: comment.text.toList

theorem Comment.print_eq (comment : Comment) :
    comment.print = comment.core ++ if comment.block then [] else ['\n'] := by
  unfold Comment.print Comment.core
  split
  . rw [List.append_nil]
  . rfl

/--
Whether trees are those of comments, in order.
-/
inductive ShowsComments (source : List Char) : List Tree → List Comment → Prop
  | nil : ShowsComments source [] []
  | cons {span : Span} {comment : Comment} {trees : List Tree} {comments : List Comment} :
    span.slice source = comment.core → ShowsComments source trees comments →
      ShowsComments source (.node ⟨.comment, .plain⟩ span [] :: trees) (comment :: comments)

theorem commentAt?_core {comment : Comment} (h : comment.Valid) (markup : Bool)
    (rest : List Char) :
    commentAt? markup (comment.core ++ ((if comment.block then [] else ['\n']) ++ rest)) =
      some (.comment, comment.core.length) := by
  cases hblock : comment.block with
  | true =>
    have hlength := blockCommentLength_print h.noNull (h.block hblock) rest
    simp [commentAt?, Comment.core, hblock, commentLength?, hlength]
  | false =>
    have hlength : (comment.text.toList ++ '\n' :: rest).takeWhile
        (fun c => !isLineEnd c && !isNull c) = comment.text.toList := by
      apply Cursor.takeWhile_append_of_head
      . intro c hc
        simp [h.line hblock c hc, h.noNull c hc]
      . intro c hc
        cases hc
        rfl
    simp [commentAt?, Comment.core, hblock, commentLength?, hlength]

theorem trivia_comment {comment : Comment} (h : comment.Valid) (markup : Bool)
    (rest : List Char) (o : Nat) :
    skipTriviaFrom markup 0 o (comment.print ++ rest) =
        skipTriviaFrom markup 0 (o + comment.print.length) rest ∧
      commentsFrom markup 0 o (comment.print ++ rest) =
        .node ⟨.comment, .plain⟩ ⟨o, o + comment.core.length⟩ [] ::
          commentsFrom markup 0 (o + comment.print.length) rest := by
  have hcore : comment.core ≠ [] ∧ ∀ c, comment.core.head? = some c → isBlank c = false := by
    unfold Comment.core
    split
    . refine ⟨List.cons_ne_nil _ _, ?_⟩
      intro c hc
      cases hc
      rfl
    . refine ⟨List.cons_ne_nil _ _, ?_⟩
      intro c hc
      cases hc
      rfl
  have hread := skipTriviaFrom_comment (commentAt?_core h markup rest) hcore.1 hcore.2 o
  rw [comment.print_eq, List.append_assoc, hread.1, hread.2, List.length_append, ← Nat.add_assoc]
  cases comment.block with
  | true => exact ⟨rfl, rfl⟩
  | false => exact ⟨rfl, rfl⟩

theorem trivia_print {source : List Char} {comments : List Comment}
    (hcomments : ∀ comment ∈ comments, comment.Valid) (hx : startsLexeme x = true)
    (hsource : source.drop o = printComments comments ++ x :: rest) :
    ∃ trees, trivia true ⟨printComments comments ++ x :: rest, o⟩ =
        (trees, ⟨x :: rest, o + (printComments comments).length⟩) ∧
      ShowsComments source trees comments := by
  unfold trivia skipTrivia
  dsimp only
  induction comments generalizing o with
  | nil =>
    have hskip := skipTrivia_of_head hx true rest o
    refine ⟨[], ?_, ShowsComments.nil⟩
    unfold skipTrivia at hskip
    simp only [printComments, List.flatMap_nil, List.nil_append, hskip, List.length_nil,
      Nat.add_zero]
    simp [commentsFrom, isBlank_of_startsLexeme hx, commentAt?_of_head hx]
  | cons comment comments ih =>
    have hvalid := hcomments comment List.mem_cons_self
    have hprint : printComments (comment :: comments) ++ x :: rest =
        comment.print ++ (printComments comments ++ x :: rest) := by
      rw [printComments, List.flatMap_cons, List.append_assoc]
      rfl
    rw [hprint] at hsource ⊢
    obtain ⟨trees, htrivia, hshows⟩ := ih
      (fun other hother => hcomments other (List.mem_cons_of_mem _ hother))
      (drop_add_of_drop hsource)
    rw [Prod.mk.injEq] at htrivia
    have hread := trivia_comment hvalid true (printComments comments ++ x :: rest) o
    refine ⟨.node ⟨.comment, .plain⟩ ⟨o, o + comment.core.length⟩ [] :: trees, ?_, ?_⟩
    . rw [hread.1, hread.2, htrivia.1, htrivia.2]
      simp only [printComments, List.flatMap_cons, List.length_append, Nat.add_assoc]
    . apply ShowsComments.cons ?_ hshows
      rw [comment.print_eq, List.append_assoc] at hsource
      exact Span.slice_of_drop hsource

end Comments

section Words

/--
What ends a word.
-/
def EndsWord (rest : List Char) : Prop :=
  ∀ x, rest.head? = some x → isWordChar x = false ∧ x ≠ '\\'

theorem wordRun_of_endsWord (h : EndsWord rest) : wordRun 0 rest = 0 := by
  cases rest with
  | nil => rfl
  | cons x rest =>
    obtain ⟨hx, hescape⟩ := h x rfl
    have hnone : wordEscapeLength? (x :: rest) = none := by
      unfold wordEscapeLength?
      split
      . next heq =>
        cases heq
        exact absurd rfl hescape
      . next heq =>
        cases heq
        exact absurd rfl hescape
      . rfl
    simp [wordRun, hx, hnone]

theorem wordRun_append {word : List Char} (hword : ∀ c ∈ word, isWordChar c = true)
    (hrest : EndsWord rest) : wordRun 0 (word ++ rest) = word.length := by
  induction word with
  | nil => exact wordRun_of_endsWord hrest
  | cons c word ih =>
    rw [List.cons_append, wordRun, if_pos (hword c List.mem_cons_self),
      ih fun d hd => hword d (List.mem_cons_of_mem c hd), List.length_cons]

theorem wordLength_of_endsWord (h : EndsWord rest) : wordLength rest = 0 := by
  unfold wordLength
  split
  . split
    . rfl
    . exact wordRun_of_endsWord h
  . rfl

theorem word?_of_endsWord (h : EndsWord rest) (o : Nat) : word? ⟨rest, o⟩ = none := by
  simp [word?, wordLength_of_endsWord h]

/--
A word in ASCII.
-/
structure IsName (name : List Char) : Prop where
  head : ∃ c, name.head? = some c ∧ isNameStart c = true
  chars : ∀ c ∈ name, isNameChar c = true

theorem ValidName.isName {name : String} (h : ValidName name) : IsName name.toList :=
  ⟨h.head, h.chars⟩

theorem IsName.exists_cons {name : List Char} (h : IsName name) :
    ∃ c tail, name = c :: tail ∧ isNameStart c = true := by
  obtain ⟨c, hhead, hc⟩ := h.head
  cases name with
  | nil => cases hhead
  | cons d tail =>
    cases hhead
    exact ⟨c, tail, rfl, hc⟩

theorem toNat_of_isNameChar (h : isNameChar x = true) :
    48 ≤ x.toNat ∧ x.toNat ≤ 57 ∨ 65 ≤ x.toNat ∧ x.toNat ≤ 90 ∨
      97 ≤ x.toNat ∧ x.toNat ≤ 122 ∨ x.toNat = 95 ∨ x.toNat = 36 := by
  simp only [isNameChar, isNameStart, Bool.or_eq_true, decide_eq_true_eq, isAlpha_iff, isUpper_iff,
    isLower_iff, isDigit_iff] at h
  obtain (((h | h) | rfl) | rfl) | h := h
  . exact Or.inr (Or.inl h)
  . exact Or.inr (Or.inr (Or.inl h))
  . exact Or.inr (Or.inr (Or.inr (Or.inl rfl)))
  . exact Or.inr (Or.inr (Or.inr (Or.inr rfl)))
  . exact Or.inl h

theorem isWordChar_of_isNameChar (h : isNameChar x = true) : isWordChar x = true := by
  have hx := toNat_of_isNameChar h
  have hascii : x.toNat < 128 := by
    omega
  unfold isWordChar
  rw [if_pos hascii]
  simp only [isNameChar, isNameStart, Bool.or_eq_true, decide_eq_true_eq] at h
  simp only [isAlphanum_iff, Bool.or_eq_true, decide_eq_true_eq]
  obtain ((h | h) | h) | h := h
  . exact Or.inl (Or.inl (Or.inl (Or.inl h)))
  . exact Or.inl (Or.inl (Or.inr h))
  . exact Or.inl (Or.inr h)
  . exact Or.inl (Or.inl (Or.inl (Or.inr h)))

theorem ne_of_isNameStart {c : Char} (h : isNameStart x = true) (hc : isNameStart c = false) :
    x ≠ c := by
  rintro rfl
  rw [h] at hc
  cases hc

theorem isNameChar_of_isNameStart (h : isNameStart x = true) : isNameChar x = true := by
  unfold isNameChar
  rw [h]
  rfl

theorem isDigit_of_isNameStart (h : isNameStart x = true) : x.isDigit = false := by
  cases hdigit : x.isDigit with
  | false => rfl
  | true =>
    simp only [isNameStart, Bool.or_eq_true, decide_eq_true_eq, isAlpha_iff, isUpper_iff,
      isLower_iff, isDigit_iff] at h hdigit
    obtain ((h | h) | rfl) | rfl := h
    . omega
    . omega
    . exact absurd hdigit (by decide)
    . exact absurd hdigit (by decide)

theorem startsLexeme_of_isNameStart (h : isNameStart x = true) : startsLexeme x = true := by
  have hx := toNat_of_isNameChar (isNameChar_of_isNameStart h)
  have hblank : isBlank x = false := by
    simp only [isBlank, Bool.or_eq_false_iff, Bool.and_eq_false_iff, decide_eq_false_iff_not,
      beq_eq_false_iff_ne]
    omega
  have hslash : x ≠ '/' := ne_of_isNameStart h rfl
  have hangle : x ≠ '<' := ne_of_isNameStart h rfl
  have hdash : x ≠ '-' := ne_of_isNameStart h rfl
  simp [startsLexeme, hblank, hslash, hangle, hdash]

theorem IsName.wordLength_eq {name : List Char} (h : IsName name) (hrest : EndsWord rest) :
    wordLength (name ++ rest) = name.length := by
  have hrun := wordRun_append (fun c hc => isWordChar_of_isNameChar (h.chars c hc)) hrest
  obtain ⟨c, tail, rfl, hc⟩ := h.exists_cons
  unfold wordLength
  rw [List.cons_append]
  dsimp only
  rw [isDigit_of_isNameStart hc, if_neg Bool.false_ne_true, ← List.cons_append, hrun]

theorem IsName.word?_eq {name : List Char} (h : IsName name) (hrest : EndsWord rest) (o : Nat) :
    word? ⟨name ++ rest, o⟩ = some (String.ofList name, ⟨rest, o + name.length⟩) := by
  have hlength := h.wordLength_eq hrest
  have hpos : name.length ≠ 0 := by
    obtain ⟨c, tail, rfl, _⟩ := h.exists_cons
    exact Nat.succ_ne_zero _
  unfold word?
  dsimp only
  rw [hlength, if_neg hpos, List.take_left, Cursor.advance_append]

theorem digitRun_of_head (hx : x.isDigit = false) (rest : List Char) :
    digitRun Char.isDigit (x :: rest) = 0 := by
  simp [digitRun, hx]

theorem numberLength_of_isNameStart (h : isNameStart x = true) (rest : List Char) :
    numberLength (x :: rest) = 0 := by
  have hpoint : x ≠ '.' := ne_of_isNameStart h rfl
  have hzero : x ≠ '0' := ne_of_isNameStart h rfl
  have hdecimal : decimalLength (x :: rest) = 0 := by
    unfold decimalLength
    rw [digitRun_of_head (isDigit_of_isNameStart h)]
    dsimp only [List.drop]
    split
    . next heq =>
      cases heq
      exact absurd rfl hpoint
    . rfl
    . rfl
  unfold numberLength
  split
  . next heq =>
    cases heq
    exact absurd rfl hzero
  . exact hdecimal

end Words

theorem punctuator_of_isNameStart (h : isNameStart x = true) (rest : List Char) :
    punctuator (x :: rest) = "" := by
  unfold punctuator
  split
  all_goals first
    | rfl
    | next heq =>
      cases heq
      cases h

section Strings

theorem stringRest_print {quote : Char} {text : List Char}
    (htext : ∀ c ∈ text, isStringChar c = true) (hquote : quote = '"' ∨ quote = '\'')
    (rest : List Char) :
    stringRest quote 0 (text ++ quote :: rest) = some (text.length + 1) := by
  induction text with
  | nil => simp [stringRest]
  | cons c text ih =>
    have hc := htext c List.mem_cons_self
    simp only [isStringChar, Bool.not_eq_true', Bool.or_eq_false_iff,
      decide_eq_false_iff_not] at hc
    obtain ⟨⟨⟨⟨⟨⟨⟨hdouble, hsingle⟩, hescape⟩, _⟩, _⟩, hcontrol⟩, _⟩, _⟩ := hc
    have hne : c ≠ quote := by
      obtain rfl | rfl := hquote
      . exact hdouble
      . exact hsingle
    have hfeed : c ≠ '\n' := by
      rintro rfl
      exact hcontrol (by decide)
    have hreturn : c ≠ '\r' := by
      rintro rfl
      exact hcontrol (by decide)
    have hnull : isNull c = false := by
      unfold isNull
      rw [decide_eq_false_iff_not]
      omega
    have hrest := ih fun d hd => htext d (List.mem_cons_of_mem c hd)
    simp [stringRest, hne, hescape, hfeed, hreturn, hnull, hrest]

theorem stringLength?_print {quote : Char} {text : String} (htext : ValidString text)
    (hquote : quote = '"' ∨ quote = '\'') (rest : List Char) :
    stringLength? (printString quote text ++ rest) = some (printString quote text).length := by
  have hread := stringRest_print htext hquote rest
  have hprint : printString quote text ++ rest = quote :: (text.toList ++ quote :: rest) := by
    simp [printString]
  have hlength : (printString quote text).length = text.toList.length + 1 + 1 := by
    simp [printString]
  rw [hprint, hlength]
  obtain rfl | rfl := hquote
  . simp only [stringLength?, hread, Option.map_some]
  . simp only [stringLength?, hread, Option.map_some]

end Strings

end ComponentDoc.Script
