import ComponentDoc.Markup.Tag

/-!
Documents of markup. `Document.parse` gives every text a syntax tree. Elements nest by their tags;
an element can end without an end tag when what follows cannot belong to it. Text that fits
nowhere becomes an error node up to the next tag or entity, and elements that are still open at
the end of the text lack their end.
-/

namespace ComponentDoc.Markup

open Text

inductive Closing where
  | none_
  | endTag
  /-- What follows cannot belong to it. -/
  | implicit
  | endOfText
deriving Repr, DecidableEq, Inhabited

def closingAtEndTag (openTags : List TagName) (name : TagName) : Closing :=
  match openTags with
  | [] => .none_
  | top :: _ =>
    if top = name then .endTag
    else if openTags.any (fun t => t.sameKind name) then .implicit
    else .none_

/--
How the innermost of the open elements, named from the inside out, ends at a cursor that does not
stand on a blank.
-/
def closing (openTags : List TagName) (c : Cursor) : Closing :=
  match c.rest with
  | [] =>
    match openTags with
    | [] => .endOfText
    | top :: _ => if top.endsWithText then .implicit else .endOfText
  | '<' :: '!' :: _ => .none_
  | '<' :: '/' :: _ =>
    let chars := tagNameChars (c.advance 2)
    if chars.isEmpty then
      -- With blanks before its name an end tag closes nothing but the innermost element.
      match openTags, endTagName? c with
      | top :: _, some name => if top = name then .endTag else .none_
      | _, _ => .none_
    else closingAtEndTag openTags (.ofChars chars)
  | '<' :: _ =>
    match openTags with
    | [] => .none_
    | top :: _ =>
      let chars := tagNameChars (c.advance 1)
      -- An element without content ends before the next tag, whatever that is.
      if top.isVoid then .implicit
      else if chars.isEmpty then .none_
      else if top.canContain (.ofChars chars) then .none_
      else .implicit
  | _ => .none_

/--
The end of a stretch that fits nowhere: the next tag, entity or end of the text.
-/
def errorEnd : Nat → Cursor → Cursor
  | 0, c => c
  | fuel + 1, c =>
    match c.rest with
    | [] => c
    | '<' :: _ => c
    | '&' :: _ => if (entity? c).isSome then c else errorEnd fuel (c.advance 1)
    | _ => errorEnd fuel (c.advance 1)

/--
An error node that starts at a cursor and takes in at least `n` characters. Blanks at its end do
not belong to it.
-/
def errorFrom (n : Nat) (c : Cursor) : Tree × Cursor :=
  let d := c.advance n
  let stop := errorEnd d.rest.length d
  let length := (dropEndWhile isAsciiBlank (c.rest.take (stop.offset - c.offset))).length
  let e := c.advance (max n length)
  (.error ⟨c.offset, e.offset⟩ [], e)

def doctype? (c : Cursor) : Option (Tree × Cursor) :=
  let (before, d) := skipTrivia c.rest.length (c.advance 2)
  let word := String.ofList ((d.rest.take 7).map Char.toLower)
  if word = "doctype" then
    let (behind, e) := leadingComments d.rest.length (d.advance 7)
    let f := e.skipWhile (· != '>')
    if f.atEnd || f.offset = e.offset then none
    else
      let stop := f.advance 1
      some (.node .doctype ⟨c.offset, stop.offset⟩ (before ++ behind), stop)
  else none

/--
A `script` or `style` element behind its start tag, in open elements of which `top` is the name
kept for this one. Without its end tag it is an error that reaches to the end of the text.
-/
def rawElement (kind : Kind) (top : TagName) (start : Cursor) (tag : StartTag) : Tree × Cursor :=
  let stop := rawTextEnd top tag.stop
  let raw := leaf .rawText tag.stop stop
  if closing [top] stop = .endTag then
    let (endTree, e) := endTag .endTag stop
    (.node kind ⟨start.offset, e.offset⟩ [tag.tree, raw, endTree], e)
  else
    (.error ⟨start.offset, stop.offset⟩ [tag.tree, raw], stop)

def opening? (c : Cursor) : Option StartTag :=
  match c.rest with
  | '<' :: x :: _ =>
    if x = '!' || x = '/' then
      none
    else
      (startTag? c).filter fun tag =>
        !tag.selfClosing && tag.name.name != "script" && tag.name.name != "style"
  | _ => none

/--
The node at a cursor on `<` that is neither a comment nor an end tag and does not open an element
whose content is markup.
-/
def closedElement (openTags : List TagName) (c : Cursor) : Tree × Cursor :=
  match startTag? c with
  | some tag =>
    let isRaw := tag.name.name = "script" || tag.name.name = "style"
    if !tag.selfClosing then
      let top := (tag.name.opened openTags).head?.getD .forgotten
      rawElement (if tag.name.name = "script" then .scriptElement else .styleElement) top c tag
    else if isRaw then
      (.error ⟨c.offset, tag.stop.offset⟩ [], tag.stop)
    else
      (.node .element ⟨c.offset, tag.stop.offset⟩ [tag.tree], tag.stop)
  | none =>
    -- A bracket alone is an error of its own; a tag that never ends takes the rest with it.
    if (tagNameChars (skipTrivia c.rest.length (c.advance 1)).2).isEmpty then
      errorFrom 1 c
    else
      let stop := c.skipWhile (fun _ => true)
      (.error ⟨c.offset, stop.offset⟩ [], stop)

def closedNode (openTags : List TagName) (c : Cursor) : Tree × Cursor :=
  match c.rest with
  | '<' :: '!' :: _ =>
    match comment? c with
    | some stop => (leaf .comment c stop, stop)
    | none => (doctype? c).getD (errorFrom 2 c)
  | '<' :: '/' :: _ =>
    if !openTags.isEmpty && (endTagName? c).isSome then endTag .strayEndTag c else errorFrom 2 c
  | '<' :: _ => closedElement openTags c
  | '>' :: _ => errorFrom 1 c
  | '&' :: _ =>
    match entity? c with
    | some stop => (leaf .entity c stop, stop)
    | none => errorFrom 1 c
  | _ =>
    let stop := c.advance (textLength c)
    (leaf .text c stop, stop)

/--
The element with a given start tag at `c`, whose content ends at `d`. `openTags` holds the open
elements from this one outwards.
-/
def finishElement (openTags : List TagName) (c : Cursor) (tag : StartTag) (children : List Tree)
    (d : Cursor) : Tree × Cursor :=
  let e := skipBlanks d
  match closing openTags e with
  | .endTag =>
    let (endTree, f) := endTag .endTag e
    (.node .element ⟨c.offset, f.offset⟩ (tag.tree :: children ++ [endTree]), f)
  | .implicit => (.node .element ⟨c.offset, e.offset⟩ (tag.tree :: children), e)
  | _ =>
    -- The end that is missing is marked where the element starts.
    (.node .element ⟨c.offset, d.offset⟩
      (tag.tree :: children ++ [.missing .elementEnd c.offset]), d)

/--
The nodes at a cursor up to the end of the innermost open element, and the cursor behind the last
of them. Every node takes in at least one character, so the length of the text bounds the number
of steps.
-/
def content : Nat → List TagName → Cursor → List Tree × Cursor
  | 0, _, c => ([], c)
  | fuel + 1, openTags, c =>
    let d := skipBlanks c
    if closing openTags d = .none_ then
      let (tree, e) :=
        match opening? d with
        | some tag =>
          let inner := tag.name.opened openTags
          let (children, stop) := content fuel inner tag.stop
          finishElement inner d tag children stop
        | none => closedNode openTags d
      let (trees, f) := content fuel openTags e
      (tree :: trees, f)
    else ([], c)

end ComponentDoc.Markup
