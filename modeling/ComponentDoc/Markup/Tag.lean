import ComponentDoc.Markup.Token

/-!
Tags. A start tag has a name and attributes and ends in `>` or `/>`. What does not belong into a
tag becomes a fault inside it: a stray character is an error, and a tag that runs into the next
one lacks its bracket.
-/

namespace ComponentDoc.Markup

open Text

structure StartTag where
  name : TagName
  tree : Tree
  selfClosing : Bool
  stop : Cursor
deriving Repr, Inhabited

/--
The value at a cursor. Comments directly behind an opening quote do not belong to the value.
-/
def attributeValue? (c : Cursor) : Option (Tree × Cursor) :=
  match c.peek? with
  | some q =>
    if q = '"' || q = '\'' then
      let (comments, open_) := leadingComments c.rest.length (c.advance 1)
      let inner := open_.skipWhile (· != q)
      if inner.atEnd then
        none
      else
        let close := inner.advance 1
        let parts := if inner.offset = open_.offset then [] else [leaf .attributeValue open_ inner]
        some (.node .quotedValue ⟨c.offset, close.offset⟩ (comments ++ parts), close)
    else
      let stop := c.skipWhile isBareValueChar
      if stop.offset = c.offset then none
      else some (leaf .attributeValue c stop, stop)
  | none => none

/--
The attribute that starts at a cursor. An equals sign without a value is an error beside the
attribute. A quoted value that never ends leaves no attribute.
-/
def attribute? (c : Cursor) : Option (List Tree × Cursor) :=
  let nameStop := c.skipWhile isAttributeNameChar
  let name := leaf .attributeName c nameStop
  let bare : Tree := .node .attribute ⟨c.offset, nameStop.offset⟩ [name]
  let (before, equals) := skipTrivia nameStop.rest.length nameStop
  match equals.rest with
  | '=' :: _ =>
    let afterEquals := equals.advance 1
    let (behind, valueStart) := skipTrivia afterEquals.rest.length afterEquals
    match attributeValue? valueStart with
    | some (value, stop) =>
      let parts := name :: (before ++ behind ++ [value])
      some ([.node .attribute ⟨c.offset, stop.offset⟩ parts], stop)
    | none =>
      match valueStart.peek? with
      | some q =>
        if q = '"' || q = '\'' then none
        else some ([bare, .error ⟨equals.offset, afterEquals.offset⟩ []], afterEquals)
      | none => none
  | _ => some ([bare], nameStop)

inductive TagStop where
  | open_
  | selfClosing
deriving Repr, DecidableEq, Inhabited

/--
Read the attributes of a tag and its end. A tag that runs into the next one or into the end of
the text lacks its end; in the latter case it counts as self-closing. There is no result if the
text ends inside an attribute.
-/
def tagRest : Nat → Cursor → Option (List Tree × TagStop × Cursor)
  | 0, _ => none
  | fuel + 1, c =>
    let (comments, d) := skipTrivia c.rest.length c
    match d.rest with
    | [] => some (comments ++ [.missing .tagEnd c.offset], .selfClosing, c)
    | '>' :: _ => some (comments, .open_, d.advance 1)
    | '/' :: '>' :: _ => some (comments, .selfClosing, d.advance 2)
    | '<' :: _ => some (comments ++ [.missing .tagEnd c.offset], .open_, c)
    | x :: _ =>
      if isAttributeNameChar x then
        match attribute? d with
        | some (parts, e) =>
          (tagRest fuel e).map fun (more, stop, f) => (comments ++ parts ++ more, stop, f)
        | none => none
      else
        let e := d.advance 1
        (tagRest fuel e).map fun (more, stop, f) =>
          (comments ++ [.error ⟨d.offset, e.offset⟩ []] ++ more, stop, f)

def startTag? (c : Cursor) : Option StartTag :=
  let afterBracket := c.advance 1
  let (comments, d) := skipTrivia afterBracket.rest.length afterBracket
  let chars := tagNameChars d
  if chars.isEmpty then
    none
  else
    let e := d.advance chars.length
    (tagRest (e.rest.length + 1) e).map fun (parts, stop, f) =>
      let kind := if stop = .selfClosing then Kind.selfClosingTag else .startTag
      { name := .ofChars chars
        tree := .node kind ⟨c.offset, f.offset⟩ (comments ++ leaf .tagName d e :: parts)
        selfClosing := stop = .selfClosing
        stop := f }

def endTagRest : Nat → Cursor → List Tree × Cursor
  | 0, c => ([], c)
  | fuel + 1, c =>
    let (comments, d) := skipTrivia c.rest.length c
    match d.rest with
    | [] => (comments ++ [.missing .tagEnd c.offset], c)
    | '<' :: _ => (comments ++ [.missing .tagEnd c.offset], c)
    | '>' :: _ => (comments, d.advance 1)
    | _ :: _ =>
      let e := d.skipWhile (fun x => x != '<' && x != '>')
      let (more, f) := endTagRest fuel e
      (comments ++ .error ⟨d.offset, e.offset⟩ [] :: more, f)

/--
The name of the end tag at a cursor that stands on `</`, with blanks allowed before it.
-/
def endTagName? (c : Cursor) : Option TagName :=
  let d := (skipTrivia c.rest.length (c.advance 2)).2
  let chars := tagNameChars d
  if chars.isEmpty then none else some (.ofChars chars)

def endTag (kind : Kind) (c : Cursor) : Tree × Cursor :=
  let (comments, d) := skipTrivia c.rest.length (c.advance 2)
  let e := d.advance (tagNameChars d).length
  let (parts, f) := endTagRest (e.rest.length + 1) e
  (.node kind ⟨c.offset, f.offset⟩ (comments ++ leaf .tagName d e :: parts), f)

end ComponentDoc.Markup
