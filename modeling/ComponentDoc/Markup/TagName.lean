/-!
Names of tags as they decide about the nesting of elements. Names are compared without regard to
case. Void elements hold nothing, some elements cannot hold others, and all names that are not
known count as one kind. The names of the elements that are open are kept in a bounded room: long
names are cut, and the innermost elements are forgotten when the room is full.
-/

namespace ComponentDoc.Markup

structure TagName where
  name : String
deriving Repr, DecidableEq, Inhabited

namespace TagName

def ofChars (chars : List Char) : TagName :=
  ⟨String.ofList (chars.map Char.toLower)⟩

def voidNames : List String :=
  ["area", "base", "basefont", "bgsound", "br", "col", "command", "embed", "frame", "hr", "image",
    "img", "input", "isindex", "keygen", "link", "menuitem", "meta", "nextid", "param", "source",
    "track", "wbr"]

def contentNames : List String :=
  ["a", "abbr", "address", "article", "aside", "audio", "b", "bdi", "bdo", "blockquote", "body",
    "button", "canvas", "caption", "cite", "code", "colgroup", "data", "datalist", "dd", "del",
    "details", "dfn", "dialog", "div", "dl", "dt", "em", "fieldset", "figcaption", "figure",
    "footer", "form", "h1", "h2", "h3", "h4", "h5", "h6", "head", "header", "hgroup", "html", "i",
    "iframe", "ins", "kbd", "label", "legend", "li", "main", "map", "mark", "math", "menu",
    "meter", "nav", "noscript", "object", "ol", "optgroup", "option", "output", "p", "picture",
    "pre", "progress", "q", "rb", "rp", "rt", "rtc", "ruby", "s", "samp", "script", "section",
    "select", "slot", "small", "span", "strong", "style", "sub", "summary", "sup", "svg", "table",
    "tbody", "td", "template", "textarea", "tfoot", "th", "thead", "time", "title", "tr", "u",
    "ul", "var", "video"]

def isVoid (t : TagName) : Bool :=
  voidNames.contains t.name

/--
What stands for an open element whose name was not kept. No element has this name.
-/
def forgotten : TagName :=
  ⟨""⟩

def isCustom (t : TagName) : Bool :=
  !(t = forgotten || voidNames.contains t.name || contentNames.contains t.name)

/--
Whether two names are of one kind: the same name, or both none of the known ones.
-/
def sameKind (t u : TagName) : Bool :=
  t = u || (t.isCustom && u.isCustom)

def paragraphEnders : List String :=
  ["address", "article", "aside", "blockquote", "details", "div", "dl", "fieldset", "figcaption",
    "figure", "footer", "form", "h1", "h2", "h3", "h4", "h5", "h6", "header", "hr", "main", "nav",
    "ol", "p", "pre", "section"]

/--
The names of the elements that an element cannot hold, for the elements with such a rule.
-/
def excludedNames (t : TagName) : List String :=
  match t.name with
  | "li" => ["li"]
  | "dt" | "dd" => ["dt", "dd"]
  | "p" => paragraphEnders
  | "rb" | "rt" | "rp" => ["rb", "rt", "rp"]
  | "optgroup" => ["optgroup"]
  | "tr" => ["tr"]
  | "td" | "th" => ["td", "th", "tr"]
  | _ => []

def canContain (t child : TagName) : Bool :=
  if t.name = "colgroup" then child.name = "col"
  else !t.excludedNames.contains child.name

def endsWithText (t : TagName) : Bool :=
  t.isVoid || ["html", "head", "body", "colgroup"].contains t.name

def keptLength : Nat :=
  255

def cut (t : TagName) : TagName :=
  if t.isCustom then ⟨String.ofList (t.name.toList.take keptLength)⟩ else t

/--
The bytes that a name takes. A known name is a number, any other one is kept with its length.
-/
def weight (t : TagName) : Nat :=
  if t.isCustom then t.name.length + 2 else 1

/--
The bytes that there are for the names of the open elements.
-/
def nameRoom : Nat :=
  1020

/--
What is kept of the names of elements, given from the outside in. The first name that leaves no
room is forgotten with all names inside it.
-/
def keepNames : Nat → List TagName → List TagName
  | _, [] => []
  | room, t :: inner =>
    if t.cut.weight < room then t.cut :: keepNames (room - t.cut.weight) inner
    else (t :: inner).map fun _ => forgotten

/--
The open elements behind a start tag, named from the inside out.
-/
def opened (t : TagName) (openTags : List TagName) : List TagName :=
  (keepNames nameRoom (t :: openTags).reverse).reverse

end TagName

end ComponentDoc.Markup
