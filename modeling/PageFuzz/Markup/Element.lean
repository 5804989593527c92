import PageFuzz.Markup.Class

/-!
# Elements

The elements with a name of their own, those of them that are void, and which element may stand
directly in which.  All other elements are custom.
-/

namespace PageFuzz.Markup

/-- elements without content, which have no end tag -/
def voidNames : List String := [
  "area", "base", "basefont", "bgsound", "br", "col", "command", "embed", "frame", "hr", "image",
  "img", "input", "isindex", "keygen", "link", "menuitem", "meta", "nextid", "param", "source",
  "track", "wbr"]

/-- elements with content -/
def containerNames : List String := [
  "a", "abbr", "address", "article", "aside", "audio", "b", "bdi", "bdo", "blockquote", "body",
  "button", "canvas", "caption", "cite", "code", "colgroup", "data", "datalist", "dd", "del",
  "details", "dfn", "dialog", "div", "dl", "dt", "em", "fieldset", "figcaption", "figure",
  "footer", "form", "h1", "h2", "h3", "h4", "h5", "h6", "head", "header", "hgroup", "html", "i",
  "iframe", "ins", "kbd", "label", "legend", "li", "main", "map", "mark", "math", "menu", "meter",
  "nav", "noscript", "object", "ol", "optgroup", "option", "output", "p", "picture", "pre",
  "progress", "q", "rb", "rp", "rt", "rtc", "ruby", "s", "samp", "script", "section", "select",
  "slot", "small", "span", "strong", "style", "sub", "summary", "sup", "svg", "table", "tbody",
  "td", "template", "textarea", "tfoot", "th", "thead", "time", "title", "tr", "u", "ul", "var",
  "video"]

/-- elements that end a paragraph in which they start -/
def paragraphEnders : List String := [
  "address", "article", "aside", "blockquote", "details", "div", "dl", "fieldset", "figcaption",
  "figure", "footer", "form", "h1", "h2", "h3", "h4", "h5", "h6", "header", "hr", "main", "nav",
  "ol", "p", "pre", "section"]

/-- elements that end where the page ends -/
def outerNames : List String := ["html", "head", "body"]

structure Element where
  /-- the name in lower case -/
  name : String
  isCustom : Bool
deriving DecidableEq, Repr

namespace Element

/-- the element with a name, in any case -/
def ofName (cs : List Char) : Element :=
  let name := String.ofList (lower cs)
  ⟨name, !(voidNames.contains name || containerNames.contains name)⟩

def isVoid (e : Element) : Bool := voidNames.contains e.name

/-- Whether two elements are of one kind.  All custom elements are. -/
def isLike (a b : Element) : Bool := a.name == b.name || (a.isCustom && b.isCustom)

/-- Whether an element may hold another one directly; where it may not, it ends. -/
def mayHold (parent child : Element) : Bool :=
  match parent.name with
  | "li" => child.name != "li"
  | "dt" | "dd" => ["dt", "dd"].all (· != child.name)
  | "p" => !paragraphEnders.contains child.name
  | "colgroup" => child.name == "col"
  | "rb" | "rt" | "rp" => ["rb", "rt", "rp"].all (· != child.name)
  | "optgroup" => child.name != "optgroup"
  | "tr" => child.name != "tr"
  | "td" | "th" => ["td", "th", "tr"].all (· != child.name)
  | _ => true

end Element

end PageFuzz.Markup
