/-!
# Reference names

The names of elements and attributes that a corpus is compared with.
-/

namespace PageFuzz.Coverage

structure Vocabulary where
  html5Tags : List String
  obsoleteTags : List String
  attributes : List String
deriving DecidableEq, Repr

namespace Vocabulary

/-- elements in use -/
def standardTags : List String := [
  "a", "abbr", "address", "area", "article", "aside", "audio", "b", "base", "bdi", "bdo",
  "blockquote", "body", "br", "button", "canvas", "caption", "cite", "code", "col", "colgroup",
  "data", "datalist", "dd", "del", "dfn", "div", "dl", "dt", "em", "embed", "fieldset",
  "figcaption", "figure", "footer", "form", "h1", "h2", "h3", "h4", "h5", "h6", "head", "header",
  "hr", "html", "i", "iframe", "img", "input", "ins", "kbd", "keygen", "label", "legend", "li",
  "link", "main", "map", "mark", "meta", "meter", "nav", "noscript", "object", "ol", "optgroup",
  "option", "output", "p", "param", "pre", "progress", "q", "rb", "rp", "rt", "rtc", "ruby", "s",
  "samp", "script", "section", "select", "small", "source", "span", "strong", "style", "sub",
  "sup", "table", "tbody", "td", "template", "textarea", "tfoot", "th", "thead", "time", "title",
  "tr", "track", "u", "ul", "var", "video", "wbr"]

/-- elements that are out of use or never were in a standard -/
def retiredTags : List String := [
  "acronym", "app", "applet", "basefont", "bgsound", "big", "blink", "center", "command",
  "comment", "details", "dialog", "dir", "frame", "frameset", "hgroup", "hp0", "hp1", "hp2",
  "hp3", "hype", "ilayer", "image", "isindex", "key", "layer", "listing", "marquee", "menu",
  "menuitem", "multicol", "nextid", "nobr", "noembed", "noframes", "plaintext", "server", "sound",
  "spacer", "strike", "summary", "tt", "typewriter", "xmp"]

def standardAttributes : List String := [
  "abbr", "above", "accept", "accept-charset", "accesskey", "action", "align", "alink", "alt",
  "archive", "async", "autocomplete", "autofocus", "autoplay", "axis", "background", "balance",
  "behavior", "below", "bgcolor", "border", "cellpadding", "cellspacing", "challenge", "char",
  "charoff", "charset", "checked", "cite", "class", "clip", "code", "codebase", "color", "cols",
  "compact", "content", "contenteditable", "contextmenu", "controls", "coords", "crossorigin",
  "datetime", "declare", "default", "defer", "dir", "direction", "dirname", "download",
  "draggable", "dropzone", "enctype", "face", "for", "form", "formaction", "formenctype",
  "formmethod", "formnovalidate", "formtarget", "frame", "frameborder", "headers", "height",
  "hidden", "high", "href", "hreflang", "hspace", "icon", "id", "keytype", "kind", "label",
  "lang", "left", "link", "list", "longdesc", "loop", "low", "max", "maxlength", "marginheight",
  "marginwidth", "media", "method", "min", "multiple", "name", "noresize", "noshade",
  "novalidate", "nowrap", "object", "optimum", "pagex", "pagey", "pattern", "placeholder",
  "preload", "radiogroup", "readonly", "rel", "required", "rev", "reversed", "rows", "rules",
  "sandbox", "scheme", "scope", "scoped", "scrollamount", "scrolldelay", "scrolling", "selected",
  "sortable", "shape", "size", "sizes", "span", "spellcheck", "src", "srcdoc", "srclang",
  "standby", "start", "step", "style", "summary", "tabindex", "target", "text", "title", "top",
  "translate", "type", "value", "valuetype", "visibility", "vlink", "vspace", "width", "wrap",
  "z-index"]

def reference : Vocabulary := ⟨standardTags, retiredTags, standardAttributes⟩

end Vocabulary

end PageFuzz.Coverage
