/-!
# The script of a fuzzing page

The template of the payload: a script that changes the page it stands in, step by step, with a
random generator of its own that starts from the seed of the session.
-/

namespace PageFuzz.Page

def scriptLines : List String := [
  "<script id=\"nomutate\">",
  "var fuzzSeed = \"\x7b\x7bseed\x7d\x7d\";",
  "var callbackUrl = \"http://127.0.0.1:\x7b\x7bcallback_port\x7d\x7d\";",
  "",
  "function seededRandom(text) \x7b",
  "\tvar h = 2166136261 >>> 0;",
  "\tfor (var i = 0; i < text.length; i++) \x7b",
  "\t\th ^= text.charCodeAt(i);",
  "\t\th = Math.imul(h, 16777619) >>> 0;",
  "\t\x7d",
  "\treturn function() \x7b",
  "\t\th |= 0; h = h + 0x6D2B79F5 | 0;",
  "\t\tvar t = Math.imul(h ^ h >>> 15, 1 | h);",
  "\t\tt = t + Math.imul(t ^ t >>> 7, 61 | t) ^ t;",
  "\t\treturn ((t ^ t >>> 14) >>> 0) / 4294967296;",
  "\t\x7d;",
  "\x7d",
  "",
  "var prng = seededRandom(fuzzSeed + \"|\" + document.documentElement.outerHTML.length);",
  "",
  "var longString = \"AAAA\";",
  "while (longString.length < 120000) \x7b",
  "\tlongString += longString;",
  "\x7d",
  "",
  "var fuzzValues = [0, 1, -1, 1e6, -1e6, 1e-6, 1e100, null, undefined, longString, false, true, [], \x7b\x7d, 4500000000, -2200000000, \"\", \"䕅䕅\"];",
  "",
  "function pick(list) \x7b",
  "\treturn list[Math.floor(prng() * list.length) | 0];",
  "\x7d",
  "",
  "function collectGarbage() \x7b",
  "\ttry \x7b CollectGarbage(); \x7d catch (e) \x7b\x7d",
  "\tvar junk = [];",
  "\tfor (var i = 0; i < 64; i++) \x7b",
  "\t\tjunk.push(longString.substr(i) + \"䕅\");",
  "\t\x7d",
  "\tjunk = null;",
  "\x7d",
  "",
  "function allElements() \x7b",
  "\tvar nodes = [];",
  "\tvar walker = document.createTreeWalker(document.documentElement, NodeFilter.SHOW_ELEMENT, null, false);",
  "\twhile (walker.nextNode()) \x7b",
  "\t\tif (walker.currentNode.id !== \"nomutate\") \x7b",
  "\t\t\tnodes.push(walker.currentNode);",
  "\t\t\x7d",
  "\t\x7d",
  "\treturn nodes;",
  "\x7d",
  "",
  "function randomElement() \x7b",
  "\tvar nodes = allElements();",
  "\treturn nodes.length ? pick(nodes) : document.documentElement;",
  "\x7d",
  "",
  "var mutations = [",
  "\tfunction removeElement() \x7b",
  "\t\tvar el = randomElement();",
  "\t\tif (el.parentNode) \x7b el.parentNode.removeChild(el); \x7d",
  "\t\x7d,",
  "\tfunction moveElement() \x7b",
  "\t\tvar el = randomElement();",
  "\t\tvar target = randomElement();",
  "\t\tif (el !== target && !el.contains(target)) \x7b target.appendChild(el); \x7d",
  "\t\x7d,",
  "\tfunction cloneElement() \x7b",
  "\t\tvar el = randomElement();",
  "\t\tvar target = randomElement();",
  "\t\ttarget.insertBefore(el.cloneNode(prng() < 0.5), target.firstChild || null);",
  "\t\x7d,",
  "\tfunction fuzzAttribute() \x7b",
  "\t\tvar el = randomElement();",
  "\t\tif (el.attributes && el.attributes.length) \x7b",
  "\t\t\tel.setAttribute(pick(el.attributes).name, pick(fuzzValues));",
  "\t\t\x7d else \x7b",
  "\t\t\tel.setAttribute(\"style\", \"display:\" + pick([\"none\", \"table\", \"inline\", \"contents\", \"grid\"]));",
  "\t\t\x7d",
  "\t\x7d,",
  "\tfunction replaceContent() \x7b",
  "\t\tvar el = randomElement();",
  "\t\tel.innerHTML = pick([longString, \"\", \"<table><tr><td>\" + longString + \"</td></tr></table>\", el.outerHTML]);",
  "\t\x7d,",
  "\tfunction observedRemoval() \x7b",
  "\t\tvar first = randomElement();",
  "\t\tvar second = randomElement();",
  "\t\ttry \x7b",
  "\t\t\tvar observer = new MutationObserver(function() \x7b",
  "\t\t\t\tif (second.parentNode) \x7b second.parentNode.removeChild(second); \x7d",
  "\t\t\t\tcollectGarbage();",
  "\t\t\t\x7d);",
  "\t\t\tobserver.observe(first, \x7b attributes: true, childList: true, characterData: true \x7d);",
  "\t\t\tfirst.setAttribute(\"title\", pick(fuzzValues));",
  "\t\t\x7d catch (e) \x7b\x7d",
  "\t\x7d,",
  "\tfunction toggleEditing() \x7b",
  "\t\tdocument.designMode = (document.designMode === \"on\") ? \"off\" : \"on\";",
  "\t\ttry \x7b document.execCommand(pick([\"selectAll\", \"delete\", \"bold\", \"insertHTML\"]), false, longString.substr(0, 64)); \x7d catch (e) \x7b\x7d",
  "\t\x7d,",
  "\tfunction normalizeTree() \x7b",
  "\t\trandomElement().normalize();",
  "\t\tvoid document.body && document.body.offsetHeight;",
  "\t\x7d",
  "];",
  "",
  "function domFuzz() \x7b",
  "\tfor (var round = 0; round < 100; round++) \x7b",
  "\t\ttry \x7b",
  "\t\t\tpick(mutations)();",
  "\t\t\x7d catch (e) \x7b\x7d",
  "\t\tif (round % 25 === 0 || prng() < 0.05) \x7b",
  "\t\t\tcollectGarbage();",
  "\t\t\x7d",
  "\t\x7d",
  "\tcollectGarbage();",
  "\twindow.location.href = callbackUrl;",
  "\x7d",
  "</script>",
  ""]

/-- the lines of the script, with the places for seed and port still open -/
def script : String := String.intercalate "\n" scriptLines

end PageFuzz.Page
