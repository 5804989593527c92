/-!
# The start symbol of a page
-/

namespace PageFuzz.Page

/-- the rule that a whole page is derived from -/
def startSymbol : String := "html_document"

end PageFuzz.Page
