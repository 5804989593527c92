import PageFuzz.Coverage.Observation
import PageFuzz.Coverage.Vocabulary
import PageFuzz.Text.PrettyJson

/-!
# Coverage reports

How much of a vocabulary has been observed: per category the number of distinct reference names,
how many of them were seen, and which were not.
-/

namespace PageFuzz.Coverage

structure Category where
  total : Nat
  observed : Nat
  missing : NameSet
deriving DecidableEq

namespace Category

def compute (reference : List String) (seen : NameSet) : Category :=
  let reference := NameSet.ofList reference
  let missing := reference.filter (!seen.contains ·)
  ⟨reference.size, reference.size - missing.size, missing⟩

def isComplete (c : Category) : Bool := c.missing.isEmpty

theorem mem_missing_compute {x : String} {reference : List String} {seen : NameSet} :
    x ∈ (compute reference seen).missing.names ↔ x ∈ reference ∧ x ∉ seen.names := by
  simp [compute, NameSet.filter, List.mem_filter, NameSet.mem_ofList, NameSet.contains]

/-- nothing is subtracted that was not counted -/
theorem observed_add_missing (reference : List String) (seen : NameSet) :
    (compute reference seen).observed + (compute reference seen).missing.size =
      (compute reference seen).total := by
  have := (NameSet.ofList reference).names.length_filter_le (!seen.contains ·)
  simp only [compute, NameSet.size, NameSet.filter]
  omega

end Category

structure Report where
  pagesScanned : Nat
  totalTags : Nat
  html5Tags : Category
  obsoleteTags : Category
  attributes : Category
deriving DecidableEq

namespace Report

def compute (v : Vocabulary) (o : Observation) : Report where
  pagesScanned := o.pages
  totalTags := (NameSet.ofList (v.html5Tags ++ v.obsoleteTags)).size
  html5Tags := .compute v.html5Tags o.tags
  obsoleteTags := .compute v.obsoleteTags o.tags
  attributes := .compute v.attributes o.attributes

/-! ## as a text -/

def missingText (c : Category) : String :=
  if c.isComplete then "(none)" else String.intercalate ", " c.missing.names

/-- the four lines of a category -/
def categoryText (label : String) (c : Category) : String :=
  "\n" ++ label ++ " found in corpus: " ++ toString c.observed ++ "\n" ++
    label ++ " missing from corpus: " ++ toString c.missing.size ++ "\n" ++
    "Missing " ++ label ++ ": " ++ missingText c ++ "\n"

def text (r : Report) : String :=
  "Web pages in corpus: " ++ toString r.pagesScanned ++ "\n\n" ++
    "HTML5 tags in reference: " ++ toString r.html5Tags.total ++ "\n" ++
    "Obsolete HTML tags in reference: " ++ toString r.obsoleteTags.total ++ "\n" ++
    "Total HTML tags in reference: " ++ toString r.totalTags ++ "\n" ++
    categoryText "HTML5 tags" r.html5Tags ++
    categoryText "Obsolete HTML tags" r.obsoleteTags ++
    categoryText "HTML attributes" r.attributes

/-! ## as JSON -/

open Text (JsonValue)

def categoryJson (c : Category) : JsonValue :=
  .object [("total", .number c.total), ("observed", .number c.observed),
    ("missing", .array (c.missing.names.map .string))]

def json (r : Report) : JsonValue :=
  .object [("pages_scanned", .number r.pagesScanned), ("total_tags", .number r.totalTags),
    ("html5_tags", categoryJson r.html5Tags), ("obsolete_tags", categoryJson r.obsoleteTags),
    ("attributes", categoryJson r.attributes)]

def jsonText (r : Report) : String := r.json.pretty 0

end Report

end PageFuzz.Coverage
