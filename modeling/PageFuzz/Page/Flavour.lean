import PageFuzz.Grammar.Draft
import PageFuzz.Page.Drawings
import PageFuzz.Page.Elements
import PageFuzz.Page.Start
import PageFuzz.Page.Styles

/-!
# The grammar of pages in two flavours

Plain pages carry no script of ours.  Fuzzing pages carry a payload once, as one opaque text, and
start it when they are loaded; a few rules differ for that.
-/

namespace PageFuzz.Page

inductive Flavour where
  | plain
  | fuzzing (payload : String)
deriving DecidableEq, Repr

/-- the rule that holds the payload -/
def payloadRule : String := "domfuzz"

/-- the rules of both flavours -/
def sharedRules : List (String × List String) := elements ++ styles ++ drawings

def plainRules : List (String × List String) := [
  ("body_tag", [
    "<body alink=\"green\" bgcolor=\"blue\" link=\"red\" text=\"green\" vlink=\"red\"> " ++
      "body_content </body>",
    "<body alink=\"green\" background=\"blah.jpg\" link=\"blue\" text=\"green\" " ++
      "vlink=\"red\"> body_content </body>",
    "<body alink=\"green\" bgcolor=\"red\" link=\"blue\" text=\"green\" vlink=\"red\"> " ++
      "body_content </body>",
    "<body alink=\"green\" bgcolor=\"green\" link=\"blue\" text=\"red\" vlink=\"red\"> " ++
      "body_content </body>",
    "<body alink=\"green\" bgcolor=\"yellow\" link=\"blue\" text=\"red\" vlink=\"red\"> " ++
      "body_content </body>"]),
  ("frameset_tag", [
    "<frameset cols=\"25%,*,25%\" rows=\"25%,*,25%\"> frameset_content </frameset>"]),
  ("head_tag", ["<head> head_content </head>"]),
  ("html_content", [
    "head_tag body_tag", "head_tag frameset_tag", "head_tag body_tag plaintext_tag",
    "head_tag body_tag"]),
  ("meta_tag", [
    "<meta charset=\"UTF-8\">", "<meta name=\"keywords\" content=\"HTML,Fuzzing\">",
    "<meta name=\"date\" content=\"2016-11-07\" scheme=\"YYYY-MM-DD\">",
    "<meta http-equiv=\"cache-control\" content=\"no-cache\">"])]

def fuzzingRules : List (String × List String) := [
  ("body_tag", [
    "<body onload=\"domFuzz();\" alink=\"green\" bgcolor=\"blue\" link=\"red\" " ++
      "text=\"green\" vlink=\"red\"> domfuzz body_content </body>",
    "<body onload=\"domFuzz();\" alink=\"green\" background=\"blah.jpg\" link=\"blue\" " ++
      "text=\"green\" vlink=\"red\"> domfuzz body_content </body>",
    "<body onload=\"domFuzz();\" alink=\"green\" bgcolor=\"red\" link=\"blue\" " ++
      "text=\"green\" vlink=\"red\"> domfuzz body_content </body>",
    "<body onload=\"domFuzz();\" alink=\"green\" bgcolor=\"green\" link=\"blue\" " ++
      "text=\"red\" vlink=\"red\"> domfuzz body_content </body>",
    "<body onload=\"domFuzz();\" alink=\"green\" bgcolor=\"yellow\" link=\"blue\" " ++
      "text=\"red\" vlink=\"red\"> domfuzz body_content </body>"]),
  ("frameset_tag", [
    "domfuzz <frameset onload=\"domFuzz();\" cols=\"25%,*,25%\" rows=\"25%,*,25%\"> " ++
      "frameset_content frameset_content frameset_content frameset_content </frameset>"]),
  ("head_tag", [
    "<head> <meta http-equiv=\"cache-control\" content=\"no-cache\"> head_content </head>"]),
  ("html_content", [
    "head_tag body_tag", "head_tag frameset_tag", "head_tag body_tag plaintext_tag",
    "head_tag body_tag", "head_tag body_tag", "head_tag body_tag", "head_tag body_tag",
    "head_tag body_tag"]),
  ("meta_tag", [
    "<meta charset=\"UTF-8\">", "<meta name=\"keywords\" content=\"HTML,Fuzzing\">",
    "<meta name=\"date\" content=\"2016-11-07\" scheme=\"YYYY-MM-DD\">",
    "<meta http-equiv=\"refresh\" content=\"100\">"])]

/-- each alternative declared on its own, in the order of the table -/
def declared (rules : List (String × List String)) : List Declaration :=
  rules.flatMap fun r => r.2.map (.spec r.1)

def declarations : Flavour → List Declaration
  | .plain => declared (sharedRules ++ plainRules)
  | .fuzzing payload => declared (sharedRules ++ fuzzingRules) ++ [.literal payloadRule payload]

def grammar (f : Flavour) : Except GrammarError Grammar :=
  (Draft.ofDeclarations (declarations f)).build

end PageFuzz.Page
