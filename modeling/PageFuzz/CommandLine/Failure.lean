/-!
# The report of a failure

A failure is a message with its causes below it, each the cause of the one before.
-/

namespace PageFuzz.CommandLine

/-- a text whose lines after the first start below its first character -/
def hanging (indent : Nat) (text : String) : String :=
  String.intercalate ("\n" ++ "".pushn ' ' indent) (text.splitOn "\n")

/-- a number as wide as five characters -/
def numberColumn (n : Nat) : String := String.ofList ((Nat.toDigits 10 n).leftpad 5 ' ')

/-- the causes, numbered if there are several -/
def causeLines : List String → List String
  | [cause] => ["    " ++ hanging 4 cause]
  | causes => causes.zipIdx.map fun c => numberColumn c.2 ++ ": " ++ hanging 7 c.1

/-- the report of a chain of messages, the failure itself first -/
def failureReport : List String → String
  | [] => ""
  | [message] => "Error: " ++ message ++ "\n"
  | message :: causes =>
    "Error: " ++ message ++ "\n\nCaused by:\n" ++
      String.intercalate "\n" (causeLines causes) ++ "\n"

end PageFuzz.CommandLine
