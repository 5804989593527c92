import PageFuzz.Files.Path

/-!
# Faults of a configuration

What is wrong with the settings of a run before it does any work.
-/

namespace PageFuzz

inductive ConfigError where
  | directoryExists (path : Path)
  | missingDirectory (path : Path)
  | zeroRetention
  | invalidSeed (text : String)
  | invalidStartPosition
deriving DecidableEq, Repr

def ConfigError.message : ConfigError → String
  | directoryExists path => "output directory " ++ path.display ++ " already exists"
  | missingDirectory path => "directory " ++ path.display ++ " does not exist"
  | zeroRetention => "retention window must be at least 1"
  | invalidSeed text =>
    "invalid session seed '" ++ text ++ "': expected digits with an optional fractional part"
  | invalidStartPosition => "start position must be at least 1"

end PageFuzz
