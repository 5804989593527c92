/-!
# Causes of failed file operations

Each cause has one message; where the cause has a number on Linux, the message ends with it.
-/

namespace PageFuzz

inductive IoCause where
  | notFound
  | alreadyExists
  | notDirectory
  | isDirectory
  | nameTooLong
  | tooManyLinks
  /-- bytes that were read as a text and are none -/
  | notText
  /-- a path with a zero byte in it -/
  | zeroByte
  /-- any other cause, such as a full disk, in the words of the system -/
  | other (words : String)
deriving DecidableEq, Repr

def IoCause.message : IoCause → String
  | notFound => "No such file or directory (os error 2)"
  | alreadyExists => "File exists (os error 17)"
  | notDirectory => "Not a directory (os error 20)"
  | isDirectory => "Is a directory (os error 21)"
  | nameTooLong => "File name too long (os error 36)"
  | tooManyLinks => "Too many levels of symbolic links (os error 40)"
  | notText => "stream did not contain valid UTF-8"
  | zeroByte => "file name contained an unexpected NUL byte"
  | other words => words

end PageFuzz
