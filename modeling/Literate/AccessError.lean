import Literate.Glob.Pattern

/-! Reasons why files cannot be reached. -/

namespace Literate

inductive AccessError where
  | notFound
  | busy
  | alreadyExists
  | notDirectory
  | isDirectory
  | nameTooLong
  | nulInName
  | nulInArgument
  | notText
  | notInMemory
  | badPattern (e : Glob.PatternError)
  deriving DecidableEq, Repr

def AccessError.message : AccessError → Text
  | notFound => "No such file or directory (os error 2)".toList
  | busy => "Device or resource busy (os error 16)".toList
  | alreadyExists => "File exists (os error 17)".toList
  | notDirectory => "Not a directory (os error 20)".toList
  | isDirectory => "Is a directory (os error 21)".toList
  | nameTooLong => "File name too long (os error 36)".toList
  | nulInName => "file name contained an unexpected NUL byte".toList
  | nulInArgument => "nul byte found in provided data".toList
  | notText => "stream did not contain valid UTF-8".toList
  | notInMemory => "File not found".toList
  | badPattern e => e.message

end Literate
