/-
Why an operation on files fails.

The texts are those of the operating system, with its number for the failure.  A file name with a
zero byte never gets as far, and has a text without a number.
-/

namespace Preprocessor

inductive OsError where
  | notFound
  | alreadyExists
  | notADirectory
  | isADirectory
  | notEmpty
  | tooManyLinks
  | nameTooLong
  | busy
  | nulByte
  /-- Any other failure, by its message. -/
  | other (text : String)
deriving DecidableEq

def OsError.message : OsError → String
  | notFound => "No such file or directory (os error 2)"
  | alreadyExists => "File exists (os error 17)"
  | notADirectory => "Not a directory (os error 20)"
  | isADirectory => "Is a directory (os error 21)"
  | notEmpty => "Directory not empty (os error 39)"
  | tooManyLinks => "Too many levels of symbolic links (os error 40)"
  | nameTooLong => "File name too long (os error 36)"
  | busy => "Device or resource busy (os error 16)"
  | nulByte => "file name contained an unexpected NUL byte"
  | other text => text

end Preprocessor
