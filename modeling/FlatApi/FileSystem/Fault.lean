/-!
# Faults of a file system
-/

namespace FlatApi

/-- Why a file system refuses something. -/
inductive IoFault where
  | notFound
  | exists
  | notDirectory
  | isDirectory
  /-- The root, or an entry that goes by dots, cannot be replaced. -/
  | busy
  | nameTooLong
  /-- A path cannot hold the character zero. -/
  | zeroInPath
  | notText
  | other (text : String)
  deriving DecidableEq

namespace IoFault

def message : IoFault → String
  | .notFound => "No such file or directory (os error 2)"
  | .exists => "File exists (os error 17)"
  | .notDirectory => "Not a directory (os error 20)"
  | .isDirectory => "Is a directory (os error 21)"
  | .busy => "Device or resource busy (os error 16)"
  | .nameTooLong => "File name too long (os error 36)"
  | .zeroInPath => "file name contained an unexpected NUL byte"
  | .notText => "stream did not contain valid UTF-8"
  | .other text => text

end IoFault

end FlatApi
