/-! The reasons for which the file system refuses. -/

set_option autoImplicit false

namespace KernelExam

inductive FileError where
  | alreadyExists
  | notFound
  | isADirectory
  | notADirectory
  | directoryNotEmpty
  | invalidPath
  | inUse
  deriving DecidableEq, Repr

def FileError.message : FileError → String
  | .alreadyExists => "file exists"
  | .notFound => "no such file or directory"
  | .isADirectory => "is a directory"
  | .notADirectory => "not a directory"
  | .directoryNotEmpty => "directory not empty"
  | .invalidPath => "invalid path"
  | .inUse => "directory in use"

end KernelExam
