/-!
# Failures of files and sockets

What the operating system may answer when a file or a socket cannot be used, with the text it
has for it, and the failures found in the data itself.
-/

namespace AgentSupervisor

/-- A failure of input or output. -/
inductive IoError where
  | notFound
  | permissionDenied
  | alreadyExists
  | notADirectory
  | isADirectory
  /-- a path or one of its names is too long -/
  | nameTooLong
  | addressInUse
  | symlinkLoop
  /-- the device failed -/
  | device
  /-- a write took nothing -/
  | writeZero
  /-- text that is not UTF-8 -/
  | notUtf8
  deriving Repr, DecidableEq

namespace IoError

/-- The text of a failure. -/
def message : IoError → String
  | .notFound => "No such file or directory (os error 2)"
  | .permissionDenied => "Permission denied (os error 13)"
  | .alreadyExists => "File exists (os error 17)"
  | .notADirectory => "Not a directory (os error 20)"
  | .isADirectory => "Is a directory (os error 21)"
  | .nameTooLong => "File name too long (os error 36)"
  | .addressInUse => "Address already in use (os error 98)"
  | .symlinkLoop => "Too many levels of symbolic links (os error 40)"
  | .device => "Input/output error (os error 5)"
  | .writeZero => "write zero"
  | .notUtf8 => "stream did not contain valid UTF-8"

end IoError

end AgentSupervisor
