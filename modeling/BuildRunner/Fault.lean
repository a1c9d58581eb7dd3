/-!
# Faults of the file system and of processes

Why an operation on files, on a stream or on a process was refused, and the text each reason is
reported by.
-/

namespace BuildRunner

/-- Why an operation was refused. -/
inductive Fault where
  | notFound
  | notDirectory
  | isDirectory
  | alreadyExists
  | permissionDenied
  | notExecutableFormat
  | nameTooLong
  | tooManyLinks
  /-- A path with a character that no file name can hold. -/
  | nulInPath
  /-- A command line with a character that none can hold. -/
  | nulInCommand
  /-- A file whose bytes are no text. -/
  | notText
  /-- A stream that takes no more bytes. -/
  | streamFull
  /-- A reason that comes with its own text. -/
  | stated (text : String)
  deriving DecidableEq, Repr

/-- The text a fault is reported by. -/
def Fault.message : Fault → String
  | notFound => "No such file or directory (os error 2)"
  | notDirectory => "Not a directory (os error 20)"
  | isDirectory => "Is a directory (os error 21)"
  | alreadyExists => "File exists (os error 17)"
  | permissionDenied => "Permission denied (os error 13)"
  | notExecutableFormat => "Exec format error (os error 8)"
  | nameTooLong => "File name too long (os error 36)"
  | tooManyLinks => "Too many levels of symbolic links (os error 40)"
  | nulInPath => "file name contained an unexpected NUL byte"
  | nulInCommand => "nul byte found in provided data"
  | notText => "stream did not contain valid UTF-8"
  | streamFull => "sink full"
  | stated text => text

end BuildRunner
