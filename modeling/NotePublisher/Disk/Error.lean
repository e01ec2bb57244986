namespace NotePublisher

/-!
# Errors of the file system

The causes for which an operation on a disk is refused, and the text under
which each is reported.
-/

/-- Why an operation on a disk was refused. -/
inductive DiskError where
  | notPermitted
  | notFound
  | ioFailure
  | busy
  | alreadyExists
  | notADirectory
  | isADirectory
  | invalidArgument
  | noSpace
  | nameTooLong
  | notEmpty
  | tooManyLinks
  /-- The contents of a file are not a text. -/
  | notText
  /-- A name holds a zero byte. -/
  | zeroInName
  deriving DecidableEq, Repr

namespace DiskError

/-- The text under which a cause is reported. -/
def message : DiskError → String
  | notPermitted => "Operation not permitted (os error 1)"
  | notFound => "No such file or directory (os error 2)"
  | ioFailure => "Input/output error (os error 5)"
  | busy => "Device or resource busy (os error 16)"
  | alreadyExists => "File exists (os error 17)"
  | notADirectory => "Not a directory (os error 20)"
  | isADirectory => "Is a directory (os error 21)"
  | invalidArgument => "Invalid argument (os error 22)"
  | noSpace => "No space left on device (os error 28)"
  | nameTooLong => "File name too long (os error 36)"
  | notEmpty => "Directory not empty (os error 39)"
  | tooManyLinks => "Too many levels of symbolic links (os error 40)"
  | notText => "stream did not contain valid UTF-8"
  | zeroInName => "file name contained an unexpected NUL byte"

end DiskError

end NotePublisher
