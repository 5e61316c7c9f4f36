/-! Faults of sinks and files. -/
namespace MethodPack

/-- Why a sink or a file operation fails. -/
inductive StorageFault where
  /-- The sink has no room for the rest of a write. -/
  | sinkFull
  | flushFailed
  | notFound
  | notDirectory
  | isDirectory
  | busy
  | nameTooLong
  /-- The path of a file to open holds a zero character. -/
  | zeroInPath
  /-- The path of a file to replace holds a zero character. -/
  | invalidArgument
  /-- Every name for a temporary file is taken. -/
  | noFreeName
  /-- A text file holds bytes that are no UTF-8. -/
  | notText
  /-- Any other reason, as the system words it. -/
  | other (reason : String)
deriving DecidableEq, Repr

namespace StorageFault

def message : StorageFault → String
  | sinkFull => "sink full"
  | flushFailed => "flush failed"
  | notFound => "No such file or directory (os error 2)"
  | busy => "Device or resource busy (os error 16)"
  | notDirectory => "Not a directory (os error 20)"
  | isDirectory => "Is a directory (os error 21)"
  | nameTooLong => "File name too long (os error 36)"
  | zeroInPath => "file name contained an unexpected NUL byte"
  | invalidArgument => "Invalid argument (os error 22)"
  | noFreeName => "too many temporary files exist"
  | notText => "stream did not contain valid UTF-8"
  | other reason => reason

end StorageFault
end MethodPack
