/-! The ways in which an access to the file system fails, and how each is reported. -/

namespace EndpointCatalog

inductive IoError
  | notFound
  | fileExists
  | notDirectory
  | isDirectory
  | nameTooLong
  | linkLoop
  | nulInPath
  | notUtf8
  deriving DecidableEq, Repr

def IoError.message : IoError → String
  | notFound => "No such file or directory (os error 2)"
  | fileExists => "File exists (os error 17)"
  | notDirectory => "Not a directory (os error 20)"
  | isDirectory => "Is a directory (os error 21)"
  | nameTooLong => "File name too long (os error 36)"
  | linkLoop => "Too many levels of symbolic links (os error 40)"
  | nulInPath => "file name contained an unexpected NUL byte"
  | notUtf8 => "stream did not contain valid UTF-8"

end EndpointCatalog
