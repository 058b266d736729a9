/-! What can go wrong with a file. -/
namespace LoxFrontEnd.Files

inductive Error where
  | notFound
  | alreadyExists
  | notADirectory
  | isADirectory
  | nameTooLong
  | nulInName
  /-- The contents are not text. -/
  | notUtf8
  /-- Anything else, in the words of the system. -/
  | other (description : String)
deriving DecidableEq, Repr

/-- Errors of the system are described with their number. -/
def Error.message : Error → String
  | notFound => "No such file or directory (os error 2)"
  | alreadyExists => "File exists (os error 17)"
  | notADirectory => "Not a directory (os error 20)"
  | isADirectory => "Is a directory (os error 21)"
  | nameTooLong => "File name too long (os error 36)"
  | nulInName => "file name contained an unexpected NUL byte"
  | notUtf8 => "stream did not contain valid UTF-8"
  | other description => description

end LoxFrontEnd.Files
