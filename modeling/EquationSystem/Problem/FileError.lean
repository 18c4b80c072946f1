/-!
# Why a file cannot be read
-/

namespace EquationSystem

inductive FileError where
  | notFound
  | accessDenied
  | notADirectory
  | isADirectory
  | nameTooLong
  | tooManyLinks
  /-- The bytes of the file are no UTF-8. -/
  | notText
  | other (reason : String)
deriving DecidableEq

namespace FileError

/-- The error for a code of the operating system. -/
def ofCode (code : Nat) (reason : String) : FileError :=
  match code with
  | 2 => .notFound
  | 13 => .accessDenied
  | 20 => .notADirectory
  | 21 => .isADirectory
  | 36 => .nameTooLong
  | 40 => .tooManyLinks
  | _ => .other reason

def message : FileError → String
  | .notFound => "No such file or directory (os error 2)"
  | .accessDenied => "Permission denied (os error 13)"
  | .notADirectory => "Not a directory (os error 20)"
  | .isADirectory => "Is a directory (os error 21)"
  | .nameTooLong => "File name too long (os error 36)"
  | .tooManyLinks => "Too many levels of symbolic links (os error 40)"
  | .notText => "stream did not contain valid UTF-8"
  | .other reason => reason

end FileError

end EquationSystem
