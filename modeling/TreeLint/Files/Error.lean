import TreeLint.Text.Quoted
import TreeLint.Text.Utf8

/-! What can go wrong with a file, and the wording of each error. -/

namespace TreeLint

/-- Why a file could not be looked at, read or written. The path is the one that was asked for. -/
inductive FileError where
  | missing (path : String)
  /-- What is no directory is on the way. -/
  | notDirectory (path : String)
  /-- There is a directory where a file is needed. -/
  | isDirectory (path : String)
  /-- A name on the way, or the path as a whole, is too long. -/
  | nameTooLong (path : String)
  | denied (path : String)
  /-- There are too many links on the way. -/
  | looped (path : String)
  /-- A link leads to itself. -/
  | circle (path : String)
  | noSpace
  /-- The calls that look at a directory are nested too deeply. -/
  | tooDeep
  /-- The path holds a character that no path can hold. -/
  | badPath
  /-- There are no bytes for the path, or for the text that is to be written. -/
  | unwritable (halves : Text.Utf8.Halves)
  /-- The bytes of the file are no text. -/
  | notText (error : Text.Utf8.Error)
  deriving DecidableEq

namespace FileError

def message (half? : Char → Option Nat) : FileError → String
  | missing path => "[Errno 2] No such file or directory: " ++ Text.quoted half? path
  | notDirectory path => "[Errno 20] Not a directory: " ++ Text.quoted half? path
  | isDirectory path => "[Errno 21] Is a directory: " ++ Text.quoted half? path
  | nameTooLong path => "[Errno 36] File name too long: " ++ Text.quoted half? path
  | denied path => "[Errno 13] Permission denied: " ++ Text.quoted half? path
  | looped path => "[Errno 40] Too many levels of symbolic links: " ++ Text.quoted half? path
  | circle path => "Symlink loop from " ++ Text.quoted half? path
  | noSpace => "[Errno 28] No space left on device"
  | tooDeep => "maximum recursion depth exceeded"
  | badPath => "embedded null byte"
  | unwritable halves => halves.message
  | notText error => error.message

/-- Whether the error is raised by a question that asks only what is there. For every other one the
answer is that nothing is there. -/
def escapes : FileError → Bool
  | nameTooLong _ | denied _ => true
  | _ => false

/-- Whether what is wrong is a text itself: no path reads so, or no file can hold it. -/
def isOfText : FileError → Bool
  | badPath | unwritable _ => true
  | _ => false

end FileError

end TreeLint
