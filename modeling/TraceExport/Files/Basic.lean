import TraceExport.Path.Normal

/-!
Access to files, as far as this library needs it. The operations are a class
over a monad, so that everything above them can be run on a real file system and
reasoned about on a model of one.
-/

namespace TraceExport

inductive FileError where
  | notFound
  | alreadyExists
  | notDirectory
  | isDirectory
  | nameTooLong
  | nulInName
  | notText
  /-- Any other reason, in the words of the system. -/
  | other (message : String)
deriving DecidableEq, Repr

/-- The system's words for an error and its number. -/
def FileError.message : FileError → String
  | notFound => "No such file or directory (os error 2)"
  | alreadyExists => "File exists (os error 17)"
  | notDirectory => "Not a directory (os error 20)"
  | isDirectory => "Is a directory (os error 21)"
  | nameTooLong => "File name too long (os error 36)"
  | nulInName => "file name contained an unexpected NUL byte"
  | notText => "stream did not contain valid UTF-8"
  | other message => message

inductive FileKind where
  | file
  | directory
deriving DecidableEq, Repr

/-- An entry of a directory; times are counted from a fixed point. -/
structure DirEntry where
  name : String
  kind : FileKind
  modified : Nat
deriving DecidableEq, Repr

class FileSystem (m : Type → Type) where
  kind? : Path → m (Option FileKind)
  readText : Path → m (Except FileError String)
  entries : Path → m (Except FileError (List DirEntry))
  /-- The files in a directory and in the directories below it, in any order. -/
  filesBelow : Path → m (Except FileError (List Path))
  /-- Makes a directory and those above it; one that exists is kept. -/
  makeDirectory : Path → m (Except FileError Unit)
  /-- Writes a text to a file; what it held before is gone. -/
  writeText : Path → String → m (Except FileError Unit)

end TraceExport
