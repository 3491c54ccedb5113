/-
Where a text comes from, as messages show it, and the errors that come with a place to look at.
-/
import FrameGraph.Path
import FrameGraph.ReadError

namespace FrameGraph

/-- where a text comes from: a file, or a source that has no path -/
inductive Origin where
  | file (path : Path)
  | special (name : String)
  deriving DecidableEq, Repr

namespace Origin

def text : Origin → String
  | file p => Text.quotedBytes p.bytes
  | special name => "(" ++ name ++ ")"

/-- a position in the text, to be put behind a message -/
def atPosition (o : Origin) (p : Position) : String :=
  match o with
  | file _ => "in " ++ o.text ++ p.text
  | special _ => "from " ++ o.text ++ p.text

end Origin

/-- why a file cannot be opened or read: an error of the system, which has a number, or another one -/
inductive FileError where
  | system (description : String) (number : Nat)
  | other (description : String)
  deriving DecidableEq, Repr

namespace FileError

def message : FileError → String
  | system d n => d ++ " (os error " ++ toString n ++ ")"
  | other d => d

def number? : FileError → Option Nat
  | system _ n => some n
  | other _ => none

def notFound : FileError := system "No such file or directory" 2

def notDirectory : FileError := system "Not a directory" 20

def isDirectory : FileError := system "Is a directory" 21

def nameTooLong : FileError := system "File name too long" 36

def permissionDenied : FileError := system "Permission denied" 13

/-- a path with a zero byte in it names no file -/
def zeroInPath : FileError := other "file name contained an unexpected NUL byte"

/-- errors that opening and reading a file commonly meet -/
def known : List FileError := [notFound, permissionDenied, notDirectory, isDirectory, nameTooLong]

/-- the error with a number, described by `fallback` if it is not a common one -/
def ofNumber (n : Nat) (fallback : String) : FileError :=
  (known.find? (·.number? == some n)).getD (system fallback n)

end FileError

/-- why an input could not be read to its end -/
inductive InputError where
  | unopened (o : Origin) (e : FileError)
  | unreadable (o : Origin) (e : Located ReadError)
  deriving DecidableEq, Repr

namespace InputError

def message : InputError → String
  | unopened o e => o.text ++ ": " ++ e.message
  | unreadable o e => e.item.message ++ " " ++ o.atPosition e.position

end InputError

/-- the files that can be read: each path is refused or delivers bytes -/
abbrev Files := Path → Except FileError ByteSource

end FrameGraph
