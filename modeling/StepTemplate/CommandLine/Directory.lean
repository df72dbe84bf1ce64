import StepTemplate.Text.Pieces

namespace StepTemplate

/-!
# Directories

A directory holds files by name. A path leads to a file through its parts. Parts that are empty or a
single dot lead nowhere else, but a path that ends in one does not lead to a file.
-/

namespace CommandLine

structure Directory where
  files : List (String × String)
  deriving DecidableEq, Repr

namespace Directory

/-- The parts of a path, without those that lead nowhere else. -/
def parts (path : List Char) : List (List Char) :=
  (Text.pieces '/' path).filter fun p => p != [] && p != ['.']

/-- Where a path leads: whether it starts at the root, and its parts. -/
def location (path : List Char) : Bool × List (List Char) :=
  (path.head? == some '/', parts path)

/-- What follows the last slash of a path. -/
def fileName (path : List Char) : List Char :=
  ((Text.pieces '/' path).getLast?).getD []

/-- Whether a path ends with a name. -/
def isFilePath (path : List Char) : Bool :=
  fileName path != [] && fileName path != ['.']

def read? (d : Directory) (path : String) : Option String :=
  if isFilePath path.toList then
    (d.files.find? fun f => location f.1.toList == location path.toList).map Prod.snd
  else none

end Directory

end CommandLine

end StepTemplate
