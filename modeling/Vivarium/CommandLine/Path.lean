/-!
# Paths

A path is read as steps between slashes. Repeated slashes count as one, and a slash at the end asks
for a folder.

* `Path.ofText` : the steps of a path's text;
* `Path.tooLong`, `Path.nameTooLong` : the limits on the bytes of a path and of a name.
-/

namespace Vivarium.CommandLine

/-- A way from a folder to another place. -/
inductive Path.Step
  /-- Written as one dot. -/
  | stay
  /-- Written as two dots. -/
  | up
  | enter (name : String)
deriving DecidableEq, Repr

/-- Steps that begin in the working directory or in the root. -/
structure Path where
  fromRoot : Bool
  steps : List Path.Step
  /-- Only a folder will do at the end. -/
  wantsFolder : Bool
deriving DecidableEq, Repr

namespace Path

/-- The step that a text between slashes stands for. Nothing between two slashes is no step. -/
def Step.ofText? (s : String) : Option Step :=
  if s = "" then none
  else if s = "." then some .stay
  else if s = ".." then some .up
  else some (.enter s)

def ofText (s : String) : Path where
  fromRoot := s.startsWith "/"
  steps := (s.splitOn "/").filterMap Step.ofText?
  wantsFolder := s.endsWith "/"

/-- A name has 255 bytes at most. -/
def nameTooLong (name : String) : Bool := decide (255 < name.utf8ByteSize)

/-- The text of a path has fewer than 4096 bytes. -/
def tooLong (s : String) : Bool := decide (4096 ≤ s.utf8ByteSize)

end Path

end Vivarium.CommandLine
