import Vivarium.CommandLine.Path

/-!
# Files

The files that are known in the working directory and in the folders above it. No folder is known
to be inside another one except on the way from the root to the working directory, and the names on
that way are not known, so a path can climb but not descend.

* `Files.locate` : the place that a path leads to;
* `Files.read`, `Files.write` : whole files by their path.
-/

namespace Vivarium.CommandLine

/-- Why a file cannot be read or written. -/
inductive FileFault
  | missing
  | denied
  | notDirectory
  | isDirectory
  | nameTooLong
  | other (text : String)
deriving DecidableEq, Repr

def FileFault.message : FileFault → String
  | missing => "No such file or directory (os error 2)"
  | denied => "Permission denied (os error 13)"
  | notDirectory => "Not a directory (os error 20)"
  | isDirectory => "Is a directory (os error 21)"
  | nameTooLong => "File name too long (os error 36)"
  | other text => text

/-- A folder on the way from the root to the working directory. -/
inductive Folder
  /-- That many levels above the working directory. -/
  | above (levels : Nat)
  | root
deriving DecidableEq, Repr

/-- The folder above; the root is above itself. -/
def Folder.parent : Folder → Folder
  | above levels => above (levels + 1)
  | root => root

/-- A name in a folder. -/
structure Location where
  folder : Folder
  name : String
deriving DecidableEq, Repr

/-- What the known files hold, the newest first. -/
structure Files where
  entries : List (Location × List UInt8)

namespace Files

def empty : Files := ⟨[]⟩

/-- What the file at a location holds, if there is one. -/
def lookup (fs : Files) (l : Location) : Except FileFault (List UInt8) :=
  if Path.nameTooLong l.name then .error .nameTooLong
  else
    match fs.entries.lookup l with
    | some bytes => .ok bytes
    | none => .error .missing

/-- Why a path cannot lead through a location: there is a file, or nothing. -/
def obstacle (fs : Files) (l : Location) : FileFault :=
  match fs.lookup l with
  | .ok _ => .notDirectory
  | .error e => e

/-- Where steps lead from a folder: to a location, or to a folder if there is none. -/
def follow (fs : Files) : Folder → List Path.Step → Except FileFault (Option Location)
  | _, [] => .ok none
  | f, [.enter name] => .ok (some ⟨f, name⟩)
  | f, .enter name :: _ => .error (fs.obstacle ⟨f, name⟩)
  | f, .stay :: rest => fs.follow f rest
  | f, .up :: rest => fs.follow f.parent rest

/-- The location that a path names. A folder is no location of a file. -/
def locate (fs : Files) (path : String) : Except FileFault Location :=
  if Path.tooLong path then .error .nameTooLong
  else
    let p := Path.ofText path
    match fs.follow (if p.fromRoot then .root else .above 0) p.steps with
    | .error e => .error e
    | .ok none => .error .isDirectory
    | .ok (some l) => .ok l

def read (fs : Files) (path : String) : Except FileFault (List UInt8) :=
  match fs.locate path with
  | .error e => .error e
  | .ok l => if (Path.ofText path).wantsFolder then .error (fs.obstacle l) else fs.lookup l

/-- Puts a file in the place of the one that the path names. A path that wants a folder is refused
before its last name is looked at. -/
def write (fs : Files) (path : String) (bytes : List UInt8) : Except FileFault Files :=
  match fs.locate path with
  | .error e => .error e
  | .ok l =>
    if (Path.ofText path).wantsFolder then .error .isDirectory
    else if Path.nameTooLong l.name then .error .nameTooLong
    else .ok ⟨(l, bytes) :: fs.entries.filter (·.1 != l)⟩

end Files

end Vivarium.CommandLine
