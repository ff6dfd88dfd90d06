import Vivarium.CommandLine.Files
import Vivarium.Snapshot.Bytes

/-!
# Failures

An error that ends an invocation, as it is printed: what was being done, and why it failed.
-/

namespace Vivarium.CommandLine

/-- An error with its causes, outermost first. -/
structure Failure where
  message : String
  causes : List String
deriving DecidableEq, Repr

namespace Failure

/-- The causes below a heading, numbered if there is more than one. -/
def causesText : List String → String
  | [] => ""
  | [cause] => "\n\nCaused by:\n    " ++ cause
  | causes =>
    "\n\nCaused by:" ++ String.join (causes.zipIdx.map fun (cause, i) => s!"\n    {i}: {cause}")

def text (f : Failure) : String := "Error: " ++ f.message ++ causesText f.causes ++ "\n"

def reading (path : String) (e : FileFault) : Failure := ⟨"reading " ++ path, [e.message]⟩

def writing (path : String) (e : FileFault) : Failure := ⟨"writing " ++ path, [e.message]⟩

/-- A malformed file has what is malformed as a further cause. -/
def decoding (path : String) (e : Snapshot.Fault) : Failure :=
  let inner := match e with
    | .malformed e => [e.message]
    | .defective _ => []
  ⟨"decoding snapshot " ++ path, e.message :: inner⟩

end Failure

end Vivarium.CommandLine
