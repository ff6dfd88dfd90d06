import Vivarium.CommandLine.Execution

/-!
# The program

Files, outputs and chance; everything else is `CommandLine.Invocation.conclusion`.
-/

namespace Vivarium.Main

open CommandLine

/-- The number of an error, which some operations report negated. -/
def errorNumber (code : UInt32) : UInt32 := min code (0 - code)

def fault (e : IO.Error) : FileFault :=
  match e with
  | .noFileOrDirectory .. => .missing
  | .permissionDenied .. => .denied
  | .inappropriateType _ code _ => if errorNumber code = 20 then .notDirectory else .isDirectory
  | .invalidArgument _ code _ =>
    if errorNumber code = 36 then .nameTooLong else .other (toString e)
  | e => .other (toString e)

def readFile (path : String) : IO (Except FileFault (List UInt8)) := do
  try
    return .ok (← IO.FS.readBinFile path).toList
  catch e => return .error (fault e)

def writeFile (path : String) (bytes : List UInt8) : IO (Except FileFault Unit) := do
  try
    IO.FS.writeBinFile path ⟨bytes.toArray⟩
    return .ok ()
  catch e => return .error (fault e)

def entropy : IO UInt64 := do
  return (← IO.getRandomBytes 8).toList.foldl (fun n b => n * 256 + b.toUInt64) 0

def respond (args : List String) : IO Response := do
  match Invocation.ofArguments? args with
  | none => return .misuse
  | some i =>
    let content ← match i.source? with
      | some path => readFile path
      | none => pure (.error .missing)
    let conclusion := i.conclusion content (← entropy)
    match conclusion.ending with
    | .ok (some delivery) => return conclusion.response (← writeFile delivery.path delivery.bytes)
    | _ => return conclusion.response (.ok ())

end Vivarium.Main

def main (args : List String) : IO UInt32 := do
  let response ← Vivarium.Main.respond args
  (← IO.getStdout).putStr response.output
  (← IO.getStderr).putStr response.error
  return response.code
