import Vivarium.CommandLine.Conclusion

/-!
# Command lines

`execute` carries out a command line on known files: it looks up the file that is read, puts in
place the file that is written, and gives the exit code.
-/

namespace Vivarium.CommandLine

/-- The exit code and the texts on the two outputs. -/
structure Response where
  code : UInt32
  output : String
  error : String
deriving DecidableEq, Repr

/-- The response to arguments that ask for nothing known. -/
def Response.misuse : Response := ⟨2, "", "error: invalid arguments\n"⟩

/-- The response when the file, if there is one, has been written or not. -/
def Conclusion.response (c : Conclusion) (written : Except FileFault Unit) : Response :=
  match c.ending with
  | .error f => ⟨1, c.printed, f.text⟩
  | .ok none => ⟨0, c.printed, ""⟩
  | .ok (some d) =>
    match written with
    | .ok () => ⟨0, c.printed ++ d.receipt, ""⟩
    | .error e => ⟨1, c.printed, (Failure.writing d.path e).text⟩

/-- Carries out a command line on the known files. -/
def execute (args : List String) (fs : Files) (entropy : UInt64) : Response × Files :=
  match Invocation.ofArguments? args with
  | none => (.misuse, fs)
  | some i =>
    let content := match i.source? with
      | some path => fs.read path
      | none => .error .missing
    let conclusion := i.conclusion content entropy
    match conclusion.ending with
    | .ok (some delivery) =>
      match fs.write delivery.path delivery.bytes with
      | .ok fs => (conclusion.response (.ok ()), fs)
      | .error e => (conclusion.response (.error e), fs)
    | _ => (conclusion.response (.ok ()), fs)

end Vivarium.CommandLine
