import Vivarium.Ancestor
import Vivarium.Binary64.Decimal
import Vivarium.CommandLine.Arguments

/-!
# Invocations

What the program can be asked to do, and how it is asked.

* `run` lets an ancestor, or the world of a saved snapshot, live for some cycles;
* `inspect` prints the figures and some words of a saved snapshot.
-/

namespace Vivarium.CommandLine

structure RunOptions where
  cycles : UInt64
  batch : UInt64
  seed : Option UInt64
  rate : Option Binary64
  maxAge : Option UInt64
  ancestor : Ancestor
  resume : Option String
  save : Option String
deriving DecidableEq

structure InspectOptions where
  file : String
  start : UInt64
  count : UInt64
deriving DecidableEq

inductive Invocation
  | run (options : RunOptions)
  | inspect (options : InspectOptions)
deriving DecidableEq

/-! ## Values -/

def readUInt64? (s : String) : Option UInt64 :=
  (Digits.natural? s).bind fun n => if n < UInt64.size then some (UInt64.ofNat n) else none

/-- A signed number of thirty-two bits. -/
def readWord? (s : String) : Option Word :=
  (Digits.integer? s).bind fun n =>
    if -0x80000000 ≤ n ∧ n < 0x80000000 then some (BitVec.ofInt 32 n) else none

/-- A path, which is not empty. -/
def readPath? (s : String) : Option String := if s.isEmpty then none else some s

/-! ## Subcommands -/

def runVocabulary : Vocabulary where
  options := ["cycles", "batch", "seed", "mutation-rate", "max-age", "start", "length", "offset",
    "resume", "save"]
  signed := ["offset"]

def inspectVocabulary : Vocabulary where
  options := ["from", "count"]
  signed := []

def RunOptions.ofArguments? (a : Arguments) : Option RunOptions := do
  guard (a.distinct && a.operands.isEmpty)
  return {
    cycles := ← a.valueD "cycles" readUInt64? 10000
    batch := ← a.valueD "batch" readUInt64? 1000
    seed := ← a.optional "seed" readUInt64?
    rate := ← a.optional "mutation-rate" Binary64.ofText?
    maxAge := ← a.optional "max-age" readUInt64?
    ancestor := {
      start := ← a.valueD "start" readUInt64? 2048
      length := ← a.valueD "length" readUInt64? 10
      offset := ← a.valueD "offset" readWord? 128 }
    resume := ← a.optional "resume" readPath?
    save := ← a.optional "save" readPath? }

def InspectOptions.ofArguments? (a : Arguments) : Option InspectOptions := do
  guard a.distinct
  match a.operands with
  | [file] => return {
      file := ← readPath? file
      start := ← a.valueD "from" readUInt64? 0
      count := ← a.valueD "count" readUInt64? 32 }
  | _ => none

/-- The invocation that a list of arguments asks for, if it is well-formed. -/
def Invocation.ofArguments? : List String → Option Invocation
  | "run" :: rest => do
    return .run (← RunOptions.ofArguments? (← Arguments.sort? runVocabulary rest))
  | "inspect" :: rest => do
    return .inspect (← InspectOptions.ofArguments? (← Arguments.sort? inspectVocabulary rest))
  | _ => none

end Vivarium.CommandLine
