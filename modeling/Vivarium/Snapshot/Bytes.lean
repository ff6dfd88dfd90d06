import Vivarium.Codec.Records
import Vivarium.Snapshot.Defect

/-!
# Snapshots as bytes

* `Snapshot.toBytes` : the fields one after another;
* `Snapshot.ofBytes` : a snapshot read back and tested, so that its world exists.
-/

namespace Vivarium.Snapshot

def codec : Codec Snapshot :=
  (Codec.u32.pair <| Word.codec.list.pair <| Hue.codec.option.list.pair <|
    Organism.codec.list.pair <| Codec.u64.pair <| Codec.u64.pair <| Binary64.codec.pair <|
    Codec.u64.pair <| Codec.u64.pair <| Codec.u32.list.pair <| Codec.u64.pair <|
    Stream.codec.pair Stream.codec).map
    (fun (version, words, owners, population, cycles, mutations, rate, maxAge, cap, history,
        historyCapacity, stream, lineage) =>
      ⟨version, words, owners, population, cycles, mutations, rate, maxAge, cap, history,
        historyCapacity, stream, lineage⟩)
    fun s => (s.version, s.words, s.owners, s.population, s.cycles, s.mutations, s.rate, s.maxAge,
      s.cap, s.history, s.historyCapacity, s.stream, s.lineage)

/-- Why bytes are not those of a sound snapshot. -/
inductive Fault
  | malformed (e : Codec.Error)
  | defective (d : Defect)
deriving DecidableEq

def Fault.message : Fault → String
  | malformed e => "Serialization error: " ++ e.message
  | defective d => d.message

def toBytes (s : Snapshot) : List UInt8 := codec.encode s

/-- Reads a snapshot off the front of the bytes and tests it. -/
def ofBytes (bs : List UInt8) : Except Fault Snapshot :=
  match codec.decode bs with
  | .error e => .error (.malformed e)
  | .ok (s, _) =>
    match s.defect? with
    | some d => .error (.defective d)
    | none => .ok s

end Vivarium.Snapshot
