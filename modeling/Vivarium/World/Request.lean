import Vivarium.Snapshot.Defect
import Vivarium.World.Cycle

/-!
# Requests

Everything that can be asked of a world from outside, as one type, so that the life of a world is a
list of requests. Addresses are machine addresses and wrap round the ring.
-/

namespace Vivarium

/-- Something that a world is asked to do. -/
inductive Request
  | load (start : UInt64) (words : List Word)
  | plant (start : UInt64) (words : List Word)
  | addRoot (ip : UInt64)
  | step
  | run (cycles : UInt64)
  | setRate (rate : Binary64)
  | setMaxAge (maxAge : UInt64)
  | reset
  | replace (s : Snapshot)

/-- What a world answers. -/
inductive Answer
  | done
  /-- The number of the root that was placed, if one was. -/
  | placed (index : Option Nat)
  /-- How many cycles took place. -/
  | ran (cycles : UInt64)
  | replaced (result : Except Snapshot.Defect Unit)

namespace World

def perform (w : World) : Request → World × Answer
  | .load start words => (w.load (.ofUInt64 start) words, .done)
  | .plant start words =>
    let (w, index) := w.plant (.ofUInt64 start) words
    (w, .placed index)
  | .addRoot ip =>
    let (w, index) := w.addRoot (.ofUInt64 ip)
    (w, .placed index)
  | .step => (w.step, .done)
  | .run n =>
    let before := w.cycles
    let w := w.run n.toNat
    (w, .ran (w.cycles - before))
  | .setRate rate => (w.setRate rate, .done)
  | .setMaxAge maxAge => (w.setMaxAge maxAge, .done)
  | .reset => (w.reset, .done)
  | .replace s =>
    let (w, result) := w.replace s
    (w, .replaced result)

/-- The world after a list of requests. -/
def performAll (w : World) (rs : List Request) : World :=
  rs.foldl (fun w r => (w.perform r).1) w

/-- The answers to a list of requests, in order. -/
def answers (w : World) : List Request → List Answer
  | [] => []
  | r :: rs => (w.perform r).2 :: (w.perform r).1.answers rs

end World

end Vivarium
