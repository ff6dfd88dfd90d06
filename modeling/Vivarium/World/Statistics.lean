import Vivarium.World.Basic

/-!
# Figures of a population

Dead members do not count in any of them.
-/

namespace Vivarium

/-- What is reported of a world. The mean age of nobody is zero. -/
structure Statistics where
  cycle : UInt64
  population : UInt64
  mutations : UInt64
  maxDepth : UInt32
  meanAge : Binary64
  ownedCells : UInt64
deriving DecidableEq

/-- The mean of ages, from their sum as far as 64 bits hold it. -/
def meanAge (ages : List UInt64) : Binary64 :=
  if ages.isEmpty then .zero
  else
    let sum := ages.foldl (fun n age => n + age.toNat) 0
    (Binary64.ofNat (min sum (UInt64.size - 1))).divNat ages.length

def World.statistics (w : World) : Statistics :=
  let alive := w.population.toList.filter (·.alive)
  { cycle := w.cycles
    population := UInt64.ofNat alive.length
    mutations := w.habitat.mutations
    maxDepth := (alive.map (·.depth)).foldl max 0
    meanAge := meanAge (alive.map (·.age))
    ownedCells := UInt64.ofNat w.memory.ownedCount }

/-- The smallest and the largest count of a history. -/
def countRange (history : List UInt32) : Option (UInt32 × UInt32) :=
  match history with
  | [] => none
  | n :: ns => some (ns.foldl min n, ns.foldl max n)

end Vivarium
