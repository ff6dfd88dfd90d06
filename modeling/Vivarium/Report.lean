import Vivarium.Binary64.Decimal
import Vivarium.World.Statistics

/-!
# Reports

The lines that a run prints as it goes, and the summary of a saved world.
-/

namespace Vivarium

/-- The figures one below the other. -/
def Statistics.summary (s : Statistics) : String :=
  s!"cycle:        {s.cycle}\n" ++
  s!"population:   {s.population}\n" ++
  s!"mutations:    {s.mutations}\n" ++
  s!"max depth:    {s.maxDepth}\n" ++
  s!"mean age:     {s.meanAge.tenths}\n" ++
  s!"owned cells:  {s.ownedCells}"

namespace Report

/-- What a history says, if it says anything. -/
def history (counts : List UInt32) : String :=
  match countRange counts with
  | none => ""
  | some (low, high) =>
    s!"history:      {counts.length} samples, population {low}..={high}\n"

def planted (start length : UInt64) (offset : Int) : String :=
  s!"INFO biota: seeded ancestor start={start} length={length} offset={offset}\n"

def resumed (path : String) (w : World) : String :=
  s!"INFO biota: resumed snapshot path={path} cycle={w.cycles} population={w.livingCount}\n"

/-- The figures after some cycles, with the range of the counts that are still remembered. -/
def batch (w : World) : String :=
  let s := w.statistics
  let (low, high) := (countRange w.history).getD (0, 0)
  s!"INFO biota::report: batch complete cycle={s.cycle} population={s.population} " ++
  s!"mutations={s.mutations} max_depth={s.maxDepth} mean_age={s.meanAge.tenths} " ++
  s!"owned={s.ownedCells} recent_low={low} recent_high={high}\n"

def extinct (w : World) : String := s!"WARN biota: population extinct cycle={w.cycles}\n"

def saved (path : String) (w : World) : String :=
  s!"INFO biota: snapshot saved path={path} cycle={w.cycles}\n"

end Report

end Vivarium
