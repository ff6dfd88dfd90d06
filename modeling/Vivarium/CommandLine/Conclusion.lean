import Vivarium.CommandLine.Failure
import Vivarium.CommandLine.Invocation
import Vivarium.Instruction.Listing
import Vivarium.Report
import Vivarium.World.Cycle

/-!
# What comes of an invocation

An invocation reads at most one file, prints, and writes at most one file at the end. What it reads
is handed in and what it writes is handed back, so that only the outermost layer touches files.

* `Invocation.source?` : the path that is read;
* `Invocation.conclusion` : what is printed and what is to be written, given what was read.
-/

namespace Vivarium.CommandLine

/-- A file to be written, and what is printed once it has been. -/
structure Delivery where
  path : String
  bytes : List UInt8
  receipt : String

/-- What is printed, and how it ends: with an error, with a file to be written, or with neither. -/
structure Conclusion where
  printed : String
  ending : Except Failure (Option Delivery)

def Conclusion.failed (f : Failure) : Conclusion := ⟨"", .error f⟩

/-! ## Loading -/

/-- The world of a snapshot file. -/
def loadWorld (path : String) (content : Except FileFault (List UInt8)) : Except Failure World :=
  match content with
  | .error e => .error (.reading path e)
  | .ok bytes =>
    match Snapshot.ofBytes bytes with
    | .error e => .error (.decoding path e)
    | .ok s =>
      match World.ofSnapshot s with
      | .error d => .error ⟨d.message, []⟩
      | .ok w => .ok w

/-! ## Running -/

namespace RunOptions

def config (o : RunOptions) : Config :=
  let c := Config.default
  let c := (o.seed.map c.withSeed).getD c
  let c := (o.rate.map c.withRate).getD c
  (o.maxAge.map c.withMaxAge).getD c

/-- The world to start from, and what is printed about it. -/
def prepare (o : RunOptions) (content : Except FileFault (List UInt8)) (entropy : UInt64) :
    Except Failure (World × String) :=
  match o.resume with
  | some path =>
    match loadWorld path content with
    | .error f => .error f
    | .ok w =>
      let w := (o.rate.map w.setRate).getD w
      let w := (o.maxAge.map w.setMaxAge).getD w
      .ok (w, Report.resumed path w)
  | none =>
    match o.ancestor.plantIn (.ofConfig o.config entropy) with
    | .error r => .error ⟨r.message, []⟩
    | .ok w => .ok (w, Report.planted o.ancestor.start o.ancestor.length o.ancestor.offset.toInt)

end RunOptions

/-- The cycles of the next batch: at least one, and no more than remain. -/
def nextBatch (batch remaining : UInt64) : UInt64 := min (max batch 1) remaining

theorem nextBatch_le (batch remaining : UInt64) : nextBatch batch remaining ≤ remaining := by
  show (if max batch 1 ≤ remaining then max batch 1 else remaining) ≤ remaining
  split
  · assumption
  · exact UInt64.le_refl remaining

theorem nextBatch_pos (batch : UInt64) {remaining : UInt64} (h : remaining ≠ 0) :
    0 < nextBatch batch remaining := by
  show 0 < if max batch 1 ≤ remaining then max batch 1 else remaining
  split
  · show 0 < if batch ≤ 1 then 1 else batch
    split
    · decide
    · next h1 => exact UInt64.lt_trans (by decide) (UInt64.not_le.mp h1)
  · exact UInt64.pos_iff_ne_zero.mpr h

/-- A batch that leaves somebody alive has run in full. -/
theorem executed_of_living {batch remaining : UInt64} {w : World}
    (h : (w.run (nextBatch batch remaining).toNat).extinct = false) :
    (w.run (nextBatch batch remaining).toNat).cycles - w.cycles = nextBatch batch remaining := by
  rw [World.cycles_run_sub, World.duration_of_living h, UInt64.ofNat_toNat]

/-- So it is taken as a whole from what remains. -/
theorem remaining_of_living {batch remaining : UInt64} {w : World}
    (h : (w.run (nextBatch batch remaining).toNat).extinct = false) :
    remaining - min ((w.run (nextBatch batch remaining).toNat).cycles - w.cycles) remaining =
      remaining - nextBatch batch remaining := by
  have hmin : min (nextBatch batch remaining) remaining = nextBatch batch remaining :=
    if_pos (nextBatch_le batch remaining)
  rw [executed_of_living h, hmin]

theorem toNat_sub_nextBatch (batch remaining : UInt64) :
    (remaining - nextBatch batch remaining).toNat =
      remaining.toNat - (nextBatch batch remaining).toNat :=
  UInt64.toNat_sub_of_le _ _ (nextBatch_le batch remaining)

theorem remaining_lt {batch remaining : UInt64} {w : World} (hr : ¬remaining = 0)
    (h : ¬(w.run (nextBatch batch remaining).toNat).extinct = true) :
    (remaining - min ((w.run (nextBatch batch remaining).toNat).cycles - w.cycles) remaining).toNat
      < remaining.toNat := by
  have hpos := UInt64.lt_iff_toNat_lt.mp (nextBatch_pos batch hr)
  have hle := UInt64.le_iff_toNat_le.mp (nextBatch_le batch remaining)
  rw [remaining_of_living (Bool.not_eq_true _ ▸ h), toNat_sub_nextBatch]
  exact Nat.sub_lt (Nat.lt_of_lt_of_le hpos hle) hpos

/-- Runs a number of cycles in batches, with a report after each. What a batch has added to the
count of cycles is taken from what remains. Nothing follows the extinction of the population. -/
def runBatches (batch : UInt64) (w : World) (remaining : UInt64) : World × List String :=
  if remaining = 0 then (w, [])
  else
    let v := w.run (nextBatch batch remaining).toNat
    if v.extinct then (v, [Report.batch v, Report.extinct v])
    else
      let executed := v.cycles - w.cycles
      let (last, reports) := runBatches batch v (remaining - min executed remaining)
      (last, Report.batch v :: reports)
termination_by remaining.toNat
decreasing_by exact remaining_lt ‹_› ‹_›

def RunOptions.conclusion (o : RunOptions) (content : Except FileFault (List UInt8))
    (entropy : UInt64) : Conclusion :=
  match o.prepare content entropy with
  | .error f => .failed f
  | .ok (w, opening) =>
    let (w, reports) := runBatches o.batch w o.cycles
    let delivery := o.save.map fun path => ⟨path, w.snapshot.toBytes, Report.saved path w⟩
    ⟨opening ++ String.join reports, .ok delivery⟩

/-! ## Inspecting -/

def InspectOptions.conclusion (o : InspectOptions) (content : Except FileFault (List UInt8)) :
    Conclusion :=
  match Address.check o.start with
  | .error e => .failed ⟨e.message, []⟩
  | .ok start =>
    match loadWorld o.file content with
    | .error f => .failed f
    | .ok w =>
      let words := w.memory.window start (min o.count.toNat Address.count)
      ⟨w.statistics.summary ++ "\n" ++ Report.history w.history ++ "\n" ++ Listing.text start words,
        .ok none⟩

/-! ## Invocations -/

namespace Invocation

def source? : Invocation → Option String
  | run o => o.resume
  | inspect o => some o.file

/-- `content` is what was read from the source; `entropy` is the seed where none is given. -/
def conclusion (i : Invocation) (content : Except FileFault (List UInt8)) (entropy : UInt64) :
    Conclusion :=
  match i with
  | run o => o.conclusion content entropy
  | inspect o => o.conclusion content

end Invocation

end Vivarium.CommandLine
