import Vivarium.Execution.Outcome
import Vivarium.World.Basic

/-!
# Cycles

In a cycle every organism that is alive at its start has one turn, in order of birth. Children join
the population at once and have their first turn in the next cycle; the dead leave it at the start
of the next cycle.

* `World.turn` : the turn of one organism;
* `World.step` : a cycle, or only the removal of the dead if nobody lives;
* `World.run` : cycles until a number is reached or nobody lives, and `World.duration`, their number;
* `World.step_of_extinct`, `World.step_of_living` : a cycle without anybody alive, and with somebody;
* `World.cycles_run` : a run counts its cycles.
-/

namespace Vivarium

namespace Organism

/-- The part of a turn in which the organism acts on its habitat. An organism that cannot read its
instruction dies. -/
def perform (o : Organism) (h : Habitat) : Outcome :=
  match h.memory.read o.ip with
  | .ok w => (Instruction.ofWord w).execute o h
  | .error _ => ⟨o.kill, h, .next, none⟩

theorem perform_of_act {o : Organism} {h : Habitat} {out : Outcome} (e : o.act h = .ok out) :
    o.perform h = out := by
  cases hr : h.memory.read o.ip with
  | error e' => simp [act, hr] at e
  | ok w => simpa [act, perform, hr] using e

/-- The end of a turn: the pointer moves, a turn is counted, and the age limit is applied. -/
def endTurn (o : Organism) (s : Settings) (flow : Flow) : Organism :=
  let age := o.age + 1
  { o with ip := (flow.target o.here).toUInt64, age := age, alive := o.alive && !s.expired age }

end Organism

namespace World

/-- A child of `parent` at the cell where it asked for one, if it did and there is room. -/
def bear (w : World) (parent : Organism) : Option Address → World
  | none => w
  | some a =>
    if w.hasRoom then
      let (o, lineage) := parent.child a w.lineage
      { w with population := w.population.push o, lineage := lineage }
    else w

/-- What follows an organism's action: its child, and the end of its turn under the settings that
the action left. -/
def settle (w : World) (i : Nat) (out : Outcome) : World :=
  let w := w.bear out.organism out.birth
  { w with
    population := w.population.setIfInBounds i (out.organism.endTurn w.settings out.flow) }

/-- The turn of organism `i`. -/
def turn (w : World) (i : Nat) : World :=
  match w with
  | ⟨habitat, population, lineage, cap, cycles, history, capacity⟩ =>
    match population[i]? with
    | none => ⟨habitat, population, lineage, cap, cycles, history, capacity⟩
    | some o =>
      let out := o.perform habitat
      settle ⟨out.habitat, population.setIfInBounds i out.organism, lineage, cap, cycles, history,
        capacity⟩ i out

theorem turn_eq {w : World} {i : Nat} {o : Organism} (h : w.population[i]? = some o) :
    w.turn i =
      settle { w with
        habitat := (o.perform w.habitat).habitat
        population := w.population.setIfInBounds i (o.perform w.habitat).organism }
        i (o.perform w.habitat) := by
  cases w
  simp only [turn] at *
  simp only [h]

theorem turn_eq_self {w : World} {i : Nat} (h : w.population[i]? = none) : w.turn i = w := by
  cases w
  simp only [turn] at *
  simp only [h]

/-- The population without its dead. -/
def reap (w : World) : World := { w with population := w.population.filter (·.alive) }

/-- The newest counts, as many as are kept. -/
def keepNewest (capacity : UInt64) (counts : List UInt32) : List UInt32 :=
  counts.drop (counts.length - capacity.toNat)

/-- Counts a cycle and records how many are alive. -/
def record (w : World) : World :=
  let count := UInt32.ofNat (min w.livingCount (UInt32.size - 1))
  { w with
    cycles := w.cycles + 1
    history := keepNewest w.historyCapacity (w.history ++ [count]) }

def step (w : World) : World :=
  let w := w.reap
  if w.population.isEmpty then w
  else ((List.range w.population.size).foldl turn w).record

/-- At most that many cycles, and none once nobody lives. -/
def run : Nat → World → World
  | 0, w => w
  | n + 1, w => if w.extinct then w else run n w.step

/-- The number of cycles that take place in a run of at most `n`. -/
def duration : Nat → World → Nat
  | 0, _ => 0
  | n + 1, w => if w.extinct then 0 else duration n w.step + 1

/-! ## Laws -/

/-- A turn leaves the cap and the record of cycles alone. -/
theorem turn_record (w : World) (i : Nat) :
    (w.turn i).cap = w.cap ∧ (w.turn i).cycles = w.cycles ∧ (w.turn i).history = w.history ∧
      (w.turn i).historyCapacity = w.historyCapacity := by
  cases h : w.population[i]? with
  | none =>
    rw [turn_eq_self h]
    exact ⟨rfl, rfl, rfl, rfl⟩
  | some o =>
    rw [turn_eq h, settle]
    cases (o.perform w.habitat).birth with
    | none => exact ⟨rfl, rfl, rfl, rfl⟩
    | some a =>
      unfold bear
      simp only
      split <;> exact ⟨rfl, rfl, rfl, rfl⟩

/-- What every turn preserves, a row of turns preserves. -/
theorem foldl_turn_induction {P : World → Prop} (hturn : ∀ w i, P w → P (w.turn i))
    (is : List Nat) {w : World} (hw : P w) : P (is.foldl turn w) := by
  induction is generalizing w with
  | nil => exact hw
  | cons i is ih => exact ih (hturn w i hw)

theorem size_reap (w : World) : w.reap.population.size = w.livingCount := by
  rw [reap, livingCount, Array.countP_eq_size_filter]

theorem step_of_extinct {w : World} (h : w.extinct = true) : w.step = w.reap := by
  have hempty : w.reap.population.isEmpty = true := by
    rw [Array.isEmpty, size_reap, decide_eq_true_eq]
    exact beq_iff_eq.mp h
  simp only [step, hempty, if_true]

theorem step_of_living {w : World} (h : w.extinct = false) :
    w.step = ((List.range w.livingCount).foldl turn w.reap).record := by
  have hempty : w.reap.population.isEmpty = false := by
    rw [Array.isEmpty, size_reap, decide_eq_false_iff_not]
    exact beq_eq_false_iff_ne.mp h
  simp only [step, hempty, size_reap, Bool.false_eq_true, if_false]

/-- A cycle is counted if somebody is alive at its start. -/
theorem cycles_step {w : World} (h : w.extinct = false) : w.step.cycles = w.cycles + 1 := by
  have hturns : ((List.range w.livingCount).foldl turn w.reap).cycles = w.cycles :=
    foldl_turn_induction (P := fun v => v.cycles = w.cycles)
      (fun v i hv => (turn_record v i).2.1.trans hv) _ rfl
  rw [step_of_living h, record, hturns]

theorem run_of_extinct {w : World} (h : w.extinct = true) (n : Nat) : run n w = w := by
  cases n <;> simp [run, h]

theorem run_add (m n : Nat) (w : World) : run (m + n) w = run n (run m w) := by
  induction m generalizing w with
  | zero => simp [run]
  | succ m ih =>
    rw [Nat.add_right_comm]
    by_cases h : w.extinct = true
    · rw [run_of_extinct h, run_of_extinct h, run_of_extinct h]
    · simp [run, h, ih]

theorem duration_le (n : Nat) (w : World) : duration n w ≤ n := by
  induction n generalizing w with
  | zero => exact Nat.le_refl 0
  | succ n ih =>
    rw [duration]
    split
    · exact Nat.zero_le _
    · exact Nat.succ_le_succ (ih w.step)

/-- A run that leaves somebody alive has not ended early. -/
theorem duration_of_living {n : Nat} {w : World} (h : (run n w).extinct = false) :
    duration n w = n := by
  induction n generalizing w with
  | zero => rfl
  | succ n ih =>
    cases hl : w.extinct with
    | true =>
      rw [run_of_extinct hl, hl] at h
      cases h
    | false =>
      rw [run, hl, if_neg Bool.false_ne_true] at h
      rw [duration, hl, if_neg Bool.false_ne_true, ih h]

theorem cycles_run (n : Nat) (w : World) : (run n w).cycles = w.cycles + .ofNat (duration n w) := by
  induction n generalizing w with
  | zero => exact (UInt64.add_zero _).symm
  | succ n ih =>
    cases hl : w.extinct with
    | true =>
      rw [run_of_extinct hl, duration, hl, if_pos rfl]
      exact (UInt64.add_zero _).symm
    | false =>
      rw [run, duration, hl, if_neg Bool.false_ne_true, if_neg Bool.false_ne_true, ih, cycles_step hl,
        UInt64.ofNat_add, UInt64.add_assoc, UInt64.add_comm 1]
      rfl

/-- The counter moves by the number of cycles that took place, also where it wraps. -/
theorem cycles_run_sub (n : Nat) (w : World) :
    (run n w).cycles - w.cycles = .ofNat (duration n w) := by
  rw [cycles_run, UInt64.add_comm, UInt64.add_sub_cancel]

end World

end Vivarium
