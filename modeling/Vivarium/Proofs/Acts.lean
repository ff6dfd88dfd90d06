import Vivarium.Proofs.Chronicle

/-!
# The acts of a run

In its turn an organism acts in the habitat as it finds it. The acts of a run, in the order in which
they take place, tell all that happens to the habitat.

* `Act` : an organism about to act, with its habitat; `Act.writes` : the writes among acts;
* `Act.Chain` : acts in the habitats that the ones before have left;
* `World.acts`, `World.actsIn` : the acts of the next cycle, and of cycles one after another;
* `World.writesIn` : the writes of `n` cycles;
* `World.chain_acts`, `World.chain_run` : the acts of a cycle and of a run form a chain from the first
  habitat to the last;
* `World.sound_of_mem_actsIn` : in a sound world only sound organisms act, in sound habitats.
-/

namespace Vivarium

/-- An organism about to act, and the habitat that it finds. -/
structure Act where
  organism : Organism
  habitat : Habitat

namespace Act

/-- The instruction in the organism's own cell. -/
def instruction (x : Act) : Instruction := .ofWord (x.habitat.memory.word x.organism.here)

/-- What comes of it. -/
def outcome (x : Act) : Outcome := x.organism.perform x.habitat

def writing (x : Act) : Option Write := x.organism.writing x.habitat

/-- The number of the command that the instruction gives to the world, if it gives one. -/
def command? (x : Act) : Option Int :=
  if x.instruction.opcode? = some .sys then
    some (x.instruction.a.read x.organism x.habitat.memory).toInt
  else none

/-- The writes among acts, in order. -/
def writes (xs : List Act) : List Write := xs.filterMap writing

/-- Every act takes place in the habitat that the one before has left, the first in `h`, and the last
leaves `k`. -/
def Chain : Habitat → List Act → Habitat → Prop
  | h, [], k => k = h
  | h, x :: xs, k => x.habitat = h ∧ Chain x.outcome.habitat xs k

theorem writes_append (xs ys : List Act) : writes (xs ++ ys) = writes xs ++ writes ys :=
  List.filterMap_append

theorem writes_cons (x : Act) (xs : List Act) : writes (x :: xs) = x.writing.toList ++ writes xs := by
  unfold writes
  rw [List.filterMap_cons]
  cases x.writing <;> rfl

theorem outcome_eq {x : Act} (hx : x.organism.Sound) :
    x.outcome = x.instruction.execute x.organism x.habitat :=
  Organism.perform_eq x.habitat hx.ip

theorem Chain.append {xs ys : List Act} {h k l : Habitat} (hxs : Chain h xs k) (hys : Chain k ys l) :
    Chain h (xs ++ ys) l := by
  induction xs generalizing h with
  | nil =>
    obtain rfl : k = h := hxs
    exact hys
  | cons x xs ih => exact ⟨hxs.1, ih hxs.2⟩

end Act

namespace World

/-- The act of organism `i`, if its turn comes now. -/
def act? (w : World) (i : Nat) : Option Act := w.population[i]?.map (Act.mk · w.habitat)

/-- The acts of organisms that have their turns one after another. -/
def actsBy : List Nat → World → List Act
  | [], _ => []
  | i :: is, w => (w.act? i).toList ++ actsBy is (w.turn i)

/-- The acts of the next cycle. -/
def acts (w : World) : List Act := actsBy (List.range w.livingCount) w.reap

/-- The acts of `n` cycles. -/
def actsIn : Nat → World → List Act
  | 0, _ => []
  | n + 1, w => w.acts ++ actsIn n w.step

/-- The writes of `n` cycles. -/
def writesIn (n : Nat) (w : World) : List Write := Act.writes (actsIn n w)

variable {w : World}

/-! ## Chains -/

theorem act?_of_some {i : Nat} {o : Organism} (h : w.population[i]? = some o) :
    w.act? i = some ⟨o, w.habitat⟩ := by
  rw [act?, h]
  rfl

theorem act?_of_none {i : Nat} (h : w.population[i]? = none) : w.act? i = none := by
  rw [act?, h]
  rfl

theorem chain_turn (w : World) (i : Nat) :
    Act.Chain w.habitat (w.act? i).toList (w.turn i).habitat := by
  cases h : w.population[i]? with
  | none =>
    rw [act?_of_none h, turn_eq_self h]
    exact rfl
  | some o =>
    rw [act?_of_some h, turn_eq_parts h]
    exact ⟨rfl, rfl⟩

theorem chain_actsBy (is : List Nat) (w : World) :
    Act.Chain w.habitat (actsBy is w) (is.foldl turn w).habitat := by
  induction is generalizing w with
  | nil => exact rfl
  | cons i is ih => exact (chain_turn w i).append (ih (w.turn i))

/-- If nobody lives, nobody acts. -/
theorem acts_of_extinct (hl : w.extinct = true) : w.acts = [] := by
  rw [acts, beq_iff_eq.mp hl]
  rfl

theorem chain_acts (w : World) : Act.Chain w.habitat w.acts w.step.habitat := by
  cases hl : w.extinct with
  | true =>
    rw [acts_of_extinct hl, step_of_extinct hl]
    exact rfl
  | false =>
    rw [step_of_living hl]
    exact chain_actsBy (List.range w.livingCount) w.reap

/-- A world in which nobody lives goes on without any acts. -/
theorem actsIn_of_extinct (hl : w.extinct = true) (n : Nat) : w.actsIn n = [] := by
  induction n generalizing w with
  | zero => rfl
  | succ n ih =>
    have hstep : w.step.extinct = true := by
      rw [step_of_extinct hl, extinct, livingCount_reap]
      exact hl
    rw [actsIn, acts_of_extinct hl, ih hstep, List.nil_append]

/-- A run that ends because nobody lives any more has had all acts that there would have been. -/
theorem chain_run (n : Nat) (w : World) : Act.Chain w.habitat (w.actsIn n) (w.run n).habitat := by
  induction n generalizing w with
  | zero => exact rfl
  | succ n ih =>
    cases hl : w.extinct with
    | true =>
      rw [actsIn_of_extinct hl, run_of_extinct hl]
      exact rfl
    | false =>
      rw [run, hl, if_neg Bool.false_ne_true]
      exact (chain_acts w).append (ih w.step)

/-! ## Sound acts -/

theorem sound_of_mem_actsBy {is : List Nat} (hw : w.Sound) {x : Act} (hx : x ∈ actsBy is w) :
    x.organism.Sound ∧ x.habitat.Sound := by
  induction is generalizing w with
  | nil => cases hx
  | cons i is ih =>
    rcases List.mem_append.mp hx with hx | hx
    · obtain ⟨o, ho, rfl⟩ := Option.map_eq_some_iff.mp (Option.mem_toList.mp hx)
      exact ⟨hw.members o (Array.mem_of_getElem? ho), hw.habitat⟩
    · exact ih (sound_turn hw i) hx

theorem sound_of_mem_actsIn {n : Nat} (hw : w.Sound) {x : Act} (hx : x ∈ w.actsIn n) :
    x.organism.Sound ∧ x.habitat.Sound := by
  induction n generalizing w with
  | zero => cases hx
  | succ n ih =>
    rcases List.mem_append.mp hx with hx | hx
    · exact sound_of_mem_actsBy (sound_reap hw) hx
    · exact ih (sound_step hw) hx

end World

end Vivarium
