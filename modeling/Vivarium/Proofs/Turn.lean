import Mathlib.Tactic
import Vivarium.Proofs.Probability
import Vivarium.World.Cycle

/-!
# What one turn does

Everything later is derived from the statements here, and no other module opens a turn.

* `Organism.Keeps`, `Organism.keeps_perform` : what an organism keeps while it acts;
* `Habitat.Follows`, `Habitat.follows_perform` : what an action leaves of the habitat;
* `World.offspring` : the child that is born in a turn, and the lineage stream after it;
* `World.turn_eq_parts` : a turn changes the habitat, the organism's own entry and the lineage
  stream, and adds at most one entry behind the others;
* `World.turn_of_no_birth`, `World.step_of_all_alive` : turns without a birth, and cycles without the dead.
-/

namespace Vivarium

/-! ## Acting -/

/-- What an organism keeps when it acts: all but its registers, and its life at most as it was. -/
structure Organism.Keeps (o p : Organism) : Prop where
  ip : p.ip = o.ip
  age : p.age = o.age
  depth : p.depth = o.depth
  hue : p.hue = o.hue
  alive : p.alive = true → o.alive = true

/-- What an action of an organism of that hue leaves of the habitat `h`: the soup with at most one
cell written, and the settings with at most one knob turned. -/
structure Habitat.Follows (hue : Hue) (h k : Habitat) : Prop where
  memory : k.memory = h.memory ∨ ∃ a v, k.memory = h.memory.set a ⟨v, some hue⟩
  settings : k.settings = h.settings ∨ ∃ command argument,
    k.settings = h.settings.tune command argument

theorem Organism.keeps_refl (o : Organism) : o.Keeps o := ⟨rfl, rfl, rfl, rfl, id⟩

theorem Organism.keeps_kill (o : Organism) : o.Keeps o.kill :=
  ⟨rfl, rfl, rfl, rfl, fun h => by cases h⟩

theorem Habitat.follows_of_eq {hue : Hue} {h k : Habitat} (hm : k.memory = h.memory)
    (hs : k.settings = h.settings) : Follows hue h k :=
  ⟨Or.inl hm, Or.inl hs⟩

theorem Habitat.follows_write (h : Habitat) (a : Address) (v : Word) (hue : Hue) :
    Follows hue h (h.write a v hue) :=
  ⟨Or.inr ⟨a, h.altered v, memory_write h a v hue⟩, Or.inl (settings_write h a v hue)⟩

/-- At a rate of zero a write stores the word as it is and takes one draw. -/
theorem Habitat.write_of_rate_zero {h : Habitat} (hr : h.settings.rate.equal .zero = true)
    (a : Address) (v : Word) (hue : Hue) :
    h.write a v hue =
      ⟨h.memory.set a ⟨v, some hue⟩, h.stream.fraction.2, h.settings, h.mutations⟩ := by
  refine write_of_not_exceeds ?_ a v hue
  rw [Binary64.exceedsDraw_of_equal_zero hr]
  exact Bool.false_ne_true

namespace Effect

theorem keeps_apply (e : Effect) (o : Organism) (h : Habitat) :
    o.Keeps (e.apply o h).organism := by
  cases e with
  | die => exact o.keeps_kill
  | assign r v => exact ⟨rfl, rfl, rfl, rfl, id⟩
  | pass | store | jump | skip | spawn | tune => exact o.keeps_refl

theorem follows_apply (e : Effect) (o : Organism) (h : Habitat) :
    Habitat.Follows o.hue h (e.apply o h).habitat := by
  cases e with
  | store a v => exact Habitat.follows_write h a v o.hue
  | tune command argument => exact ⟨Or.inl rfl, Or.inr ⟨command, argument, rfl⟩⟩
  | pass | assign | jump | skip | spawn | die => exact Habitat.follows_of_eq rfl rfl

end Effect

namespace Instruction

theorem keeps_execute (i : Instruction) (o : Organism) (h : Habitat) :
    o.Keeps (i.execute o h).organism := by
  rw [execute_eq]
  exact Effect.keeps_apply _ _ _

theorem follows_execute (i : Instruction) (o : Organism) (h : Habitat) :
    Habitat.Follows o.hue h (i.execute o h).habitat := by
  rw [execute_eq]
  -- The draw moves the stream alone, which `Follows` does not speak about.
  obtain ⟨hm, hs⟩ := Effect.follows_apply (i.effect o h.memory (i.draw h.stream).1) o
    { h with stream := (i.draw h.stream).2 }
  exact ⟨hm, hs⟩

end Instruction

namespace Organism

theorem read_here {o : Organism} (m : Memory) (ho : o.ip.toNat < Address.count) :
    m.read o.ip = .ok (m.word o.here) := by
  rw [Memory.read, if_pos ho, here]

/-- An organism inside the ring carries out the one instruction in its cell. -/
theorem perform_eq {o : Organism} (h : Habitat) (ho : o.ip.toNat < Address.count) :
    o.perform h = (Instruction.ofWord (h.memory.word o.here)).execute o h :=
  perform_of_act (by rw [act, read_here h.memory ho])

/-- An instruction that takes no draw is carried out in the habitat as it is. -/
theorem perform_of_new {o : Organism} {h : Habitat} {op : Opcode} {a b : Operand}
    (ho : o.ip.toNat < Address.count)
    (hi : Instruction.ofWord (h.memory.word o.here) = .new op a b) (hop : op ≠ .rand) :
    o.perform h = ((Instruction.new op a b).effect o h.memory 0).apply o h := by
  have hrand : (Instruction.new op a b).opcode? ≠ some .rand := by
    rw [Instruction.opcode?_new]
    exact fun heq => hop (Option.some.inj heq)
  rw [perform_eq h ho, hi, Instruction.execute_of_ne_rand hrand]

theorem keeps_perform (o : Organism) (h : Habitat) : o.Keeps (o.perform h).organism := by
  unfold perform
  split
  · exact Instruction.keeps_execute _ _ _
  · exact o.keeps_kill

end Organism

theorem Habitat.follows_perform (o : Organism) (h : Habitat) :
    Follows o.hue h (o.perform h).habitat := by
  unfold Organism.perform
  split
  · exact Instruction.follows_execute _ _ _
  · exact follows_of_eq rfl rfl

/-! ## The end of a turn -/

namespace Organism

/-- What becomes of an organism in its turn. -/
def afterTurn (o : Organism) (h : Habitat) : Organism :=
  (o.perform h).organism.endTurn (o.perform h).habitat.settings (o.perform h).flow

variable (o : Organism) (h : Habitat)

theorem age_afterTurn : (o.afterTurn h).age = o.age + 1 := by
  rw [← (o.keeps_perform h).age]
  rfl

theorem depth_afterTurn : (o.afterTurn h).depth = o.depth := (o.keeps_perform h).depth

theorem hue_afterTurn : (o.afterTurn h).hue = o.hue := (o.keeps_perform h).hue

/-- Nobody is alive after a turn who was not alive after the action in it. -/
theorem alive_of_alive_afterTurn (ha : (o.afterTurn h).alive = true) :
    (o.perform h).organism.alive = true := by
  simp only [afterTurn, endTurn, Bool.and_eq_true] at ha
  exact ha.1

theorem ip_afterTurn_lt : (o.afterTurn h).ip.toNat < Address.count :=
  Address.toNat_toUInt64_lt _

end Organism

/-! ## Births -/

namespace World

/-- The child of a parent that asked for one at that cell, if there is room, and the lineage stream
after its hue is drawn. -/
def childOf (w : World) (parent : Organism) : Option Address → Option Organism × Stream
  | none => (none, w.lineage)
  | some a =>
    if w.hasRoom then
      (some (parent.child a w.lineage).1, (parent.child a w.lineage).2)
    else (none, w.lineage)

theorem bear_eq (w : World) (parent : Organism) (birth : Option Address) :
    w.bear parent birth = { w with
      population := w.population ++ (w.childOf parent birth).1.toArray
      lineage := (w.childOf parent birth).2 } := by
  cases birth with
  | none => simp [bear, childOf]
  | some a =>
    unfold bear childOf
    split_ifs <;> simp

/-- A child lies where it was asked for and has lived nothing, and there was room for it. -/
theorem childOf_eq_some {w : World} {parent c : Organism} {birth : Option Address}
    (h : (w.childOf parent birth).1 = some c) :
    w.hasRoom = true ∧ ∃ a, birth = some a ∧
      c = Organism.newborn a (Organism.nextDepth parent.depth) (parent.hue.drift w.lineage).1 := by
  cases birth with
  | none => cases h
  | some a =>
    unfold childOf at h
    split_ifs at h with hroom
    · exact ⟨hroom, a, rfl, (Option.some.inj h).symm⟩

theorem isSome_childOf_iff (w : World) (parent : Organism) (birth : Option Address) :
    (w.childOf parent birth).1.isSome = true ↔ birth.isSome = true ∧ w.hasRoom = true := by
  cases birth with
  | none => simp [childOf]
  | some a =>
    unfold childOf
    split_ifs with hroom <;> simp [hroom]

/-- Nothing changes if an entry is put where it stands already. -/
theorem setIfInBounds_of_getElem? {α : Type} {xs : Array α} {i : Nat} {x : α} (h : xs[i]? = some x) :
    xs.setIfInBounds i x = xs := by
  obtain ⟨hi, rfl⟩ := Array.getElem?_eq_some_iff.mp h
  rw [Array.setIfInBounds, dif_pos hi, Array.set_getElem_self]

/-- The world once organism `i`, which is `o`, has acted, and before its turn ends. -/
def acted (w : World) (i : Nat) (o : Organism) : World :=
  { w with
    habitat := (o.perform w.habitat).habitat
    population := w.population.setIfInBounds i (o.perform w.habitat).organism }

/-- The child that organism `i`, which is `o`, gets in its turn, and the lineage stream after it. -/
def offspring (w : World) (i : Nat) (o : Organism) : Option Organism × Stream :=
  (w.acted i o).childOf (o.perform w.habitat).organism (o.perform w.habitat).birth

theorem turn_eq_parts {w : World} {i : Nat} {o : Organism} (h : w.population[i]? = some o) :
    w.turn i = { w with
      habitat := (o.perform w.habitat).habitat
      population :=
        w.population.setIfInBounds i (o.afterTurn w.habitat) ++ (w.offspring i o).1.toArray
      lineage := (w.offspring i o).2 } := by
  have hi : i < w.population.size := (Array.getElem?_eq_some_iff.mp h).1
  rw [turn_eq h, settle, bear_eq]
  simp only [Array.setIfInBounds_append_left, Array.size_setIfInBounds, hi,
    Array.setIfInBounds_setIfInBounds]
  rfl

theorem turn_of_no_birth {w : World} {i : Nat} {o : Organism} (h : w.population[i]? = some o)
    (hb : (o.perform w.habitat).birth = none) :
    w.turn i = { w with
      habitat := (o.perform w.habitat).habitat
      population := w.population.setIfInBounds i (o.afterTurn w.habitat) } := by
  rw [turn_eq_parts h, offspring, hb, childOf]
  simp [acted]

theorem population_turn {w : World} {i : Nat} {o : Organism} (h : w.population[i]? = some o) :
    (w.turn i).population.toList =
      w.population.toList.set i (o.afterTurn w.habitat) ++ (w.offspring i o).1.toList := by
  rw [turn_eq_parts h]
  simp

/-! ## Cycles -/

theorem reap_of_all_alive {w : World} (h : ∀ o ∈ w.population, o.alive = true) : w.reap = w := by
  rw [reap, Array.filter_eq_self.mpr h]

/-- If nobody is dead, nobody is removed before the turns. -/
theorem step_of_all_alive {w : World} (h : ∀ o ∈ w.population, o.alive = true)
    (hne : w.population.size ≠ 0) :
    w.step = ((List.range w.population.size).foldl turn w).record := by
  have hempty : w.population.isEmpty = false := by
    rw [Array.isEmpty, decide_eq_false hne]
  simp only [step, reap_of_all_alive h, hempty, Bool.false_eq_true, if_false]

end World

end Vivarium
