import Vivarium.Memory.Tables
import Vivarium.Proofs.Probability
import Vivarium.Proofs.Turn

/-!
# Sound worlds

* `Organism.Sound`, `Habitat.Sound`, `World.Sound` : every pointer is inside the ring, every hue is
  on the colour wheel, no more organisms live than the cap allows, the history fits a capacity of at
  least one, and the rate is a probability;
* `World.sound_turn` : a turn keeps a world sound, whatever instruction is carried out in it;
* `World.sound_step`, `World.sound_run` : so do cycles.
-/

namespace Vivarium

/-- The pointer is inside the ring and the hue on the colour wheel. -/
structure Organism.Sound (o : Organism) : Prop where
  ip : o.ip.toNat < Address.count
  hue : o.hue.Valid

/-- Every owner has a valid hue, and the rate is a probability. -/
structure Habitat.Sound (h : Habitat) : Prop where
  owners : ∀ a, Memory.ValidOwner (h.memory.owner a)
  rate : h.settings.rate.Probability

/-- The invariant of worlds. The dead who are still listed count as members. -/
structure World.Sound (w : World) : Prop where
  habitat : w.habitat.Sound
  members : ∀ o ∈ w.population, o.Sound
  capped : w.livingCount ≤ w.cap.toNat
  capacity : 1 ≤ w.historyCapacity.toNat
  history : w.history.length ≤ w.historyCapacity.toNat

/-! ## Owners -/

namespace Memory

theorem validOwner_none : ValidOwner none := by
  intro h hh
  cases hh

theorem validOwner_set {m : Memory} (hm : ∀ a, ValidOwner (m.owner a)) (b : Address) {c : Cell}
    (hc : ValidOwner c.owner) (a : Address) : ValidOwner ((m.set b c).owner a) := by
  rw [owner, cell_set]
  split_ifs
  · exact hc
  · exact hm a

theorem validOwner_empty (a : Address) : ValidOwner (empty.owner a) := by
  have howner : empty.owner a = none := by simp [owner, cell, empty]
  rw [howner]
  exact validOwner_none

theorem validOwner_load {m : Memory} (hm : ∀ a, ValidOwner (m.owner a)) (b : Address)
    (ws : List Word) (a : Address) : ValidOwner ((m.load b ws).owner a) := by
  induction ws generalizing m b with
  | nil => exact hm a
  | cons v ws ih => exact ih (validOwner_set hm b validOwner_none) (b + 1)

end Memory

/-! ## Habitats -/

namespace Habitat

/-- An action leaves a sound habitat if the writer's hue is valid. -/
theorem sound_of_follows {hue : Hue} {h k : Habitat} (hf : Follows hue h k) (hh : h.Sound)
    (hv : hue.Valid) : k.Sound := by
  have howner : Memory.ValidOwner (some hue) := by
    rintro g ⟨rfl⟩
    exact hv
  refine ⟨?_, ?_⟩
  · intro b
    rcases hf.memory with hm | ⟨a, v, hm⟩
    · rw [hm]
      exact hh.owners b
    · rw [hm]
      exact Memory.validOwner_set hh.owners a howner b
  · rcases hf.settings with hs | ⟨command, argument, hs⟩
    · rw [hs]
      exact hh.rate
    · rw [hs]
      exact Settings.probability_tune hh.rate command argument

theorem sound_perform {h : Habitat} (hh : h.Sound) {o : Organism} (ho : o.Sound) :
    (o.perform h).habitat.Sound :=
  sound_of_follows (follows_perform o h) hh ho.hue

end Habitat

/-! ## Organisms -/

namespace Organism

theorem sound_newborn (a : Address) (depth : UInt32) {hue : Hue} (hv : hue.Valid) :
    (newborn a depth hue).Sound :=
  ⟨a.toNat_toUInt64_lt, hv⟩

theorem sound_root (a : Address) (lineage : Stream) : (root a lineage).1.Sound :=
  sound_newborn a 0 (Hue.valid_random lineage)

theorem sound_afterTurn {o : Organism} (ho : o.Sound) (h : Habitat) : (o.afterTurn h).Sound := by
  refine ⟨ip_afterTurn_lt o h, ?_⟩
  rw [hue_afterTurn]
  exact ho.hue

end Organism

namespace World

/-! ## Numbers of the living -/

theorem livingCount_eq (w : World) : w.livingCount = w.population.toList.countP (·.alive) := by
  rw [livingCount, Array.countP_toList]

theorem livingCount_lt_of_hasRoom {w : World} (h : w.hasRoom = true) :
    w.livingCount < w.cap.toNat := by
  simpa [hasRoom] using h

/-- Whoever joins the others, one more is alive at most. -/
theorem livingCount_push_le (w : World) (o : Organism) (lineage : Stream) :
    { w with population := w.population.push o, lineage := lineage }.livingCount ≤
      w.livingCount + 1 := by
  simp only [livingCount, Array.countP_push]
  split_ifs <;> omega

/-- Putting somebody in another's place who is alive only if the other was does not raise the
number of the living. -/
theorem countP_alive_set_le {os : List Organism} {i : Nat} {o p : Organism} (h : os[i]? = some o)
    (hp : p.alive = true → o.alive = true) :
    (os.set i p).countP (·.alive) ≤ os.countP (·.alive) := by
  obtain ⟨hi, rfl⟩ := List.getElem?_eq_some_iff.mp h
  rw [List.countP_set hi]
  have hpos : os[i].alive = true → 0 < os.countP (·.alive) := fun ha =>
    List.countP_pos_iff.mpr ⟨os[i], List.getElem_mem hi, ha⟩
  split_ifs with h1 h2 h2
  · have := hpos h1
    omega
  · omega
  · exact absurd (hp h2) h1
  · omega

/-- Before its turn ends a world counts an organism as its own action has left it. -/
theorem livingCount_turn_le {w : World} {i : Nat} {o : Organism} (h : w.population[i]? = some o) :
    (w.turn i).livingCount ≤ (w.acted i o).livingCount + (w.offspring i o).1.toList.length := by
  have hact : (w.acted i o).population.toList =
      w.population.toList.set i (o.perform w.habitat).organism := by
    simp [acted]
  have hi : i < w.population.toList.length := by
    simpa using (Array.getElem?_eq_some_iff.mp h).1
  have hat : (w.population.toList.set i (o.perform w.habitat).organism)[i]? =
      some (o.perform w.habitat).organism := by
    rw [List.getElem?_set_self hi]
  have hle := countP_alive_set_le hat (o.alive_of_alive_afterTurn w.habitat)
  rw [List.set_set] at hle
  rw [livingCount_eq, livingCount_eq, population_turn h, hact, List.countP_append]
  exact Nat.add_le_add hle List.countP_le_length

theorem livingCount_acted_le {w : World} {i : Nat} {o : Organism} (h : w.population[i]? = some o) :
    (w.acted i o).livingCount ≤ w.livingCount := by
  have hat : w.population.toList[i]? = some o := by simpa using h
  have hle := countP_alive_set_le hat (o.keeps_perform w.habitat).alive
  rw [livingCount_eq, livingCount_eq]
  simpa [acted] using hle

/-! ## Turns -/

theorem sound_offspring {w : World} {i : Nat} {o c : Organism}
    (h : (w.offspring i o).1 = some c) : c.Sound := by
  obtain ⟨-, a, -, rfl⟩ := childOf_eq_some h
  exact Organism.sound_newborn a _ (Hue.valid_drift _ _)

/-- The cap holds at every moment of a cycle: a child is born only where there is room for it. -/
theorem capped_turn {w : World} (hw : w.livingCount ≤ w.cap.toNat) {i : Nat} {o : Organism}
    (h : w.population[i]? = some o) : (w.turn i).livingCount ≤ w.cap.toNat := by
  have hturn := livingCount_turn_le h
  have hact := livingCount_acted_le h
  cases hc : (w.offspring i o).1 with
  | none =>
    rw [hc, Option.toList_none, List.length_nil] at hturn
    omega
  | some c =>
    have hroom := livingCount_lt_of_hasRoom (childOf_eq_some hc).1
    rw [hc, Option.toList_some, List.length_singleton] at hturn
    simp only [acted] at hroom hturn
    omega

theorem sound_turn {w : World} (hw : w.Sound) (i : Nat) : (w.turn i).Sound := by
  cases h : w.population[i]? with
  | none =>
    rw [turn_eq_self h]
    exact hw
  | some o =>
    obtain ⟨hcap, -, hhist, hcapacity⟩ := turn_record w i
    have ho : o.Sound := hw.members o (Array.mem_of_getElem? h)
    refine ⟨?_, ?_, ?_, ?_, ?_⟩
    · rw [turn_eq_parts h]
      exact Habitat.sound_perform hw.habitat ho
    · intro p hp
      rw [← Array.mem_toList_iff, population_turn h, List.mem_append, Option.mem_toList] at hp
      rcases hp with hp | hp
      · rcases List.mem_or_eq_of_mem_set hp with hold | rfl
        · exact hw.members p (Array.mem_toList_iff.mp hold)
        · exact Organism.sound_afterTurn ho w.habitat
      · exact sound_offspring hp
    · rw [hcap]
      exact capped_turn hw.capped h
    · rw [hcapacity]
      exact hw.capacity
    · rw [hhist, hcapacity]
      exact hw.history

/-! ## Cycles -/

theorem livingCount_reap (w : World) : w.reap.livingCount = w.livingCount := by
  simp [livingCount, reap, Array.countP_filter]

theorem sound_reap {w : World} (hw : w.Sound) : w.reap.Sound where
  habitat := hw.habitat
  members o ho := hw.members o (Array.mem_filter.mp ho).1
  capped := by
    rw [livingCount_reap]
    exact hw.capped
  capacity := hw.capacity
  history := hw.history

theorem length_keepNewest (capacity : UInt64) (counts : List UInt32) :
    (keepNewest capacity counts).length = min counts.length capacity.toNat := by
  rw [keepNewest, List.length_drop]
  omega

theorem sound_record {w : World} (hw : w.Sound) : w.record.Sound where
  habitat := hw.habitat
  members := hw.members
  capped := hw.capped
  capacity := hw.capacity
  history := by
    simp only [record, length_keepNewest]
    exact Nat.min_le_right _ _

theorem sound_step {w : World} (hw : w.Sound) : w.step.Sound := by
  cases h : w.extinct with
  | true =>
    rw [step_of_extinct h]
    exact sound_reap hw
  | false =>
    rw [step_of_living h]
    exact sound_record
      (foldl_turn_induction (P := Sound) (fun _ i hi => sound_turn hi i) _ (sound_reap hw))

theorem sound_run (n : Nat) {w : World} (hw : w.Sound) : (w.run n).Sound := by
  induction n generalizing w with
  | zero => exact hw
  | succ n ih =>
    rw [run]
    split
    · exact hw
    · exact ih (sound_step hw)

end World

end Vivarium
