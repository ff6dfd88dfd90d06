import Vivarium.Proofs.Reachability

/-!
# The order of turns

* `World.living` : the organisms that have a turn in the next cycle, in order;
* `World.Turn` : what happens in one turn; `World.Sweep` : turns one after another, each in the
  world that the one before has left;
* `World.exists_sweep` : the turns of a row of organisms form a sweep;
* `World.step_schedule` : a cycle is one sweep over the living, with the children behind them.
-/

namespace Vivarium

namespace Organism

/-- What comes of the one instruction in the organism's own cell. -/
def outcome (o : Organism) (h : Habitat) : Outcome :=
  (Instruction.ofWord (h.memory.word o.here)).execute o h

/-- A child of that parent at the cell `a`, before its first turn. -/
structure IsChild (c parent : Organism) (a : Address) : Prop where
  ip : c.ip = a.toUInt64
  registers : c.registers = Vector.replicate registerCount 0
  alive : c.alive = true
  age : c.age = 0
  depth : c.depth.toNat = min (parent.depth.toNat + 1) (2 ^ 32 - 1)

theorem toNat_nextDepth (d : UInt32) : (nextDepth d).toNat = min (d.toNat + 1) (2 ^ 32 - 1) := by
  have hlt := d.toNat_lt
  unfold nextDepth
  split_ifs with hmax
  · subst hmax
    decide
  · rw [← UInt32.toNat_inj] at hmax
    rw [UInt32.toNat_add]
    simp only [UInt32.toNat_ofNat] at hmax ⊢
    omega

end Organism

namespace World

/-- Those who are alive, in order of birth. -/
def living (w : World) : List Organism := w.population.toList.filter (·.alive)

/-- The turn of organism `i` in the world `w`. It is `o` before and `p` after it, may give birth, and
leaves the world `v`. -/
structure Turn (w : World) (i : Nat) (o p : Organism) (birth : Option Organism) (v : World) :
    Prop where
  taken : v = w.turn i
  /-- The organism is found as the cycle began with it. -/
  waiting : w.population[i]? = some o
  /-- It carries out one instruction in the habitat that it finds, and leaves its outcome. -/
  habitat : v.habitat = (o.outcome w.habitat).habitat
  result : p = (o.outcome w.habitat).organism.endTurn (o.outcome w.habitat).habitat.settings
    (o.outcome w.habitat).flow
  age : p.age = o.age + 1
  depth : p.depth = o.depth
  hue : p.hue = o.hue
  /-- Nobody else is changed. -/
  others : ∀ j, j ≠ i → j < w.population.size → v.population[j]? = w.population[j]?
  /-- A child comes last. -/
  population : v.population.toList = w.population.toList.set i p ++ birth.toList
  born : birth.isSome = true ↔
    (o.outcome w.habitat).birth.isSome = true ∧ (w.acted i o).hasRoom = true
  child : ∀ c ∈ birth, ∃ a, (o.outcome w.habitat).birth = some a ∧ c.IsChild o a

/-- Turns of the organisms from `i` on, one after another: who had them, what became of each, the
children, and the world at the end. -/
inductive Sweep : World → Nat → List Organism → List Organism → List (Option Organism) → World → Prop
  | done (w : World) (i : Nat) : Sweep w i [] [] [] w
  | turn {w v u : World} {i : Nat} {o p : Organism} {birth : Option Organism}
      {os ps : List Organism} {births : List (Option Organism)} (first : Turn w i o p birth v)
      (rest : Sweep v (i + 1) os ps births u) : Sweep w i (o :: os) (p :: ps) (birth :: births) u

/-! ## One turn -/

theorem getElem?_turn_of_ne {w : World} {i j : Nat} {o : Organism} (h : w.population[i]? = some o)
    (hne : j ≠ i) (hj : j < w.population.size) : (w.turn i).population[j]? = w.population[j]? := by
  rw [← Array.getElem?_toList, population_turn h, List.getElem?_append_left (by simpa using hj),
    List.getElem?_set_ne hne.symm, Array.getElem?_toList]

theorem isChild_offspring {w : World} {i : Nat} {o c : Organism}
    (h : (w.offspring i o).1 = some c) :
    ∃ a, (o.perform w.habitat).birth = some a ∧ c.IsChild o a := by
  obtain ⟨-, a, ha, rfl⟩ := childOf_eq_some h
  refine ⟨a, ha, rfl, rfl, rfl, rfl, ?_⟩
  rw [← (o.keeps_perform w.habitat).depth]
  exact Organism.toNat_nextDepth _

/-- An organism inside the ring has its turn as `Turn` says. -/
theorem turn_isTurn {w : World} {i : Nat} {o : Organism} (h : w.population[i]? = some o)
    (ho : o.ip.toNat < Address.count) :
    Turn w i o (o.afterTurn w.habitat) (w.offspring i o).1 (w.turn i) := by
  have hout : o.perform w.habitat = o.outcome w.habitat := Organism.perform_eq w.habitat ho
  refine ⟨?_, ?_, ?_, ?_, ?_, ?_, ?_, ?_, ?_, ?_, ?_⟩
  · rfl
  · exact h
  · rw [turn_eq_parts h, ← hout]
  · rw [← hout]
    rfl
  · exact o.age_afterTurn w.habitat
  · exact o.depth_afterTurn w.habitat
  · exact o.hue_afterTurn w.habitat
  · exact fun j hne hj => getElem?_turn_of_ne h hne hj
  · exact population_turn h
  · rw [← hout]
    exact isSome_childOf_iff _ _ _
  · intro c hc
    rw [← hout]
    exact isChild_offspring hc

/-! ## A row of turns -/

theorem set_length_append {os : List Organism} (done : List Organism) (o p : Organism) :
    (done ++ o :: os).set done.length p = done ++ p :: os := by
  rw [List.set_append_right _ _ (Nat.le_refl _), Nat.sub_self, List.set_cons_zero]

/-- The organisms that wait are between those who have had their turn and the children, so a turn
moves one of them over and puts its child at the end. -/
theorem exists_sweep (done os kids : List Organism) (w : World)
    (hpop : w.population.toList = done ++ (os ++ kids)) (hos : ∀ o ∈ os, o.ip.toNat < Address.count) :
    ∃ ps births, Sweep w done.length os ps births ((List.range' done.length os.length).foldl turn w) ∧
      ((List.range' done.length os.length).foldl turn w).population.toList =
        done ++ (ps ++ (kids ++ births.flatMap Option.toList)) := by
  induction os generalizing done kids w with
  | nil => exact ⟨[], [], .done w _, by simpa using hpop⟩
  | cons o os ih =>
    have hat : w.population[done.length]? = some o := by
      rw [← Array.getElem?_toList, hpop, List.getElem?_append_right (Nat.le_refl _), Nat.sub_self]
      rfl
    have first := turn_isTurn hat (hos o List.mem_cons_self)
    have hnext : (w.turn done.length).population.toList =
        (done ++ [o.afterTurn w.habitat]) ++
          (os ++ (kids ++ (w.offspring done.length o).1.toList)) := by
      rw [population_turn hat, hpop, List.cons_append, set_length_append]
      simp only [List.append_assoc, List.cons_append, List.nil_append]
    obtain ⟨ps, births, hsweep, hfinal⟩ := ih (done ++ [o.afterTurn w.habitat])
      (kids ++ (w.offspring done.length o).1.toList) (w.turn done.length) hnext
      fun x hx => hos x (List.mem_cons_of_mem o hx)
    rw [List.length_append, List.length_singleton] at hsweep hfinal
    refine ⟨_ :: ps, _ :: births, .turn first hsweep, ?_⟩
    rw [List.length_cons, List.range'_succ, List.foldl_cons, hfinal]
    simp only [List.append_assoc, List.cons_append, List.nil_append, List.flatMap_cons]

theorem Sweep.results {w v : World} {i : Nat} {os ps : List Organism}
    {births : List (Option Organism)} (h : Sweep w i os ps births v) :
    List.Forall₂ (fun o p => p.age = o.age + 1 ∧ p.depth = o.depth ∧ p.hue = o.hue) os ps := by
  induction h with
  | done w i => exact .nil
  | turn first _ ih => exact .cons ⟨first.age, first.depth, first.hue⟩ ih

theorem Sweep.children {w v : World} {i : Nat} {os ps : List Organism}
    {births : List (Option Organism)} (h : Sweep w i os ps births v) :
    List.Forall₂ (fun o birth => ∀ c ∈ birth, ∃ a, c.IsChild o a) os births := by
  induction h with
  | done w i => exact .nil
  | turn first _ ih =>
    refine .cons (fun c hc => ?_) ih
    obtain ⟨a, -, hchild⟩ := first.child c hc
    exact ⟨a, hchild⟩

/-! ## A cycle -/

theorem toList_reap (w : World) : w.reap.population.toList = w.living := by
  simp [reap, living]

theorem length_living (w : World) : w.living.length = w.livingCount := by
  rw [living, livingCount_eq, List.countP_eq_length_filter]

theorem mem_population_of_mem_living {w : World} {o : Organism} (h : o ∈ w.living) :
    o ∈ w.population :=
  Array.mem_toList_iff.mp (List.mem_filter.mp h).1

/-- In a cycle of a sound world the living have one turn each, in order and each in the world that
the one before has left. The population is then what became of them, in the same order, and after
that the children, in the order of their parents. -/
theorem step_schedule {w : World} (hw : w.Sound) (hl : w.extinct = false) :
    ∃ results births v,
      Sweep w.reap 0 w.living results births v ∧
      w.step.population.toList = results ++ births.flatMap Option.toList ∧
      results.length = w.living.length ∧
      List.Forall₂ (fun o p => p.age = o.age + 1 ∧ p.depth = o.depth ∧ p.hue = o.hue)
        w.living results ∧
      List.Forall₂ (fun o birth => ∀ c ∈ birth, ∃ a, c.IsChild o a) w.living births ∧
      w.step.habitat = v.habitat ∧ w.step.lineage = v.lineage ∧
      w.step.cycles = w.cycles + 1 := by
  have hpop : w.reap.population.toList = [] ++ (w.living ++ []) := by
    rw [List.nil_append, List.append_nil, toList_reap]
  have hips : ∀ o ∈ w.living, o.ip.toNat < Address.count := fun o ho =>
    (hw.members o (mem_population_of_mem_living ho)).ip
  obtain ⟨results, births, hsweep, hfinal⟩ := exists_sweep [] w.living [] w.reap hpop hips
  have hcycles : ((List.range w.livingCount).foldl turn w.reap).cycles = w.cycles :=
    foldl_turn_induction (P := fun v => v.cycles = w.cycles)
      (fun v i hv => (turn_record v i).2.1.trans hv) _ rfl
  rw [List.length_nil, length_living, ← List.range_eq_range'] at hsweep hfinal
  refine ⟨results, births, _, hsweep, ?_, ?_, hsweep.results, hsweep.children, ?_⟩
  · rw [step_of_living hl]
    exact hfinal
  · exact hsweep.results.length_eq.symm
  · rw [step_of_living hl]
    refine ⟨rfl, rfl, ?_⟩
    show ((List.range w.livingCount).foldl turn w.reap).cycles + 1 = w.cycles + 1
    rw [hcycles]

theorem livingCount_addRoot {w : World} (h : w.livingCount < w.cap.toNat) (a : Address) :
    (w.addRoot a).1.livingCount = w.livingCount + 1 ∧ (w.addRoot a).1.cap = w.cap := by
  rw [addRoot, if_pos (by rw [hasRoom, decide_eq_true h])]
  exact ⟨Array.countP_push_of_pos rfl, rfl⟩

/-- A copying program with two roots in front of it, under a cap that leaves room for one child. -/
theorem step_schedule_two_roots :
    let soup := (ofConfig ⟨.one, 9, 3, 2, some 7⟩ 0).load 0 (Ancestor.program 3 5)
    let w := ((soup.addRoot 0).1.addRoot 0).1
    w.living.length = 2 ∧
      ∃ results births v,
        Sweep w.reap 0 w.living results births v ∧
        w.step.population.toList = results ++ births.flatMap Option.toList ∧
        results.length = w.living.length ∧
        List.Forall₂ (fun o p => p.age = o.age + 1 ∧ p.depth = o.depth ∧ p.hue = o.hue)
          w.living results ∧
        List.Forall₂ (fun o birth => ∀ c ∈ birth, ∃ a, c.IsChild o a) w.living births ∧
        w.step.habitat = v.habitat ∧ w.step.lineage = v.lineage ∧
        w.step.cycles = w.cycles + 1 := by
  intro soup w
  have hcap : soup.cap.toNat = 3 := by decide
  have hsoup : soup.livingCount = 0 := by decide
  obtain ⟨hone, hcap'⟩ := livingCount_addRoot (w := soup) (by omega) 0
  obtain ⟨htwo, -⟩ := livingCount_addRoot (w := (soup.addRoot 0).1) (by rw [hcap']; omega) 0
  have hcount : w.livingCount = 2 := by
    show (World.addRoot _ 0).1.livingCount = 2
    rw [htwo, hone, hsoup]
  have hsound : w.Sound := sound_addRoot (sound_addRoot (sound_load (sound_ofConfig _ _) _ _) _) _
  have hliving : w.extinct = false := by
    rw [extinct, hcount]
    rfl
  exact ⟨by rw [length_living, hcount], step_schedule hsound hliving⟩

end World

end Vivarium
