import Mathlib.Tactic
import Vivarium.Ancestor
import Vivarium.Proofs.Turn
import Vivarium.World.Request

/-!
# Colours change nothing else

Hues, the owners in the soup and the stream that hues are drawn from are for the eye only.

* `World.Alike` : two worlds that differ in nothing but these;
* `World.bleach` : a world with all of these wiped out; worlds are alike iff they are equal then;
* `World.bleach_turn`, `World.bleach_perform` : whatever a world does, its bleached form does too;
* `World.alike_performAll` : worlds that are alike stay alike and give the same answers.
-/

namespace Vivarium

/-! ## Worlds that are alike -/

/-- All but the hue is the same. -/
@[mk_iff]
structure Organism.Alike (o p : Organism) : Prop where
  ip : o.ip = p.ip
  registers : o.registers = p.registers
  alive : o.alive = p.alive
  age : o.age = p.age
  depth : o.depth = p.depth

/-- All but the owners, the hues and the lineage stream is the same. -/
structure World.Alike (w v : World) : Prop where
  words : ∀ a, w.memory.word a = v.memory.word a
  stream : w.habitat.stream = v.habitat.stream
  settings : w.settings = v.settings
  mutations : w.habitat.mutations = v.habitat.mutations
  members : List.Forall₂ Organism.Alike w.population.toList v.population.toList
  cap : w.cap = v.cap
  cycles : w.cycles = v.cycles
  history : w.history = v.history
  historyCapacity : w.historyCapacity = v.historyCapacity

/-! ## Bleaching -/

def Organism.bleach (o : Organism) : Organism := { o with hue := ⟨0⟩ }

def Memory.bleach (m : Memory) : Memory := ⟨m.cells.map fun c => ⟨c.word, none⟩⟩

def Habitat.bleach (h : Habitat) : Habitat := { h with memory := h.memory.bleach }

def Outcome.bleach (out : Outcome) : Outcome :=
  { out with organism := out.organism.bleach, habitat := out.habitat.bleach }

def World.bleach (w : World) : World :=
  { w with
    habitat := w.habitat.bleach
    population := w.population.map Organism.bleach
    lineage := .ofSeed 0 World.lineageNonce }

theorem Organism.bleach_comp_bleach : Organism.bleach ∘ Organism.bleach = Organism.bleach := rfl

theorem Organism.bleach_eq_iff {o p : Organism} : o.bleach = p.bleach ↔ o.Alike p := by
  rw [alike_iff, bleach, bleach, Organism.mk.injEq]
  tauto

theorem Outcome.bleach_eq_iff {x y : Outcome} : x.bleach = y.bleach ↔
    x.organism.bleach = y.organism.bleach ∧ x.habitat.bleach = y.habitat.bleach ∧ x.flow = y.flow ∧
      x.birth = y.birth := by
  rw [bleach, bleach, Outcome.mk.injEq]

namespace Memory

theorem cell_bleach (m : Memory) (a : Address) : m.bleach.cell a = ⟨m.word a, none⟩ := by
  simp only [cell, bleach, word, Vector.getElem_map]

theorem word_bleach (m : Memory) (a : Address) : m.bleach.word a = m.word a := by
  rw [word, cell_bleach]

theorem bleach_eq_iff {m n : Memory} : m.bleach = n.bleach ↔ ∀ a, m.word a = n.word a := by
  refine ⟨fun h a => ?_, fun h => ext_cell fun a => ?_⟩
  · rw [← word_bleach m, h, word_bleach]
  · rw [cell_bleach, cell_bleach, h a]

theorem bleach_set (m : Memory) (a : Address) (v : Word) (x y : Option Hue) :
    (m.set a ⟨v, x⟩).bleach = (m.bleach.set a ⟨v, y⟩).bleach := by
  rw [bleach_eq_iff]
  intro b
  rw [word_set, word_set, word_bleach]

theorem word_load_congr {m n : Memory} (h : ∀ b, m.word b = n.word b) (a : Address)
    (ws : List Word) (b : Address) : (m.load a ws).word b = (n.load a ws).word b := by
  induction ws generalizing m n a with
  | nil => exact h b
  | cons w ws ih =>
    refine ih (fun c => ?_) (a + 1)
    rw [word_set, word_set, h c]

theorem bleach_load (m : Memory) (a : Address) (ws : List Word) :
    (m.load a ws).bleach = (m.bleach.load a ws).bleach := by
  rw [bleach_eq_iff]
  exact word_load_congr (fun b => (word_bleach m b).symm) a ws

theorem bleach_bleach (m : Memory) : m.bleach.bleach = m.bleach := by
  rw [bleach_eq_iff]
  exact word_bleach m

theorem read_bleach (m : Memory) (n : UInt64) : m.bleach.read n = m.read n := by
  rw [read, read, word_bleach]

end Memory

/-! ## Acting -/

variable (o : Organism) (m : Memory) (h : Habitat)

theorem Operand.read_bleach (x : Operand) : x.read o.bleach m.bleach = x.read o m := by
  unfold read
  cases x.mode with
  | immediate | register => rfl
  | relative | indirect => exact Memory.word_bleach m _

theorem Place.update_bleach (p : Place) (f : Word → Word) :
    p.update o.bleach m.bleach f = p.update o m f := by
  cases p with
  | nowhere | register => rfl
  | cell a =>
    show Effect.store a (f (m.bleach.word a)) = .store a (f (m.word a))
    rw [Memory.word_bleach]

/-- What an instruction asks for does not depend on any hue. -/
theorem Instruction.effect_bleach (i : Instruction) (drawn : Word) :
    i.effect o.bleach m.bleach drawn = i.effect o m drawn := by
  unfold effect
  simp only [Operand.read_bleach, Place.update_bleach]
  rfl

theorem Habitat.bleach_bleach : h.bleach.bleach = h.bleach := by
  rw [bleach, bleach, Memory.bleach_bleach]

/-- A write takes the same draws whatever the hue of the writer. -/
theorem Habitat.bleach_write (a : Address) (v : Word) (x y : Hue) :
    (h.write a v x).bleach = (h.bleach.write a v y).bleach := by
  by_cases hk : h.settings.rate.exceedsDraw h.stream.fraction.1 = true
  · have hk' : h.bleach.settings.rate.exceedsDraw h.bleach.stream.fraction.1 = true := hk
    rw [write_of_exceeds hk, write_of_exceeds hk', bleach, bleach, Memory.bleach_set]
    rfl
  · have hk' : ¬ h.bleach.settings.rate.exceedsDraw h.bleach.stream.fraction.1 = true := hk
    rw [write_of_not_exceeds hk, write_of_not_exceeds hk', bleach, bleach, Memory.bleach_set]
    rfl

theorem Effect.bleach_apply (e : Effect) :
    (e.apply o h).bleach = (e.apply o.bleach h.bleach).bleach := by
  have hh : h.bleach.bleach = h.bleach := h.bleach_bleach
  cases e with
  | store a v =>
    have hw := h.bleach_write a v o.hue ⟨0⟩
    simp only [apply, Outcome.bleach, hw]
    rfl
  | tune command argument =>
    simp only [apply, Outcome.bleach, Habitat.bleach, Memory.bleach_bleach]
    rfl
  | pass | assign | jump | skip | spawn | die =>
    simp only [apply, Outcome.bleach, hh]
    rfl

theorem Instruction.bleach_execute (i : Instruction) :
    (i.execute o h).bleach = (i.execute o.bleach h.bleach).bleach := by
  rw [execute_eq, execute_eq, Effect.bleach_apply]
  show _ = ((i.effect o.bleach h.memory.bleach (i.draw h.stream).1).apply o.bleach _).bleach
  rw [effect_bleach]
  rfl

namespace Organism

theorem bleach_perform : (o.perform h).bleach = (o.bleach.perform h.bleach).bleach := by
  unfold perform
  rw [show h.bleach.memory.read o.bleach.ip = h.memory.read o.ip from Memory.read_bleach _ _]
  cases h.memory.read o.ip with
  | ok w => exact Instruction.bleach_execute o h _
  | error e => exact Effect.bleach_apply o h .die

theorem bleach_afterTurn : (o.afterTurn h).bleach = (o.bleach.afterTurn h.bleach).bleach := by
  have hout := bleach_perform o h
  show (o.perform h).bleach.organism.endTurn (o.perform h).bleach.habitat.settings
    (o.perform h).bleach.flow = _
  rw [hout]
  rfl

/-- Streams make no difference to a root but for its hue. -/
theorem bleach_root (a : Address) (s t : Stream) : (root a s).1.bleach = (root a t).1.bleach := by
  simp only [root, newborn, bleach]

theorem bleach_child {o p : Organism} (h : o.bleach = p.bleach) (a : Address) (s t : Stream) :
    (o.child a s).1.bleach = (p.child a t).1.bleach := by
  have hdepth : o.depth = p.depth := (bleach_eq_iff.mp h).depth
  simp only [child, newborn, bleach, hdepth]

end Organism

/-! ## Worlds -/

namespace World

/-- Worlds are alike iff nothing is left between them once both are bleached. -/
theorem bleach_eq_iff {w v : World} : w.bleach = v.bleach ↔ w.Alike v := by
  have hmembers : w.population.map Organism.bleach = v.population.map Organism.bleach ↔
      List.Forall₂ Organism.Alike w.population.toList v.population.toList := by
    rw [← Array.toList_inj, Array.toList_map, Array.toList_map, ← List.forall₂_eq_eq_eq,
      List.forall₂_map_left_iff, List.forall₂_map_right_iff]
    simp only [Organism.bleach_eq_iff]
  refine ⟨fun h => ?_, ?_⟩
  · simp only [bleach, Habitat.bleach, World.mk.injEq, Habitat.mk.injEq] at h
    obtain ⟨⟨hmemory, hstream, hsettings, hmutations⟩, hpop, -, hcap, hcycles, hhistory, hcapacity⟩ := h
    exact ⟨Memory.bleach_eq_iff.mp hmemory, hstream, hsettings, hmutations, hmembers.mp hpop, hcap,
      hcycles, hhistory, hcapacity⟩
  · rintro ⟨hwords, hstream, hsettings, hmutations, hpop, hcap, hcycles, hhistory, hcapacity⟩
    have hmemory : w.habitat.memory.bleach = v.habitat.memory.bleach := Memory.bleach_eq_iff.mpr hwords
    unfold bleach Habitat.bleach
    rw [settings, settings] at hsettings
    rw [hmemory, hstream, hsettings, hmutations, hmembers.mpr hpop, hcap, hcycles, hhistory, hcapacity]

theorem bleach_bleach (w : World) : w.bleach.bleach = w.bleach := by
  simp only [bleach, Habitat.bleach_bleach, Array.map_map, Organism.bleach_comp_bleach]

theorem livingCount_bleach (w : World) : w.bleach.livingCount = w.livingCount := by
  rw [livingCount, bleach, Array.countP_map]
  rfl

theorem hasRoom_bleach (w : World) : w.bleach.hasRoom = w.hasRoom := by
  rw [hasRoom, livingCount_bleach]
  rfl

theorem extinct_bleach (w : World) : w.bleach.extinct = w.extinct := by
  rw [extinct, livingCount_bleach, extinct]

/-! ### Turns and cycles -/

theorem bleach_acted (w : World) (i : Nat) (o : Organism) :
    (w.acted i o).bleach = (w.bleach.acted i o.bleach).bleach := by
  obtain ⟨horganism, hhabitat, -, -⟩ := Outcome.bleach_eq_iff.mp (o.bleach_perform w.habitat)
  simp only [acted, bleach, Array.map_setIfInBounds, Array.map_map, Organism.bleach_comp_bleach,
    horganism, hhabitat]

/-- Whether a child is born, and where, does not depend on any hue; only the child's own hue does. -/
theorem bleach_childOf {w v : World} (h : w.hasRoom = v.hasRoom) {o p : Organism}
    (hop : o.bleach = p.bleach) (birth : Option Address) :
    (w.childOf o birth).1.map Organism.bleach = (v.childOf p birth).1.map Organism.bleach := by
  cases birth with
  | none => rfl
  | some a =>
    have hchild := Organism.bleach_child hop a w.lineage v.lineage
    unfold childOf
    rw [h]
    split_ifs
    · rw [Option.map_some, Option.map_some, hchild]
    · rfl

theorem bleach_offspring (w : World) (i : Nat) (o : Organism) :
    (w.offspring i o).1.map Organism.bleach =
      (w.bleach.offspring i o.bleach).1.map Organism.bleach := by
  obtain ⟨horganism, -, -, hbirth⟩ := Outcome.bleach_eq_iff.mp (o.bleach_perform w.habitat)
  have hroom : (w.acted i o).hasRoom = (w.bleach.acted i o.bleach).hasRoom := by
    rw [← hasRoom_bleach, bleach_acted, hasRoom_bleach]
  unfold offspring
  rw [hbirth]
  exact bleach_childOf hroom horganism _

theorem bleach_turn (w : World) (i : Nat) : (w.turn i).bleach = (w.bleach.turn i).bleach := by
  cases hi : w.population[i]? with
  | none =>
    have hi' : w.bleach.population[i]? = none := by
      rw [bleach, Array.getElem?_map, hi]
      rfl
    rw [turn_eq_self hi, turn_eq_self hi', bleach_bleach]
  | some o =>
    have hi' : w.bleach.population[i]? = some o.bleach := by
      rw [bleach, Array.getElem?_map, hi]
      rfl
    obtain ⟨-, hhabitat, -, -⟩ := Outcome.bleach_eq_iff.mp (o.bleach_perform w.habitat)
    have hself := o.bleach_afterTurn w.habitat
    have hchild := w.bleach_offspring i o
    rw [turn_eq_parts hi, turn_eq_parts hi']
    -- The two lineage streams may be anywhere by now, and bleaching forgets where.
    simp only [bleach, Array.map_append, Array.map_setIfInBounds, Array.map_map,
      Organism.bleach_comp_bleach, ← Option.toArray_map, hhabitat, hself, hchild]

theorem bleach_foldl_turn (is : List Nat) (w : World) :
    (is.foldl turn w).bleach = (is.foldl turn w.bleach).bleach := by
  induction is generalizing w with
  | nil => exact w.bleach_bleach.symm
  | cons i is ih =>
    rw [List.foldl_cons, List.foldl_cons, ih, bleach_turn, ← ih]

theorem bleach_reap (w : World) : w.reap.bleach = w.bleach.reap := by
  have halive : (fun o : Organism => o.alive) ∘ Organism.bleach = fun o => o.alive := rfl
  rw [reap, reap, bleach, bleach, Array.filter_map, halive]

theorem bleach_record (w : World) : w.record.bleach = w.bleach.record := by
  have hcount := livingCount_bleach w
  rw [record, record, hcount]
  rfl

theorem bleach_step (w : World) : w.step.bleach = w.bleach.step.bleach := by
  cases hl : w.extinct with
  | true =>
    have hl' : w.bleach.extinct = true := by rw [extinct_bleach, hl]
    rw [step_of_extinct hl, step_of_extinct hl', bleach_reap, ← bleach_reap, bleach_bleach]
  | false =>
    have hl' : w.bleach.extinct = false := by rw [extinct_bleach, hl]
    rw [step_of_living hl, step_of_living hl', livingCount_bleach, bleach_record, bleach_record,
      bleach_foldl_turn, bleach_reap]

theorem bleach_run (n : Nat) (w : World) : (run n w).bleach = (run n w.bleach).bleach := by
  induction n generalizing w with
  | zero => exact w.bleach_bleach.symm
  | succ n ih =>
    rw [run, run, extinct_bleach]
    split_ifs
    · exact w.bleach_bleach.symm
    · rw [ih, bleach_step, ← ih]

/-! ### Requests -/

theorem bleach_load (w : World) (a : Address) (ws : List Word) :
    (w.load a ws).bleach = (w.bleach.load a ws).bleach := by
  have hmemory : (w.habitat.memory.load a ws).bleach = (w.habitat.memory.bleach.load a ws).bleach :=
    Memory.bleach_load _ a ws
  simp only [load, bleach, Habitat.bleach, Array.map_map, Organism.bleach_comp_bleach, hmemory]

theorem bleach_setSettings (w : World) (s : Settings) :
    (w.setSettings s).bleach = (w.bleach.setSettings s).bleach := by
  simp only [setSettings, bleach, Habitat.bleach, Memory.bleach_bleach, Array.map_map,
    Organism.bleach_comp_bleach]

/-- A root is placed in the one world iff it is placed in the other, under the same number. -/
theorem bleach_addRoot (w : World) (a : Address) :
    (w.addRoot a).1.bleach = (w.bleach.addRoot a).1.bleach ∧
      (w.addRoot a).2 = (w.bleach.addRoot a).2 := by
  have hroot := Organism.bleach_root a w.lineage w.bleach.lineage
  unfold addRoot
  rw [hasRoom_bleach]
  split_ifs
  · refine ⟨?_, ?_⟩
    · simp only [bleach, Habitat.bleach_bleach, Array.map_push, Array.map_map,
        Organism.bleach_comp_bleach] at hroot ⊢
      rw [hroot]
    · rw [bleach, Array.size_map]
  · exact ⟨w.bleach_bleach.symm, rfl⟩

theorem bleach_plant (w : World) (a : Address) (ws : List Word) :
    (w.plant a ws).1.bleach = (w.bleach.plant a ws).1.bleach ∧
      (w.plant a ws).2 = (w.bleach.plant a ws).2 := by
  obtain ⟨hworld, hindex⟩ := bleach_addRoot (w.load a ws) a
  obtain ⟨hworld', hindex'⟩ := bleach_addRoot (w.bleach.load a ws) a
  rw [bleach_load] at hworld hindex
  exact ⟨hworld.trans hworld'.symm, hindex.trans hindex'.symm⟩

/-- The bleached form of a world answers a request as the world does and goes the same way. -/
theorem bleach_perform (w : World) (r : Request) :
    (w.perform r).1.bleach = (w.bleach.perform r).1.bleach ∧
      (w.perform r).2 = (w.bleach.perform r).2 := by
  cases r with
  | load start ws => exact ⟨bleach_load w _ ws, rfl⟩
  | plant start ws =>
    obtain ⟨hworld, hindex⟩ := bleach_plant w (.ofUInt64 start) ws
    exact ⟨hworld, congrArg Answer.placed hindex⟩
  | addRoot ip =>
    obtain ⟨hworld, hindex⟩ := bleach_addRoot w (.ofUInt64 ip)
    exact ⟨hworld, congrArg Answer.placed hindex⟩
  | step => exact ⟨bleach_step w, rfl⟩
  | run n =>
    have hrun := bleach_run n.toNat w
    have hcycles : (run n.toNat w).cycles = (run n.toNat w.bleach).cycles :=
      (bleach_eq_iff.mp hrun).cycles
    refine ⟨hrun, ?_⟩
    show Answer.ran ((run n.toNat w).cycles - w.cycles) = .ran ((run n.toNat w.bleach).cycles - w.cycles)
    rw [hcycles]
  | setRate rate => exact ⟨bleach_setSettings w _, rfl⟩
  | setMaxAge maxAge => exact ⟨bleach_setSettings w _, rfl⟩
  | reset => exact ⟨rfl, rfl⟩
  | replace s =>
    show (w.replace s).1.bleach = (w.bleach.replace s).1.bleach ∧
      Answer.replaced (w.replace s).2 = .replaced (w.bleach.replace s).2
    unfold replace
    cases ofSnapshot s with
    | error d => exact ⟨w.bleach_bleach.symm, rfl⟩
    | ok v => exact ⟨rfl, rfl⟩

theorem Alike.perform {w v : World} (h : w.Alike v) (r : Request) :
    (w.perform r).1.Alike (v.perform r).1 ∧ (w.perform r).2 = (v.perform r).2 := by
  obtain ⟨hw, hw'⟩ := bleach_perform w r
  obtain ⟨hv, hv'⟩ := bleach_perform v r
  rw [← bleach_eq_iff] at h ⊢
  rw [hw, hw', hv, hv', h]
  exact ⟨rfl, rfl⟩

/-- Worlds that are alike are alike after any list of requests, and they give the same answers. So no
hue, no owner and no draw of a hue ever has an influence on anything else. -/
theorem alike_performAll {w v : World} (h : w.Alike v) (rs : List Request) :
    (w.performAll rs).Alike (v.performAll rs) ∧ w.answers rs = v.answers rs := by
  induction rs generalizing w v with
  | nil => exact ⟨h, rfl⟩
  | cons r rs ih =>
    obtain ⟨hnext, hanswer⟩ := h.perform r
    obtain ⟨hworld, hanswers⟩ := ih hnext
    refine ⟨hworld, ?_⟩
    rw [answers, answers, hanswer, hanswers]

/-- Two worlds with one organism each, of different hues, under different lineage streams and with a
cell that has an owner only in the second. -/
theorem alike_performAll_repainted :
    let start := ofConfig ⟨.one, 9, 3, 2, some 7⟩ 0
    let w := { start with population := #[.newborn 0 0 ⟨0⟩] }
    let v : World := {
      start with
      habitat := { start.habitat with memory := start.memory.set 5 ⟨start.memory.word 5, some ⟨120⟩⟩ }
      population := #[.newborn 0 0 ⟨200⟩]
      lineage := .ofSeed 8 lineageNonce }
    let rs := [.plant 4094 (Ancestor.program 3 5), .run 40, .setMaxAge 0, .step, .reset, .addRoot 3]
    w.Alike v ∧ (w.performAll rs).Alike (v.performAll rs) ∧ w.answers rs = v.answers rs := by
  intro start w v rs
  have hwords : ∀ a, w.memory.word a = v.memory.word a := by
    intro a
    show start.memory.word a = (start.memory.set 5 ⟨start.memory.word 5, some ⟨120⟩⟩).word a
    rw [Memory.word_set]
    split_ifs with ha
    · rw [ha]
    · rfl
  have halike : w.Alike v :=
    ⟨hwords, rfl, rfl, rfl, .cons ⟨rfl, rfl, rfl, rfl, rfl⟩ .nil, rfl, rfl, rfl, rfl⟩
  exact ⟨halike, alike_performAll halike rs⟩

end World

end Vivarium
