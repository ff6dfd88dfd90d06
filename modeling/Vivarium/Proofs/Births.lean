import Vivarium.Proofs.Bookkeeping
import Vivarium.Proofs.Frame

/-!
# Births under a cap

A child is born in a turn exactly if it is asked for at a cell and there is room for it at that moment.
An organism that asks in vain has passed its turn.

* `World.idle` : a turn in which an organism does nothing but grow older;
* `World.turn_of_nop`, `World.turn_of_spwn` : the turns that carry out `nop` and `spwn`;
* `World.BirthTurn`, `World.birthTurn_turn` : what comes of births in any turn;
* `World.births_capped` : the same for the turns of a cycle, in which the living never exceed the cap.
-/

namespace Vivarium

namespace Organism

variable {o : Organism} {h : Habitat}

theorem perform_of_nop (ho : o.ip.toNat < Address.count)
    (hop : (Instruction.ofWord (h.memory.word o.here)).opcode? = some .nop) :
    o.perform h = ⟨o, h, .next, none⟩ := by
  have hrand : (Instruction.ofWord (h.memory.word o.here)).opcode? ≠ some .rand := by simp [hop]
  rw [perform_eq h ho, Instruction.execute_of_ne_rand hrand, Instruction.effect, hop]
  rfl

theorem perform_of_spwn (ho : o.ip.toNat < Address.count)
    (hop : (Instruction.ofWord (h.memory.word o.here)).opcode? = some .spwn) :
    o.perform h =
      ⟨o, h, .next, ((Instruction.ofWord (h.memory.word o.here)).a.place o).address?⟩ := by
  have hrand : (Instruction.ofWord (h.memory.word o.here)).opcode? ≠ some .rand := by simp [hop]
  rw [perform_eq h ho, Instruction.execute_of_ne_rand hrand, Instruction.effect, hop]
  simp only
  split <;> rename_i ha <;> rw [ha] <;> rfl

end Organism

namespace World

/-- The instruction that an organism finds in its cell. -/
def instructionOf (w : World) (o : Organism) : Instruction := .ofWord (w.memory.word o.here)

/-- The world after a turn in which organism `i`, which is `o`, does nothing: it goes on to the next
cell, has had a turn more, and dies if that is past the age limit. -/
def idle (w : World) (i : Nat) (o : Organism) : World :=
  { w with population := w.population.setIfInBounds i { o with
      ip := (o.here + 1).toUInt64
      age := o.age + 1
      alive := o.alive && !w.settings.expired (o.age + 1) } }

variable {w : World} {i : Nat} {o : Organism}

theorem turn_of_nop (h : w.population[i]? = some o) (ho : o.ip.toNat < Address.count)
    (hop : (w.instructionOf o).opcode? = some .nop) : w.turn i = w.idle i o := by
  have hact := Organism.perform_of_nop ho hop
  rw [turn_of_no_birth h (by rw [hact]), Organism.afterTurn, hact]
  rfl

/-- Asking for a child changes nothing yet. -/
theorem acted_of_spwn (h : w.population[i]? = some o) (ho : o.ip.toNat < Address.count)
    (hop : (w.instructionOf o).opcode? = some .spwn) : w.acted i o = w := by
  rw [acted, Organism.perform_of_spwn ho hop, setIfInBounds_of_getElem? h]

/-- If no child is born, the lineage stream stays where it is. -/
theorem childOf_of_none {parent : Organism} {birth : Option Address}
    (h : (w.childOf parent birth).1 = none) : w.childOf parent birth = (none, w.lineage) := by
  cases birth with
  | none => rfl
  | some a =>
    unfold childOf at h ⊢
    split_ifs at h ⊢
    rfl

/-- Whoever asks for a child in vain has done nothing in its turn. -/
theorem turn_of_refused (h : w.population[i]? = some o) (ho : o.ip.toNat < Address.count)
    (hop : (w.instructionOf o).opcode? = some .spwn) (hnone : (w.offspring i o).1 = none) :
    w.turn i = w.idle i o := by
  have hoffspring : w.offspring i o = (none, w.lineage) := childOf_of_none (w := w.acted i o) hnone
  rw [turn_eq_parts h, hoffspring, Organism.afterTurn, Organism.perform_of_spwn ho hop,
    Option.toArray_none, Array.append_empty]
  rfl

/-! ## Any turn -/

/-- The worlds that the turn of organism `i`, which is `o`, goes through: after its action, with its
child, and at its end. -/
def moments (w : World) (i : Nat) (o : Organism) : List World :=
  let out := o.perform w.habitat
  [w.acted i o, (w.acted i o).bear out.organism out.birth, w.turn i]

/-- What comes of births in the turn of organism `i`, which is `o`. -/
structure BirthTurn (w : World) (i : Nat) (o : Organism) (child : Option Organism) : Prop where
  /-- A child comes last. -/
  population : (w.turn i).population.toList =
    w.population.toList.set i (o.afterTurn w.habitat) ++ child.toList
  born : child.isSome = true ↔
    (w.instructionOf o).opcode? = some .spwn ∧
      ((w.instructionOf o).a.mode = .relative ∨ (w.instructionOf o).a.mode = .indirect) ∧
      w.livingCount < w.cap.toNat
  place : ∀ c ∈ child, ∃ a, (w.instructionOf o).a.place o = .cell a ∧ c.IsChild o a
  nop : (w.instructionOf o).opcode? = some .nop → w.turn i = w.idle i o
  refused : (w.instructionOf o).opcode? = some .spwn → child = none → w.turn i = w.idle i o
  capped : ∀ v ∈ w.moments i o, v.livingCount ≤ w.cap.toNat

theorem livingCount_bear_le (hw : w.livingCount ≤ w.cap.toNat) (parent : Organism)
    (birth : Option Address) : (w.bear parent birth).livingCount ≤ w.cap.toNat := by
  cases birth with
  | none => exact hw
  | some a =>
    unfold bear
    split_ifs with hroom
    · exact Nat.le_trans (livingCount_push_le w _ _) (livingCount_lt_of_hasRoom hroom)
    · exact hw

/-- The number of the living stays within the cap all through a turn. -/
theorem livingCount_moments_le (hw : w.livingCount ≤ w.cap.toNat) (h : w.population[i]? = some o) :
    ∀ v ∈ w.moments i o, v.livingCount ≤ w.cap.toNat := by
  have hacted : (w.acted i o).livingCount ≤ w.cap.toNat :=
    Nat.le_trans (livingCount_acted_le h) hw
  intro v hv
  simp only [moments, List.mem_cons, List.not_mem_nil, or_false] at hv
  rcases hv with rfl | rfl | rfl
  · exact hacted
  · exact livingCount_bear_le (w := w.acted i o) hacted _ _
  · exact capped_turn hw h

/-- An organism inside the ring has a child in its turn iff it asks for one at a cell and there is room. -/
theorem isSome_offspring_iff (h : w.population[i]? = some o) (ho : o.ip.toNat < Address.count) :
    (w.offspring i o).1.isSome = true ↔
      (w.instructionOf o).opcode? = some .spwn ∧
        ((w.instructionOf o).a.mode = .relative ∨ (w.instructionOf o).a.mode = .indirect) ∧
        w.livingCount < w.cap.toNat := by
  have hbirth : (o.perform w.habitat).birth.isSome = true ↔
      (w.instructionOf o).opcode? = some .spwn ∧
        ((w.instructionOf o).a.mode = .relative ∨ (w.instructionOf o).a.mode = .indirect) := by
    rw [Organism.perform_eq w.habitat ho]
    exact Instruction.isSome_birth_execute_iff _ o w.habitat
  rw [offspring, isSome_childOf_iff, hbirth, and_assoc]
  refine and_congr_right fun hop => and_congr_right fun _ => ?_
  rw [acted_of_spwn h ho hop, hasRoom, decide_eq_true_eq]

theorem birthTurn_turn (hw : w.Sound) (h : w.population[i]? = some o) :
    w.BirthTurn i o (w.offspring i o).1 := by
  have ho : o.ip.toNat < Address.count := (hw.members o (Array.mem_of_getElem? h)).ip
  refine ⟨population_turn h, isSome_offspring_iff h ho, fun c hc => ?_, turn_of_nop h ho,
    turn_of_refused h ho, livingCount_moments_le hw.capped h⟩
  obtain ⟨a, hbirth, hchild⟩ := isChild_offspring hc
  rw [Organism.perform_eq w.habitat ho, Instruction.birth_execute_eq_some_iff] at hbirth
  exact ⟨a, hbirth.2, hchild⟩

/-! ## The turns of a cycle -/

/-- When its turn comes, the `k`th of the living is found as the cycle began with it. -/
theorem getElem?_midway (hw : w.Sound) {k : Nat} (hk : k < w.livingCount) :
    (w.midway k).population[k]? = w.living[k]? := by
  obtain ⟨results, births, hpop, hresults, -⟩ := exists_midway hw hk.le
  rw [← length_living] at hk
  have hlength : results.length = k := by
    rw [← hresults.length_eq, List.length_take_of_le hk.le]
  have hwaiting : 0 < (w.living.drop k).length := by
    rw [List.length_drop]
    omega
  rw [← Array.getElem?_toList, hpop, List.getElem?_append_right hlength.le, hlength, Nat.sub_self,
    List.getElem?_append_left hwaiting, List.getElem?_drop, Nat.add_zero]

theorem sound_performAll (hw : w.Sound) (rs : List Request) : (w.performAll rs).Sound := by
  induction rs generalizing w with
  | nil => exact hw
  | cons r rs ih => exact ih (sound_perform hw r)

/-- In each turn of a cycle of a sound world a child is born iff the organism whose turn it is carries
out `spwn` with an operand that names a cell and fewer are alive at that moment than the cap allows, and
it is born at that cell. An organism that asks in vain has done nothing in its turn. At no moment of the
cycle and after no request are more alive than the cap allows, and at the cap no root is taken in. -/
theorem births_capped (hw : w.Sound) :
    (∀ k < w.livingCount, ∃ o child, w.living[k]? = some o ∧ o.alive = true ∧
      (w.midway k).population[k]? = some o ∧ (w.midway k).BirthTurn k o child) ∧
    (∀ k ≤ w.livingCount, (w.midway k).cap = w.cap ∧ (w.midway k).livingCount ≤ w.cap.toNat) ∧
    (∀ rs, (w.performAll rs).livingCount ≤ (w.performAll rs).cap.toNat) ∧
    ∀ a, w.cap.toNat ≤ w.livingCount → w.addRoot a = (w, none) := by
  refine ⟨fun k hk => ?_, fun k _ => ?_, fun rs => (sound_performAll hw rs).capped, fun a hfull => ?_⟩
  · have hlt : k < w.living.length := by rwa [length_living]
    have hwaiting : w.living[k]? = some w.living[k] := List.getElem?_eq_getElem hlt
    have hmember : w.living[k] ∈ w.living := List.getElem_mem hlt
    have hat : (w.midway k).population[k]? = some w.living[k] := by
      rw [getElem?_midway hw hk, hwaiting]
    exact ⟨_, _, hwaiting, (List.mem_filter.mp hmember).2, hat, birthTurn_turn (sound_midway hw k) hat⟩
  · have hcap : (w.midway k).cap = w.cap := (midway_record w k).1
    exact ⟨hcap, hcap ▸ (sound_midway hw k).capped⟩
  · have hroom : w.hasRoom = false := decide_eq_false (Nat.not_lt.mpr hfull)
    simp only [addRoot, hroom, Bool.false_eq_true, if_false]

/-- Two roots ask for a child in the same cycle, under a cap that leaves room for one. -/
theorem births_capped_one_room :
    let w := (ofConfig ⟨.zero, 9, 3, 2, some 7⟩ 0).performAll
      [.plant 4094 (Ancestor.program 0 5), .addRoot 4094]
    w.Sound ∧ w.livingCount = 2 ∧ (w.midway 1).population.size = 3 ∧
    ∃ p, (w.midway 1).population[1]? = some p ∧
      ((w.midway 1).instructionOf p).opcode? = some .spwn ∧
      (w.midway 2).population.size = 3 ∧ (w.midway 2) = (w.midway 1).idle 1 p := by
  intro w
  have hsound : w.Sound := ((Reachable.fresh _ _).performAll _).sound
  obtain ⟨hliving, hone, htwo, hasks⟩ : w.livingCount = 2 ∧ (w.midway 1).population.size = 3 ∧
      (w.midway 2).population.size = 3 ∧ (w.midway 1).population[1]?.map
        (fun p => ((w.midway 1).instructionOf p).opcode?) = some (some .spwn) := by decide +kernel
  obtain ⟨p, child, -, -, hat, hturn⟩ := (births_capped hsound).1 1 (by rw [hliving]; decide)
  have hop : ((w.midway 1).instructionOf p).opcode? = some .spwn := by
    rw [hat] at hasks
    exact Option.some.inj hasks
  have hnone : child = none := by
    have hsize := congrArg List.length hturn.population
    rw [← midway_succ, List.length_append, List.length_set, Array.length_toList, Array.length_toList,
      htwo, hone] at hsize
    rw [← Option.toList_eq_nil_iff, ← List.length_eq_zero_iff]
    omega
  refine ⟨hsound, hliving, hone, p, hat, hop, htwo, ?_⟩
  rw [midway_succ]
  exact hturn.refused hop hnone

end World

end Vivarium
