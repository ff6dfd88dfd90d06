import Vivarium.Proofs.Mutation
import Vivarium.Proofs.Schedule

/-!
# The books of a world

The counters of a world are kept in different places and agree in the end: all of them are bounded by
the number of cycles, which the chronicle knows.

* `World.midway` : a world in the course of its next cycle;
* `World.exists_midway` : who is listed then;
* `World.Bookkept` : the bounds after a number of cycles;
* `World.bookkept_step` : one cycle keeps them, with one cycle more;
* `World.Chronicled.bookkept`, `World.bounds_of_chronicled` : so does the whole life of a world.
-/

namespace Vivarium

/-! ## Mutations -/

theorem toNat_add_one_le (n : UInt64) : (n + 1).toNat ≤ n.toNat + 1 := by
  rw [UInt64.toNat_add]
  exact Nat.mod_le _ _

/-- An organism writes once at most when it acts, so at most one mutation comes of it. -/
theorem Organism.mutations_perform_le (o : Organism) (h : Habitat) :
    (o.perform h).habitat.mutations.toNat ≤ h.mutations.toNat + 1 := by
  have hone : (o.writing h).toList.length ≤ 1 := by
    cases o.writing h <;> simp
  have hcount := Nat.le_trans (List.countP_le_length (p := fun y => y.stored ≠ y.meant)) hone
  rw [mutations_perform, UInt64.toNat_add, UInt64.toNat_ofNat']
  omega

theorem exists_of_forall₂ {α β : Type} {R : α → β → Prop} {xs : List α} {ys : List β}
    (h : List.Forall₂ R xs ys) {y : β} (hy : y ∈ ys) : ∃ x ∈ xs, R x y := by
  induction h with
  | nil => cases hy
  | cons hr _ ih =>
    rcases List.mem_cons.mp hy with rfl | hy
    · exact ⟨_, List.mem_cons_self, hr⟩
    · obtain ⟨x, hx, hrx⟩ := ih hy
      exact ⟨x, List.mem_cons_of_mem _ hx, hrx⟩

namespace World

/-! ## In the course of a cycle -/

/-- The world in the course of its next cycle, after `k` turns. -/
def midway (w : World) (k : Nat) : World := (List.range k).foldl turn w.reap

variable {w : World}

theorem midway_succ (w : World) (k : Nat) : w.midway (k + 1) = (w.midway k).turn k := by
  rw [midway, List.range_succ, List.foldl_append]
  rfl

theorem step_eq_midway (hl : w.extinct = false) : w.step = (w.midway w.livingCount).record :=
  step_of_living hl

theorem sound_midway (hw : w.Sound) (k : Nat) : (w.midway k).Sound :=
  foldl_turn_induction (P := Sound) (fun _ i hi => sound_turn hi i) _ (sound_reap hw)

theorem midway_record (w : World) (k : Nat) :
    (w.midway k).cap = w.cap ∧ (w.midway k).cycles = w.cycles ∧ (w.midway k).history = w.history ∧
      (w.midway k).historyCapacity = w.historyCapacity := by
  induction k with
  | zero => exact ⟨rfl, rfl, rfl, rfl⟩
  | succ k ih =>
    obtain ⟨hcap, hcycles, hhistory, hcapacity⟩ := turn_record (w.midway k) k
    rw [midway_succ, hcap, hcycles, hhistory, hcapacity]
    exact ih

theorem mutations_turn_le (w : World) (i : Nat) :
    (w.turn i).habitat.mutations.toNat ≤ w.habitat.mutations.toNat + 1 := by
  cases h : w.population[i]? with
  | none =>
    rw [turn_eq_self h]
    exact Nat.le_succ _
  | some o =>
    rw [turn_eq_parts h]
    exact o.mutations_perform_le w.habitat

theorem mutations_midway_le (w : World) (k : Nat) :
    (w.midway k).habitat.mutations.toNat ≤ w.habitat.mutations.toNat + k := by
  induction k with
  | zero => exact Nat.le_refl _
  | succ k ih =>
    rw [midway_succ]
    exact Nat.le_trans (mutations_turn_le _ k) (Nat.succ_le_succ ih)

/-- After `k` turns the list begins with those who have had them. Then come the living who wait for
theirs, and last the children. -/
theorem exists_midway (hw : w.Sound) {k : Nat} (hk : k ≤ w.livingCount) :
    ∃ results births,
      (w.midway k).population.toList =
        results ++ (w.living.drop k ++ births.flatMap Option.toList) ∧
      List.Forall₂ (fun o p => p.age = o.age + 1 ∧ p.depth = o.depth ∧ p.hue = o.hue)
        (w.living.take k) results ∧
      List.Forall₂ (fun o birth => ∀ c ∈ birth, ∃ a, c.IsChild o a) (w.living.take k) births := by
  have hpop : w.reap.population.toList = [] ++ (w.living.take k ++ w.living.drop k) := by
    rw [List.nil_append, List.take_append_drop, toList_reap]
  have hips : ∀ o ∈ w.living.take k, o.ip.toNat < Address.count := fun o ho =>
    (hw.members o (mem_population_of_mem_living (List.mem_of_mem_take ho))).ip
  obtain ⟨results, births, hsweep, hfinal⟩ := exists_sweep [] _ _ w.reap hpop hips
  rw [List.length_nil, List.length_take_of_le (length_living w ▸ hk), ← List.range_eq_range']
    at hsweep hfinal
  exact ⟨results, births, hfinal, hsweep.results, hsweep.children⟩

theorem mem_midway (hw : w.Sound) {k : Nat} (hk : k ≤ w.livingCount) {p : Organism}
    (hp : p ∈ (w.midway k).population) :
    p ∈ w.living.drop k ∨ ∃ o ∈ w.living,
      (p.age = o.age + 1 ∧ p.depth = o.depth) ∨ ∃ a, p.IsChild o a := by
  obtain ⟨results, births, hpop, hresults, hbirths⟩ := exists_midway hw hk
  rw [← Array.mem_toList_iff, hpop, List.mem_append, List.mem_append, List.mem_flatMap] at hp
  rcases hp with hp | hp | ⟨birth, hbirth, hp⟩
  · obtain ⟨o, ho, hage, hdepth, -⟩ := exists_of_forall₂ hresults hp
    exact Or.inr ⟨o, List.mem_of_mem_take ho, Or.inl ⟨hage, hdepth⟩⟩
  · exact Or.inl hp
  · obtain ⟨o, ho, hchild⟩ := exists_of_forall₂ hbirths hbirth
    exact Or.inr ⟨o, List.mem_of_mem_take ho, Or.inr (hchild p (Option.mem_toList.mp hp))⟩

/-- A turn adds one to an age, and a birth one to a depth whose age starts again. -/
theorem lives_midway (hw : w.Sound) {n : Nat}
    (hlives : ∀ o ∈ w.population, o.age.toNat + o.depth.toNat ≤ n) {k : Nat}
    (hk : k ≤ w.livingCount) :
    ∀ p ∈ (w.midway k).population, p.age.toNat + p.depth.toNat ≤ n + 1 := by
  have hliving : ∀ o ∈ w.living, o.age.toNat + o.depth.toNat ≤ n := fun o ho =>
    hlives o (mem_population_of_mem_living ho)
  intro p hp
  rcases mem_midway hw hk hp with hp | ⟨o, ho, ⟨hage, hdepth⟩ | ⟨a, hchild⟩⟩
  · exact Nat.le_succ_of_le (hliving p (List.mem_of_mem_drop hp))
  · have hle := hliving o ho
    have hnext := toNat_add_one_le o.age
    rw [hage, hdepth]
    omega
  · have hle := hliving o ho
    have hdepth := hchild.depth
    rw [hchild.age, UInt64.toNat_zero]
    omega

/-- The dead who are still listed. -/
def deadCount (w : World) : Nat := w.population.countP (!·.alive)

theorem size_eq (w : World) : w.population.size = w.livingCount + w.deadCount := by
  simp [livingCount, deadCount, Array.size_eq_countP_add_countP (p := Organism.alive)]

/-- Only those who have had their turn can have died. -/
theorem deadCount_midway_le (hw : w.Sound) {k : Nat} (hk : k ≤ w.livingCount) :
    (w.midway k).deadCount ≤ k := by
  obtain ⟨results, births, hpop, hresults, hbirths⟩ := exists_midway hw hk
  have hwaiting : (w.living.drop k).countP (!·.alive) = 0 := by
    refine List.countP_eq_zero.mpr fun o ho => ?_
    have halive := (List.mem_filter.mp (List.mem_of_mem_drop ho)).2
    simp [halive]
  have hchildren : (births.flatMap Option.toList).countP (!·.alive) = 0 := by
    refine List.countP_eq_zero.mpr fun p hp => ?_
    obtain ⟨birth, hbirth, hp⟩ := List.mem_flatMap.mp hp
    obtain ⟨o, -, hchild⟩ := exists_of_forall₂ hbirths hbirth
    obtain ⟨a, hp⟩ := hchild p (Option.mem_toList.mp hp)
    simp [hp.alive]
  rw [deadCount, ← Array.countP_toList, hpop, List.countP_append, List.countP_append, hwaiting,
    hchildren]
  calc results.countP (!·.alive) ≤ results.length := List.countP_le_length
    _ = (w.living.take k).length := hresults.length_eq.symm
    _ ≤ k := List.length_take_le k _

/-- At no moment of a cycle are more listed than twice as many as may live. -/
theorem size_midway_le (hw : w.Sound) {k : Nat} (hk : k ≤ w.livingCount) :
    (w.midway k).population.size ≤ 2 * w.cap.toNat := by
  have hdead := deadCount_midway_le hw hk
  have hliving := (sound_midway hw k).capped
  have hcapped := hw.capped
  rw [(midway_record w k).1] at hliving
  rw [size_eq]
  omega

theorem size_step_le (hw : w.Sound) : w.step.population.size ≤ 2 * w.cap.toNat := by
  cases hl : w.extinct with
  | true =>
    have hcapped := hw.capped
    rw [step_of_extinct hl, size_reap]
    omega
  | false =>
    rw [step_eq_midway hl]
    exact size_midway_le hw (Nat.le_refl _)

theorem cap_step (w : World) : w.step.cap = w.cap := by
  cases hl : w.extinct with
  | true =>
    rw [step_of_extinct hl]
    rfl
  | false =>
    rw [step_eq_midway hl]
    exact (midway_record w w.livingCount).1

/-- Nor after any number of cycles, unless more were listed before. -/
theorem size_run_le (n : Nat) (hw : w.Sound) :
    (w.run n).population.size ≤ max w.population.size (2 * w.cap.toNat) := by
  induction n generalizing w with
  | zero => exact Nat.le_max_left _ _
  | succ n ih =>
    rw [run]
    split_ifs
    · exact Nat.le_max_left _ _
    · have hstep := size_step_le hw
      have hrun := ih (sound_step hw)
      rw [cap_step, Nat.max_eq_right hstep] at hrun
      exact Nat.le_trans hrun (Nat.le_max_right _ _)

/-! ## After a number of cycles -/

/-- What is counted of a world after `n` cycles. -/
structure Bookkept (w : World) (n : Nat) : Prop where
  cycles : w.cycles = .ofNat n
  lives : ∀ o ∈ w.population, o.age.toNat + o.depth.toNat ≤ n
  mutations : w.habitat.mutations.toNat ≤ n * w.cap.toNat
  dead : w.deadCount ≤ w.cap.toNat
  history : w.history.length = min n w.historyCapacity.toNat

theorem bookkept_of_empty (hpopulation : w.population = #[]) (hcycles : w.cycles = 0)
    (hmutations : w.habitat.mutations = 0) (hhistory : w.history = []) : w.Bookkept 0 := by
  refine ⟨hcycles, ?_, ?_, ?_, ?_⟩
  · rw [hpopulation]
    exact fun o ho => absurd ho (Array.not_mem_empty o)
  · rw [hmutations]
    exact Nat.zero_le _
  · rw [deadCount, hpopulation]
    exact Nat.zero_le _
  · rw [hhistory, Nat.zero_min]
    rfl

theorem bookkept_ofConfig (config : Config) (seed : UInt64) : (ofConfig config seed).Bookkept 0 :=
  bookkept_of_empty rfl rfl rfl rfl

theorem bookkept_reset (w : World) : w.reset.Bookkept 0 := bookkept_of_empty rfl rfl rfl rfl

theorem bookkept_reap {n : Nat} (h : w.Bookkept n) : w.reap.Bookkept n where
  cycles := h.cycles
  lives o ho := h.lives o (Array.mem_filter.mp ho).1
  mutations := h.mutations
  dead := by
    have hdead : w.reap.deadCount = 0 := by
      refine Array.countP_eq_zero.mpr fun o ho => ?_
      have halive := (Array.mem_filter.mp ho).2
      simp [halive]
    rw [hdead]
    exact Nat.zero_le _
  history := h.history

/-- A cycle gives each of the living a turn, and there are no more of them than the cap allows. -/
theorem bookkept_step {n : Nat} (hw : w.Sound) (h : w.Bookkept n) (hl : w.extinct = false) :
    w.step.Bookkept (n + 1) := by
  obtain ⟨hcap, hcycles, hhistory, hcapacity⟩ := midway_record w w.livingCount
  rw [step_eq_midway hl]
  refine ⟨?_, lives_midway hw h.lives (Nat.le_refl _), ?_, ?_, ?_⟩
  · show (w.midway w.livingCount).cycles + 1 = _
    rw [hcycles, h.cycles, UInt64.ofNat_add]
    rfl
  · show (w.midway w.livingCount).habitat.mutations.toNat ≤
      (n + 1) * (w.midway w.livingCount).cap.toNat
    have hturns := mutations_midway_le w w.livingCount
    have hmutations := h.mutations
    have hcapped := hw.capped
    rw [hcap, Nat.succ_mul]
    omega
  · show (w.midway w.livingCount).deadCount ≤ (w.midway w.livingCount).cap.toNat
    rw [hcap]
    exact Nat.le_trans (deadCount_midway_le hw (Nat.le_refl _)) hw.capped
  · have hroom := hw.capacity
    simp only [record, length_keepNewest, List.length_append, List.length_singleton, hhistory,
      hcapacity, h.history]
    omega

theorem bookkept_load {n : Nat} (h : w.Bookkept n) (a : Address) (vs : List Word) :
    (w.load a vs).Bookkept n :=
  ⟨h.cycles, h.lives, h.mutations, h.dead, h.history⟩

theorem bookkept_setSettings {n : Nat} (h : w.Bookkept n) (s : Settings) :
    (w.setSettings s).Bookkept n :=
  ⟨h.cycles, h.lives, h.mutations, h.dead, h.history⟩

theorem bookkept_addRoot {n : Nat} (h : w.Bookkept n) (a : Address) :
    (w.addRoot a).1.Bookkept n := by
  unfold addRoot
  split_ifs
  · refine ⟨h.cycles, ?_, h.mutations, ?_, h.history⟩
    · intro o ho
      rcases Array.mem_push.mp ho with ho | rfl
      · exact h.lives o ho
      · exact Nat.zero_le _
    · have hdead : (w.population.push (Organism.root a w.lineage).1).countP (!·.alive) =
          w.deadCount := Array.countP_push_of_neg (by simp [Organism.root, Organism.newborn])
      exact Nat.le_trans (Nat.le_of_eq hdead) h.dead
  · exact h

end World

/-! ## The number of cycles -/

namespace Chronicle

variable (c : Chronicle)

theorem Uneventful.cycles {c d : Chronicle} (h : c.Uneventful d) : d.cycles = c.cycles := by
  obtain ⟨es, hes, hquiet⟩ := h
  have hcleared : ∀ e ∈ es, decide (e ≠ .cleared) = true := fun e he =>
    decide_eq_true (hquiet e he).1
  have hcycles : es.countP Event.isCycle = 0 := by
    refine List.countP_eq_zero.mpr fun e he => ?_
    rw [(hquiet e he).2]
    exact Bool.false_ne_true
  rw [Chronicle.cycles, hes, List.takeWhile_append_of_pos hcleared, List.countP_append, hcycles,
    Nat.zero_add]
  rfl

theorem cycles_note_cycled (n : Nat) : (c.note (.cycled n)).cycles = c.cycles + 1 := by
  rw [cycles, note, List.takeWhile_cons_of_pos (by simp), List.countP_cons_of_pos rfl]
  rfl

theorem cycles_reset : c.reset.cycles = 0 := by
  simp [cycles, reset]

theorem cycles_step (w : World) :
    (c.step w).cycles = if w.extinct then c.cycles else c.cycles + 1 := by
  unfold step
  split_ifs
  · rfl
  · rw [cycles_note_cycled, (uneventful_turns _ _ _).cycles]
    rfl

end Chronicle

namespace World

variable {w : World} {c : Chronicle}

/-- A cycle is counted by the world and by its chronicle, and nothing else is. -/
theorem lasting_bookkept : Lasting fun w c => w.Sound ∧ w.Bookkept c.cycles where
  load := by
    rintro w c ⟨hw, h⟩ a vs
    rw [(c.uneventful_load a vs).cycles]
    exact ⟨sound_load hw a vs, bookkept_load h a vs⟩
  addRoot := by
    rintro w c ⟨hw, h⟩ a
    rw [(c.uneventful_addRoot w a).cycles]
    exact ⟨sound_addRoot hw a, bookkept_addRoot h a⟩
  setRate := by
    rintro w c ⟨hw, h⟩ rate
    exact ⟨sound_setSettings hw (Settings.probability_setRate _ rate), bookkept_setSettings h _⟩
  setMaxAge := by
    rintro w c ⟨hw, h⟩ maxAge
    exact ⟨sound_setSettings hw hw.habitat.rate, bookkept_setSettings h _⟩
  step := by
    rintro w c ⟨hw, h⟩
    refine ⟨sound_step hw, ?_⟩
    rw [Chronicle.cycles_step]
    cases hl : w.extinct with
    | true =>
      rw [step_of_extinct hl]
      exact bookkept_reap h
    | false => exact bookkept_step hw h hl
  reset := by
    rintro w c ⟨hw, -⟩
    rw [Chronicle.cycles_reset]
    exact ⟨sound_reset hw, bookkept_reset w⟩

theorem Chronicled.bookkept (h : w.Chronicled c) : w.Bookkept c.cycles :=
  (lasting_bookkept.of_chronicled (fun config seed =>
    ⟨sound_ofConfig config seed, bookkept_ofConfig config seed⟩) h).2

/-- While the cycles since the beginning or the last reset fit into their counter, it bounds what every
listed organism, dead or alive, has lived, and the number of mutations, and it gives the length of the
history. At no moment, not even within a cycle, are more organisms listed than twice as many as may
live. -/
theorem bounds_of_chronicled (h : w.Chronicled c) (hc : c.cycles < 2 ^ 64) :
    w.cycles.toNat = c.cycles ∧
    (∀ o ∈ w.population, o.age.toNat + o.depth.toNat ≤ w.cycles.toNat) ∧
    w.habitat.mutations.toNat ≤ w.cycles.toNat * w.cap.toNat ∧
    w.population.size ≤ 2 * w.cap.toNat ∧
    (∀ k ≤ w.livingCount, (w.midway k).population.size ≤ 2 * w.cap.toNat) ∧
    w.history.length = min w.cycles.toNat w.historyCapacity.toNat := by
  have hbook := h.bookkept
  have hcycles : w.cycles.toNat = c.cycles := by
    rw [hbook.cycles]
    exact UInt64.toNat_ofNat_of_lt hc
  rw [hcycles]
  refine ⟨rfl, hbook.lives, hbook.mutations, ?_, fun k hk => size_midway_le h.sound hk,
    hbook.history⟩
  have hdead := hbook.dead
  have hliving := h.sound.capped
  rw [size_eq]
  omega

/-- A copying program at a rate of one that lives, is reset, and lives again for five cycles. -/
theorem bounds_of_chronicled_reset :
    let w := ofConfig ⟨.one, 9, 3, 2, some 7⟩ 0
    let v := w.performAll
      [.plant 4094 (Ancestor.program 3 4), .run 4, .reset, .plant 0 (Ancestor.program 3 4), .run 5]
    let c := Chronicle.empty.performAll w
      [.plant 4094 (Ancestor.program 3 4), .run 4, .reset, .plant 0 (Ancestor.program 3 4), .run 5]
    c.cycles = 5 ∧ v.cycles.toNat = c.cycles ∧
    (∀ o ∈ v.population, o.age.toNat + o.depth.toNat ≤ v.cycles.toNat) ∧
    v.habitat.mutations.toNat ≤ v.cycles.toNat * v.cap.toNat ∧
    v.population.size ≤ 2 * v.cap.toNat ∧
    (∀ k ≤ v.livingCount, (v.midway k).population.size ≤ 2 * v.cap.toNat) ∧
    v.history.length = min v.cycles.toNat v.historyCapacity.toNat := by
  intro w v c
  have hc : c.cycles = 5 := by decide +kernel
  have hv : v.Chronicled c := (Chronicled.fresh _ _).performAll (by simp)
  exact ⟨hc, bounds_of_chronicled hv (Nat.lt_of_le_of_lt (Nat.le_of_eq hc) (by decide))⟩

end World

end Vivarium
