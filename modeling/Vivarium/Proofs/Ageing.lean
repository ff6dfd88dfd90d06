import Vivarium.Proofs.Births

/-!
# Age and death

An organism dies in its turn if it carries out `die`, or if its age, with this turn counted, is past the
limit. The limit is the one that holds after its own act: what it sets itself counts, and what an organism
before it has set in the same cycle, but not what one behind it sets.

* `Act.limit?` : the age limit that an act sets, if it sets one; `Act.limitAfter` : the limit that holds
  after some acts; `World.maxAge_midway` : that limit in the course of a cycle;
* `Act.Aged`, `Act.aged_afterTurn` : what becomes of an organism in its turn;
* `World.getElem?_acts`, `World.getElem?_step` : the act of each of the living, and what became of it at the
  end of the cycle;
* `World.lifeIn` : the acts of one organism in some cycles; `World.ages_lifeIn` : its age in each of them;
* `World.death_law` : who is alive after a cycle, and for how many acts an organism lives.
-/

namespace Vivarium

/-! ## Limits -/

namespace Settings

theorem maxAge_tune (s : Settings) (command argument : Word) : (s.tune command argument).maxAge =
    if command.toInt = Knob.maxAge.number then .ofNat argument.toInt.toNat else s.maxAge := by
  unfold tune
  by_cases hrate : command.toInt = Knob.rate.number
  · have hne : command.toInt ≠ Knob.maxAge.number := by
      rw [hrate]
      decide
    rw [if_pos hrate, if_neg hne]
    rfl
  · rw [if_neg hrate]
    split_ifs <;> rfl

end Settings

namespace Act

/-- The age limit that the act sets, if it sets one. -/
def limit? (x : Act) : Option UInt64 :=
  if x.command? = some Settings.Knob.maxAge.number then
    some (.ofNat (x.instruction.b.read x.organism x.habitat.memory).toInt.toNat)
  else none

/-- The age limit that holds after acts that begin under `limit`: the last one that is set. -/
def limitAfter (limit : UInt64) (xs : List Act) : UInt64 := (xs.filterMap limit?).getLastD limit

theorem limitAfter_cons (limit : UInt64) (x : Act) (xs : List Act) :
    limitAfter limit (x :: xs) = limitAfter (x.limit?.getD limit) xs := by
  unfold limitAfter
  rw [List.filterMap_cons]
  cases x.limit? with
  | none => rfl
  | some m => exact List.getLastD_cons

/-- A limit that every act either leaves or sets again stays. -/
theorem limitAfter_of_constant {limit : UInt64} {xs : List Act}
    (h : ∀ x ∈ xs, ∀ m ∈ x.limit?, m = limit) : limitAfter limit xs = limit := by
  induction xs with
  | nil => rfl
  | cons x xs ih =>
    have hfirst : x.limit?.getD limit = limit := by
      cases hx : x.limit? with
      | none => rfl
      | some m => exact h x List.mem_cons_self m hx
    rw [limitAfter_cons, hfirst]
    exact ih fun y hy => h y (List.mem_cons_of_mem x hy)

variable {x : Act}

theorem maxAge_outcome (hx : x.organism.Sound) :
    x.outcome.habitat.settings.maxAge = x.limit?.getD x.habitat.settings.maxAge := by
  rw [outcome_eq hx]
  by_cases hsys : x.instruction.opcode? = some .sys
  · rw [Instruction.execute_of_ne_rand (by simp [hsys]), Instruction.effect, hsys]
    show (x.habitat.settings.tune _ _).maxAge = _
    rw [Settings.maxAge_tune, limit?, command?, if_pos hsys]
    simp only [Option.some.injEq]
    split_ifs <;> rfl
  · rw [Instruction.settings_execute hsys, limit?, command?, if_neg hsys]
    rfl

theorem maxAge_of_chain {xs : List Act} {h k : Habitat} (hchain : Chain h xs k)
    (hxs : ∀ x ∈ xs, x.organism.Sound) : k.settings.maxAge = limitAfter h.settings.maxAge xs := by
  induction xs generalizing h with
  | nil =>
    obtain rfl : k = h := hchain
    rfl
  | cons x xs ih =>
    obtain ⟨rfl, hrest⟩ := hchain
    rw [limitAfter_cons, ← maxAge_outcome (hxs x List.mem_cons_self)]
    exact ih hrest fun y hy => hxs y (List.mem_cons_of_mem x hy)

/-! ## Deaths -/

/-- What becomes of the organism of an act under the age limit that holds after it. -/
structure Aged (x : Act) (limit : UInt64) (p : Organism) : Prop where
  ip : p.ip = (x.outcome.flow.target x.organism.here).toUInt64
  age : p.age = x.organism.age + 1
  alive : p.alive = true ↔ x.instruction.opcode? ≠ some .die ∧ (limit = 0 ∨ p.age ≤ limit)

theorem alive_outcome_iff (hx : x.organism.Sound) (ha : x.organism.alive = true) :
    x.outcome.organism.alive = true ↔ x.instruction.opcode? ≠ some .die := by
  rw [outcome_eq hx]
  by_cases hdie : x.instruction.opcode? = some .die
  · have heffect : x.instruction.effect x.organism x.habitat.memory 0 = .die :=
      (x.instruction.effect_eq_die_iff _ _ _).mpr hdie
    rw [Instruction.execute_of_ne_rand (by simp [hdie]), heffect]
    simp [Effect.apply, Organism.kill, hdie]
  · rw [Instruction.alive_execute hdie]
    simp [ha, hdie]

theorem aged_afterTurn (hx : x.organism.Sound) (ha : x.organism.alive = true) :
    x.Aged x.outcome.habitat.settings.maxAge (x.organism.afterTurn x.habitat) := by
  have hkeeps : x.organism.Keeps x.outcome.organism := x.organism.keeps_perform x.habitat
  have hage : (x.organism.afterTurn x.habitat).age = x.organism.age + 1 :=
    x.organism.age_afterTurn x.habitat
  refine ⟨?_, hage, ?_⟩
  · show (x.outcome.flow.target x.outcome.organism.here).toUInt64 = _
    rw [Organism.here, hkeeps.ip, Organism.here]
  · rw [hage, ← alive_outcome_iff hx ha, ← Settings.expired_eq_false_iff, ← hkeeps.age]
    show (x.outcome.organism.alive && !x.outcome.habitat.settings.expired _) = true ↔ _
    rw [Bool.and_eq_true, Bool.not_eq_true']
    rfl

/-- The acts are those of one organism, which is `o` at first: each finds it as its turn before has left
it. -/
def Life : Organism → List Act → Prop
  | _, [] => True
  | o, x :: xs => x.organism = o ∧ Life (o.afterTurn x.habitat) xs

end Act

/-! ## Cycles -/

namespace World

variable {w : World}

theorem actsBy_append (is js : List Nat) (w : World) :
    actsBy (is ++ js) w = actsBy is w ++ actsBy js (is.foldl turn w) := by
  induction is generalizing w with
  | nil => rfl
  | cons i is ih => rw [List.cons_append, actsBy, ih, ← List.append_assoc, actsBy, List.foldl_cons]

/-- The acts of the first turns of a cycle, one for each. -/
theorem actsBy_range_succ (hw : w.Sound) {k : Nat} (hk : k < w.livingCount) {o : Organism}
    (ho : w.living[k]? = some o) : actsBy (List.range (k + 1)) w.reap =
      actsBy (List.range k) w.reap ++ [⟨o, (w.midway k).habitat⟩] := by
  have hat : (w.midway k).population[k]? = some o := by rw [getElem?_midway hw hk, ho]
  rw [List.range_succ, actsBy_append]
  show _ ++ (((w.midway k).act? k).toList ++ []) = _
  rw [act?_of_some hat]
  rfl

theorem exists_living {k : Nat} (hk : k < w.livingCount) : ∃ o, w.living[k]? = some o := by
  rw [← length_living] at hk
  exact ⟨_, List.getElem?_eq_getElem hk⟩

theorem length_actsBy_range (hw : w.Sound) {k : Nat} (hk : k ≤ w.livingCount) :
    (actsBy (List.range k) w.reap).length = k := by
  induction k with
  | zero => rfl
  | succ k ih =>
    obtain ⟨o, ho⟩ := exists_living hk
    rw [actsBy_range_succ hw hk ho, List.length_append, ih (by omega)]
    rfl

theorem take_acts (hw : w.Sound) {k : Nat} (hk : k ≤ w.livingCount) :
    w.acts.take k = actsBy (List.range k) w.reap := by
  obtain ⟨m, hm⟩ := Nat.exists_eq_add_of_le hk
  rw [acts, hm, List.range_add, actsBy_append, List.take_append_of_le_length, List.take_of_length_le]
  · exact (length_actsBy_range hw hk).le
  · exact (length_actsBy_range hw hk).ge

theorem getElem?_acts (hw : w.Sound) {k : Nat} (hk : k < w.livingCount) {o : Organism}
    (ho : w.living[k]? = some o) : w.acts[k]? = some ⟨o, (w.midway k).habitat⟩ := by
  have hlength : (actsBy (List.range k) w.reap).length = k := length_actsBy_range hw hk.le
  rw [← List.getElem?_take_of_lt (Nat.lt_succ_self k), take_acts hw hk, actsBy_range_succ hw hk ho,
    List.getElem?_append_right hlength.le, hlength, Nat.sub_self]
  rfl

theorem maxAge_midway (hw : w.Sound) {k : Nat} (hk : k ≤ w.livingCount) :
    (w.midway k).settings.maxAge = Act.limitAfter w.settings.maxAge (w.acts.take k) := by
  rw [take_acts hw hk]
  exact Act.maxAge_of_chain (chain_actsBy (List.range k) w.reap) fun x hx =>
    (sound_of_mem_actsBy (sound_reap hw) hx).1

/-- Once an organism has had its turn, nobody changes it in the same cycle. -/
theorem getElem?_midway_of_lt (hw : w.Sound) {k m : Nat} (hkm : k < m) (hm : m ≤ w.livingCount)
    {o : Organism} (ho : w.living[k]? = some o) :
    (w.midway m).population[k]? = some (o.afterTurn (w.midway k).habitat) := by
  induction m with
  | zero => cases hkm
  | succ m ih =>
    obtain ⟨p, hp⟩ := exists_living hm
    have hat : (w.midway m).population[m]? = some p := by rw [getElem?_midway hw hm, hp]
    have hsize : m < (w.midway m).population.size := (Array.getElem?_eq_some_iff.mp hat).1
    rw [midway_succ]
    -- The last turn so far is another's or its own.
    rcases Nat.lt_or_eq_of_le (Nat.le_of_lt_succ hkm) with hlt | rfl
    · rw [getElem?_turn_of_ne hat hlt.ne (hlt.trans hsize)]
      exact ih hlt (by omega)
    · obtain rfl : o = p := Option.some.inj (ho.symm.trans hp)
      rw [turn_eq_parts hat]
      simp [Array.getElem?_append_left, hsize]

theorem getElem?_step (hw : w.Sound) {k : Nat} (hk : k < w.livingCount) {o : Organism}
    (ho : w.living[k]? = some o) :
    w.step.population[k]? = some (o.afterTurn (w.midway k).habitat) := by
  have hl : w.extinct = false := beq_eq_false_iff_ne.mpr (by omega)
  rw [step_eq_midway hl]
  exact getElem?_midway_of_lt hw hk (Nat.le_refl _) ho

/-- Each of the living has its act, and what becomes of it is settled by the limit that holds then. -/
theorem aged_step (hw : w.Sound) {k : Nat} (hk : k < w.livingCount) {o : Organism}
    (ho : w.living[k]? = some o) : ∃ x p,
    w.acts[k]? = some x ∧ x.organism = o ∧ w.step.population[k]? = some p ∧
    p = o.afterTurn x.habitat ∧
    x.outcome.habitat.settings.maxAge = Act.limitAfter w.settings.maxAge (w.acts.take (k + 1)) ∧
    x.Aged (Act.limitAfter w.settings.maxAge (w.acts.take (k + 1))) p := by
  have hmember : o ∈ w.living := List.mem_of_getElem? ho
  have hsound : o.Sound := hw.members o (mem_population_of_mem_living hmember)
  have hat : (w.midway k).population[k]? = some o := by rw [getElem?_midway hw hk, ho]
  have hlimit : (Act.mk o (w.midway k).habitat).outcome.habitat.settings.maxAge =
      Act.limitAfter w.settings.maxAge (w.acts.take (k + 1)) := by
    rw [← maxAge_midway hw hk, midway_succ, turn_eq_parts hat]
    rfl
  refine ⟨⟨o, (w.midway k).habitat⟩, _, getElem?_acts hw hk ho, rfl, getElem?_step hw hk ho, rfl, hlimit,
    ?_⟩
  rw [← hlimit]
  exact Act.aged_afterTurn (x := ⟨o, (w.midway k).habitat⟩) hsound (List.mem_filter.mp hmember).2

/-- Whoever is alive after a cycle has had a turn in it or is a child. -/
theorem exists_of_mem_step (hw : w.Sound) {p : Organism} (hp : p ∈ w.step.population) :
    (∃ k < w.livingCount, w.step.population[k]? = some p) ∨ p.age = 0 := by
  cases hl : w.extinct with
  | true =>
    have hnobody : w.reap.population.size = 0 := by
      rw [size_reap]
      exact beq_iff_eq.mp hl
    rw [step_of_extinct hl, Array.size_eq_zero_iff.mp hnobody] at hp
    exact absurd hp (Array.not_mem_empty p)
  | false =>
    obtain ⟨results, births, hpop, hresults, hbirths⟩ := exists_midway hw (Nat.le_refl w.livingCount)
    have hlength : results.length = w.livingCount := by
      rw [← hresults.length_eq, List.length_take, length_living, Nat.min_self]
    rw [step_eq_midway hl] at hp ⊢
    show (∃ k < _, (w.midway w.livingCount).population[k]? = some p) ∨ _
    have hp' : p ∈ (w.midway w.livingCount).population.toList := Array.mem_toList_iff.mpr hp
    rw [hpop, ← length_living, List.drop_length, List.nil_append, List.mem_append] at hp'
    rcases hp' with hp' | hp'
    · obtain ⟨k, hk, rfl⟩ := List.getElem_of_mem hp'
      refine Or.inl ⟨k, hlength ▸ hk, ?_⟩
      rw [← Array.getElem?_toList, hpop, List.getElem?_append_left hk, List.getElem?_eq_getElem hk]
    · obtain ⟨birth, hbirth, hp'⟩ := List.mem_flatMap.mp hp'
      obtain ⟨o, -, hchild⟩ := exists_of_forall₂ hbirths hbirth
      obtain ⟨a, hp'⟩ := hchild p (Option.mem_toList.mp hp')
      exact Or.inr hp'.age

/-- Under a limit that stays, nobody is alive after a cycle who is older. -/
theorem age_le_of_alive (hw : w.Sound) (hlimit : w.settings.maxAge ≠ 0)
    (hconstant : ∀ x ∈ w.acts, ∀ m ∈ x.limit?, m = w.settings.maxAge) {p : Organism}
    (hp : p ∈ w.step.population) (ha : p.alive = true) : p.age ≤ w.settings.maxAge := by
  rcases exists_of_mem_step hw hp with ⟨k, hk, hat⟩ | hage
  · obtain ⟨o, ho⟩ := exists_living hk
    obtain ⟨x, q, -, -, hq, -, -, haged⟩ := aged_step hw hk ho
    obtain rfl : p = q := Option.some.inj (hat.symm.trans hq)
    rw [Act.limitAfter_of_constant fun x hx => hconstant x (List.mem_of_mem_take hx)] at haged
    exact (haged.alive.mp ha).2.resolve_left hlimit
  · rw [hage]
    exact UInt64.zero_le

/-! ## Lives -/

/-- The number of the living before the organism `j`: its place in the order of turns. -/
def rank (w : World) (j : Nat) : Nat := (w.population.toList.take j).countP (·.alive)

theorem getElem?_living_rank {j : Nat} {o : Organism} (h : w.population[j]? = some o)
    (ha : o.alive = true) : w.living[w.rank j]? = some o := by
  obtain ⟨hj, ho⟩ := Array.getElem?_eq_some_iff.mp h
  have hsplit : w.population.toList =
      w.population.toList.take j ++ o :: w.population.toList.drop (j + 1) := by
    rw [← ho, ← Array.getElem_toList, ← List.drop_eq_getElem_cons, List.take_append_drop]
  have hrank : ((w.population.toList.take j).filter (·.alive)).length = w.rank j :=
    List.countP_eq_length_filter.symm
  rw [living, hsplit, List.filter_append, List.filter_cons_of_pos ha,
    List.getElem?_append_right hrank.le, hrank, Nat.sub_self]
  rfl

/-- The acts of organism `j` in the next `n` cycles, as long as it is alive. -/
def lifeIn : Nat → World → Nat → List Act
  | 0, _, _ => []
  | n + 1, w, j =>
    if w.population[j]?.any (·.alive) then
      w.acts[w.rank j]?.toList ++ lifeIn n w.step (w.rank j)
    else []

/-- The first act of a life, and the organism that goes on with the others. -/
theorem lifeIn_succ (hw : w.Sound) {j : Nat} {o : Organism} (h : w.population[j]? = some o)
    (ha : o.alive = true) (n : Nat) : ∃ x p,
    x ∈ w.acts ∧ x.organism = o ∧ w.step.population[w.rank j]? = some p ∧ p = o.afterTurn x.habitat ∧
    x.Aged (Act.limitAfter w.settings.maxAge (w.acts.take (w.rank j + 1))) p ∧
    lifeIn (n + 1) w j = x :: lifeIn n w.step (w.rank j) := by
  have ho : w.living[w.rank j]? = some o := getElem?_living_rank h ha
  have hk : w.rank j < w.livingCount := by
    rw [← length_living]
    exact (List.getElem?_eq_some_iff.mp ho).1
  obtain ⟨x, p, hx, hxo, hp, hpo, -, haged⟩ := aged_step hw hk ho
  refine ⟨x, p, List.mem_of_getElem? hx, hxo, hp, hpo, haged, ?_⟩
  rw [lifeIn, h, hx]
  simp [ha]

theorem lifeIn_of_dead {j : Nat} {o : Organism} (h : w.population[j]? = some o) (ha : o.alive = false)
    (n : Nat) : lifeIn n w j = [] := by
  cases n with
  | zero => rfl
  | succ n => simp [lifeIn, h, ha]

theorem life_lifeIn (n : Nat) (hw : w.Sound) {j : Nat} {o : Organism} (h : w.population[j]? = some o) :
    Act.Life o (lifeIn n w j) := by
  induction n generalizing w j o with
  | zero => trivial
  | succ n ih =>
    cases ha : o.alive with
    | false =>
      rw [lifeIn_of_dead h ha]
      trivial
    | true =>
      obtain ⟨x, p, -, hx, hp, rfl, -, hlife⟩ := lifeIn_succ hw h ha n
      rw [hlife]
      exact ⟨hx, ih (sound_step hw) hp⟩

theorem sublist_lifeIn (n : Nat) (hw : w.Sound) {j : Nat} {o : Organism} (h : w.population[j]? = some o) :
    (lifeIn n w j).Sublist (w.actsIn n) := by
  induction n generalizing w j o with
  | zero => exact List.nil_sublist _
  | succ n ih =>
    cases ha : o.alive with
    | false =>
      rw [lifeIn_of_dead h ha]
      exact List.nil_sublist _
    | true =>
      obtain ⟨x, p, hx, -, hp, -, -, hlife⟩ := lifeIn_succ hw h ha n
      rw [hlife]
      exact (List.singleton_sublist.mpr hx).append (ih (sound_step hw) hp)

theorem maxAge_step (hw : w.Sound) :
    w.step.settings.maxAge = Act.limitAfter w.settings.maxAge w.acts :=
  Act.maxAge_of_chain (chain_acts w) fun _ hx => (sound_of_mem_actsBy (sound_reap hw) hx).1

/-- Under a limit that stays, an organism that never carries out `die` acts at every age from its own to
the limit, as far as there are cycles, and no longer. -/
theorem ages_lifeIn (n : Nat) (hw : w.Sound) {limit : UInt64} (hset : w.settings.maxAge = limit)
    (hlimit : limit ≠ 0) (hroom : limit.toNat + 1 < 2 ^ 64) {j : Nat} {o : Organism}
    (h : w.population[j]? = some o) (ha : o.alive = true) (hage : o.age ≤ limit)
    (hconstant : ∀ x ∈ w.actsIn n, ∀ m ∈ x.limit?, m = limit)
    (hdie : ∀ x ∈ lifeIn n w j, x.instruction.opcode? ≠ some .die) :
    (lifeIn n w j).map (·.organism.age.toNat) =
      List.range' o.age.toNat (min n (limit.toNat + 1 - o.age.toNat)) := by
  induction n generalizing w j o with
  | zero =>
    rw [Nat.zero_min]
    rfl
  | succ n ih =>
    obtain ⟨x, p, hx, hxo, hp, -, haged, hlife⟩ := lifeIn_succ hw h ha n
    have hacts : ∀ y ∈ w.acts, ∀ m ∈ y.limit?, m = limit := fun y hy =>
      hconstant y (List.mem_append_left _ hy)
    have hkept : w.step.settings.maxAge = limit := by
      rw [maxAge_step hw, hset, Act.limitAfter_of_constant hacts]
    rw [hset, Act.limitAfter_of_constant fun y hy => hacts y (List.mem_of_mem_take hy)] at haged
    rw [hlife] at hdie ⊢
    have hle : o.age.toNat ≤ limit.toNat := UInt64.le_iff_toNat_le.mp hage
    have hnext : p.age.toNat = o.age.toNat + 1 := by
      rw [haged.age, hxo, UInt64.toNat_add, UInt64.toNat_one, Nat.mod_eq_of_lt (by omega)]
    have halive : p.alive = true ↔ p.age ≤ limit := by
      rw [haged.alive]
      simp [hdie x List.mem_cons_self, hlimit]
    -- It goes on with the others while it is within the limit, and has no act once it is past it.
    have hrest : (lifeIn n w.step (w.rank j)).map (·.organism.age.toNat) =
        List.range' p.age.toNat (min n (limit.toNat + 1 - p.age.toNat)) := by
      by_cases hyoung : p.age ≤ limit
      · exact ih (sound_step hw) hkept hp (halive.mpr hyoung) hyoung
          (fun y hy => hconstant y (List.mem_append_right _ hy))
          fun y hy => hdie y (List.mem_cons_of_mem x hy)
      · have hdead : p.alive = false := by
          rw [← Bool.not_eq_true, halive]
          exact hyoung
        have hpast : min n (limit.toNat + 1 - p.age.toNat) = 0 := by
          rw [UInt64.le_iff_toNat_le] at hyoung
          omega
        rw [lifeIn_of_dead hp hdead, hpast]
        rfl
    have hcount : min (n + 1) (limit.toNat + 1 - o.age.toNat) =
        min n (limit.toNat + 1 - p.age.toNat) + 1 := by
      omega
    rw [List.map_cons, hrest, hxo, hcount, List.range'_succ, hnext]

/-- In a cycle each of the living has one act. Its age is one more after it, its pointer is where the act
says, and it is alive iff the act was not `die` and its age is not past the limit that holds right after
the act, which is the last one set in this cycle until then. If the limit stays the same, nobody is alive
after the cycle who is past it; and if it stays the same for some cycles, an organism that has had no turn
before and never carries out `die` acts at the ages from zero to the limit, if there are cycles enough, and
never again. -/
theorem death_law (hw : w.Sound) :
    (∀ k < w.livingCount, ∃ x p, w.acts[k]? = some x ∧ w.living[k]? = some x.organism ∧
      w.step.population[k]? = some p ∧
      x.outcome.habitat.settings.maxAge = Act.limitAfter w.settings.maxAge (w.acts.take (k + 1)) ∧
      x.Aged (Act.limitAfter w.settings.maxAge (w.acts.take (k + 1))) p ∧
      (x.organism.age.toNat + 1 < 2 ^ 64 → p.age.toNat = x.organism.age.toNat + 1)) ∧
    (w.settings.maxAge ≠ 0 → (∀ x ∈ w.acts, ∀ m ∈ x.limit?, m = w.settings.maxAge) →
      ∀ p ∈ w.step.population, p.alive = true → p.age ≤ w.settings.maxAge) ∧
    ∀ n j o, w.population[j]? = some o → o.alive = true → o.age = 0 → w.settings.maxAge ≠ 0 →
      w.settings.maxAge.toNat + 1 < 2 ^ 64 →
      (∀ x ∈ w.actsIn n, ∀ m ∈ x.limit?, m = w.settings.maxAge) →
      (∀ x ∈ lifeIn n w j, x.instruction.opcode? ≠ some .die) →
      Act.Life o (lifeIn n w j) ∧ (lifeIn n w j).Sublist (w.actsIn n) ∧
      (lifeIn n w j).map (·.organism.age.toNat) = List.range (min n (w.settings.maxAge.toNat + 1)) := by
  refine ⟨fun k hk => ?_, fun hlimit hconstant p hp ha => age_le_of_alive hw hlimit hconstant hp ha, ?_⟩
  · obtain ⟨o, ho⟩ := exists_living hk
    obtain ⟨x, p, hx, rfl, hp, -, hlimit, haged⟩ := aged_step hw hk ho
    refine ⟨x, p, hx, ho, hp, hlimit, haged, fun hroom => ?_⟩
    rw [haged.age, UInt64.toNat_add, UInt64.toNat_one, Nat.mod_eq_of_lt hroom]
  · intro n j o h ha hage hlimit hroom hconstant hdie
    have hyoung : o.age ≤ w.settings.maxAge := by
      rw [hage]
      exact UInt64.zero_le
    have hages := ages_lifeIn n hw rfl hlimit hroom h ha hyoung hconstant hdie
    rw [hage, UInt64.toNat_zero, Nat.sub_zero, ← List.range_eq_range'] at hages
    exact ⟨life_lifeIn n hw h, sublist_lifeIn n hw h, hages⟩

/-- Of three organisms of the same age the second sets a limit below it: the first is spared, the others
die. Under a limit of two an organism that jumps to itself acts three times in five cycles. -/
theorem death_law_by_order :
    let w := (ofConfig ⟨.zero, 0, 3, 2, some 7⟩ 0).performAll
      [.load 1 [(Instruction.new .sys ⟨.immediate, 2⟩ ⟨.immediate, 1⟩).toWord], .addRoot 10, .addRoot 0,
        .addRoot 20, .step]
    let v := (ofConfig ⟨.zero, 2, 3, 2, some 7⟩ 0).performAll
      [.load 0 [(Instruction.new .jmp ⟨.relative, 0⟩ ⟨.immediate, 0⟩).toWord], .addRoot 0]
    w.Sound ∧ v.Sound ∧ w.acts.map Act.limit? = [none, some 1, none] ∧
    (∃ p, w.step.population[0]? = some p ∧ p.age = 2 ∧ p.alive = true) ∧
    (∃ p, w.step.population[2]? = some p ∧ p.age = 2 ∧ p.alive = false) ∧
    (lifeIn 5 v 0).map (·.organism.age.toNat) = [0, 1, 2] := by
  intro w v
  have hw : w.Sound := ((Reachable.fresh _ _).performAll _).sound
  have hv : v.Sound := ((Reachable.fresh _ _).performAll _).sound
  have hliving : w.livingCount = 3 := by decide +kernel
  have hacts : ∀ x ∈ w.acts, x.organism.age = 1 ∧ x.instruction.opcode? ≠ some .die := by
    decide +kernel
  have hlimits : w.acts.map Act.limit? = [none, some 1, none] := by decide +kernel
  obtain ⟨hcycle, -, -⟩ := death_law hw
  obtain ⟨-, -, hlife⟩ := death_law hv
  refine ⟨hw, hv, hlimits, ?_, ?_, ?_⟩
  · obtain ⟨x, p, hx, -, hp, -, haged, -⟩ := hcycle 0 (by omega)
    have hlimit : Act.limitAfter w.settings.maxAge (w.acts.take 1) = 0 := by decide +kernel
    obtain ⟨hage, hop⟩ := hacts x (List.mem_of_getElem? hx)
    exact ⟨p, hp, by rw [haged.age, hage]; rfl, haged.alive.mpr ⟨hop, Or.inl hlimit⟩⟩
  · obtain ⟨x, p, hx, -, hp, -, haged, -⟩ := hcycle 2 (by omega)
    have hlimit : Act.limitAfter w.settings.maxAge (w.acts.take 3) = 1 := by decide +kernel
    obtain ⟨hage, -⟩ := hacts x (List.mem_of_getElem? hx)
    have hp2 : p.age = 2 := by rw [haged.age, hage]; rfl
    have hdead : ¬ p.alive = true := by
      rw [haged.alive, hlimit, hp2]
      exact fun halive => absurd halive.2 (by decide)
    exact ⟨p, hp, hp2, Bool.not_eq_true _ ▸ hdead⟩
  · obtain ⟨o, ho⟩ : ∃ o, v.population[0]? = some o := Option.isSome_iff_exists.mp (by decide +kernel)
    have hyoung : ∀ o ∈ v.population[0]?, o.alive = true ∧ o.age = 0 := by decide +kernel
    obtain ⟨halive, hage⟩ := hyoung o ho
    have hnone : ∀ x ∈ v.actsIn 5, x.limit? = none := by decide +kernel
    have hconstant : ∀ x ∈ v.actsIn 5, ∀ m ∈ x.limit?, m = v.settings.maxAge := by
      intro x hx m hm
      rw [hnone x hx] at hm
      cases hm
    have hdie : ∀ x ∈ lifeIn 5 v 0, x.instruction.opcode? ≠ some .die := by decide +kernel
    exact (hlife 5 0 o ho halive hage (by decide +kernel) (by decide +kernel) hconstant hdie).2.2

end World

end Vivarium
