import Vivarium.Proofs.Seeding
import Vivarium.Proofs.Turn

/-!
# The ancestor replicates

A root in front of an accepted ancestor, left to itself at a rate of zero, copies its block one word a
cycle. In the next cycle it has a child at the copy, and in the one after that it dies, unless the
first copy has taken the place of the word that ends it.

* `Organism.perform_copyWord`, `Organism.perform_birthWord`, `Organism.perform_deathWord` : what the
  words of the program do;
* `Ancestor.Copying` : the worlds with a root that has had `n` turns, kept up by
  `Ancestor.copying_step` for as long as there are words to copy;
* `Ancestor.Delivered` : the worlds with a root and its child, reached by `Ancestor.delivered_iterate`;
* `RunOptions.ancestor_replicates`, `RunOptions.handover_iff` : what has become of the world of a run
  without a snapshot after `length + 1` and after `length + 2` cycles;
* `RunOptions.root_outlives_handover` : an ancestor that overwrites its own last word.
-/

namespace Vivarium

/-! ## The words of the program -/

namespace Organism

variable {o : Organism} {h : Habitat}

theorem perform_copyWord (ho : o.ip.toNat < Address.count) {offset : Word}
    (hfit : Field.Fits offset.toInt) (hword : h.memory.word o.here = Ancestor.copyWord offset) :
    o.perform h = ⟨o, h.write (o.here + Address.ofWord offset) (Ancestor.copyWord offset) o.hue,
      .next, none⟩ := by
  -- The instruction reads the cell it stands in, so what it writes is its own word.
  have hself : (⟨.relative, 0⟩ : Operand).read o h.memory = Ancestor.copyWord offset := by
    show h.memory.word (o.here + 0#12) = _
    rw [BitVec.add_zero, hword]
  rw [perform_of_new ho (by rw [hword, Ancestor.ofWord_copyWord hfit]) (by decide)]
  show (Effect.store _ ((⟨.relative, 0⟩ : Operand).read o h.memory)).apply o h = _
  rw [hself]
  rfl

theorem perform_birthWord (ho : o.ip.toNat < Address.count) {distance : Word}
    (hfit : Field.Fits distance.toInt) (hword : h.memory.word o.here = Ancestor.birthWord distance) :
    o.perform h = ⟨o, h, .next, some (o.here + Address.ofWord distance)⟩ := by
  rw [perform_of_new ho (by rw [hword, Ancestor.ofWord_birthWord hfit]) (by decide)]
  rfl

theorem perform_deathWord (ho : o.ip.toNat < Address.count)
    (hword : h.memory.word o.here = Ancestor.deathWord) :
    o.perform h = ⟨o.kill, h, .next, none⟩ := by
  rw [perform_of_new ho (by rw [hword, Ancestor.ofWord_deathWord]) (by decide)]
  rfl

@[simp] theorem here_newborn (a : Address) (depth : UInt32) (hue : Hue) : (newborn a depth hue).here = a :=
  Address.ofUInt64_toUInt64 a

theorem ip_newborn_lt (a : Address) (depth : UInt32) (hue : Hue) :
    (newborn a depth hue).ip.toNat < Address.count :=
  a.toNat_toUInt64_lt

end Organism

theorem Settings.expired_eq_false {s : Settings} {n : Nat} (h : s.maxAge = 0 ∨ n ≤ s.maxAge.toNat) :
    s.expired (.ofNat n) = false := by
  refine (s.expired_eq_false_iff _).mpr (h.imp_right fun hn => ?_)
  rw [UInt64.le_iff_toNat_le, UInt64.toNat_ofNat_of_lt' (Nat.lt_of_le_of_lt hn s.maxAge.toNat_lt)]
  exact hn

namespace World

variable {w : World} {i : Nat} {o : Organism}

theorem turn_copyWord (hat : w.population[i]? = some o) (ho : o.ip.toNat < Address.count)
    (hr : w.settings.rate.equal .zero = true) {offset : Word} (hfit : Field.Fits offset.toInt)
    (hword : w.memory.word o.here = Ancestor.copyWord offset) :
    w.turn i = { w with
      habitat := { w.habitat with
        memory := w.memory.set (o.here + Address.ofWord offset)
          ⟨Ancestor.copyWord offset, some o.hue⟩
        stream := w.habitat.stream.fraction.2 }
      population := w.population.setIfInBounds i (o.endTurn w.settings .next) } := by
  have hact := Organism.perform_copyWord ho hfit hword
  rw [Habitat.write_of_rate_zero hr] at hact
  rw [turn_of_no_birth hat (by rw [hact]), Organism.afterTurn, hact]
  rfl

theorem turn_deathWord (hat : w.population[i]? = some o) (ho : o.ip.toNat < Address.count)
    (hword : w.memory.word o.here = Ancestor.deathWord) :
    w.turn i = { w with
      population := w.population.setIfInBounds i (o.kill.endTurn w.settings .next) } := by
  have hact := Organism.perform_deathWord ho hword
  rw [turn_of_no_birth hat (by rw [hact]), Organism.afterTurn, hact]
  rfl

/-- Where there is room, the child lies where it was asked for. Only its hue depends on chance. -/
theorem turn_birthWord (hat : w.population[i]? = some o) (ho : o.ip.toNat < Address.count)
    (hroom : w.livingCount < w.cap.toNat) {distance : Word} (hfit : Field.Fits distance.toInt)
    (hword : w.memory.word o.here = Ancestor.birthWord distance) :
    ∃ inherited lineage, w.turn i = { w with
      population := w.population.setIfInBounds i (o.endTurn w.settings .next) ++
        #[.newborn (o.here + Address.ofWord distance) (Organism.nextDepth o.depth) inherited]
      lineage := lineage } := by
  have hact := Organism.perform_birthWord ho hfit hword
  have hchild : ((w.offspring i o).1).isSome = true := by
    rw [offspring, isSome_childOf_iff, acted, hact, setIfInBounds_of_getElem? hat]
    exact ⟨rfl, decide_eq_true hroom⟩
  obtain ⟨c, hc⟩ := Option.isSome_iff_exists.mp hchild
  obtain ⟨-, a, ha, hborn⟩ := childOf_eq_some hc
  rw [hact] at ha hborn
  refine ⟨(o.hue.drift w.lineage).1, (w.offspring i o).2, ?_⟩
  rw [turn_eq_parts hat, hc, Organism.afterTurn, hact, hborn, ← Option.some.inj ha]
  rfl

theorem step_of_single (h : w.population = #[o]) (ho : o.alive = true) :
    w.step = (w.turn 0).record := by
  rw [step_of_all_alive (by simpa [h] using ho) (by simp [h]), h]
  rfl

theorem step_of_pair {p : Organism} (h : w.population = #[o, p]) (ho : o.alive = true)
    (hp : p.alive = true) : w.step = ((w.turn 0).turn 1).record := by
  rw [step_of_all_alive (by simpa [h] using ⟨ho, hp⟩) (by simp [h]), h]
  rfl

end World

namespace Ancestor

/-! ## The root -/

/-- The root that is planted, once it has had `n` turns without a jump. -/
def progenitor (x : Ancestor) (hue : Hue) (n : Nat) : Organism :=
  { Organism.newborn (x.cell n) 0 hue with age := .ofNat n }

variable {x : Ancestor} {hue : Hue} {s : Settings} {n : Nat} {w : World}

@[simp] theorem here_progenitor : (x.progenitor hue n).here = x.cell n := Organism.here_newborn _ 0 hue

theorem ip_progenitor_lt : (x.progenitor hue n).ip.toNat < Address.count :=
  Organism.ip_newborn_lt _ 0 hue

theorem endTurn_progenitor (h : s.expired (.ofNat (n + 1)) = false) :
    (x.progenitor hue n).endTurn s .next = x.progenitor hue (n + 1) := by
  have hage : UInt64.ofNat n + 1 = .ofNat (n + 1) := (UInt64.ofNat_add n 1).symm
  have hip : Flow.next.target (x.progenitor hue n).here = x.cell (n + 1 : Nat) := by
    rw [here_progenitor, Nat.cast_succ]
    exact cell_add_one _
  unfold Organism.endTurn
  rw [hip]
  simp only [progenitor, Organism.newborn, hage, h]
  rfl

/-! ## Copying -/

theorem written_set (hx : x.Accepted) {m : Memory} (h : x.Written n m) (hn : n < x.length.toNat)
    (owner : Option Hue) :
    x.Written (n + 1) (m.set (x.cell (x.offset.toInt + n)) ⟨copyWord x.offset, owner⟩) := by
  refine ⟨fun i hi => ?_, ?_, fun hne => ?_, fun i hi => ?_⟩
  · rw [Memory.word_set, if_neg (cell_ne_copy hx hn (by omega)).symm]
    exact h.block i hi
  · rw [Memory.word_set, if_neg (cell_ne_copy hx hn (by omega)).symm]
    exact h.birth
  · have hne' : x.offset.toInt ≠ x.length.toNat + 1 := by simpa using hne
    rw [Memory.word_set, if_neg (cell_end_ne_copy hx hn hne').symm]
    exact h.death (Or.inl hne')
  · -- An earlier copy that lies in the same cell would be the same word.
    rw [Memory.word_set]
    split_ifs with heq
    · rfl
    · refine h.copies i (Nat.lt_of_le_of_ne (by omega) ?_)
      rintro rfl
      exact heq rfl

/-- A world in which the root is alone and has had `n` turns, in which it copied `n` words. -/
structure Copying (x : Ancestor) (hue : Hue) (s : Settings) (n : Nat) (w : World) : Prop where
  population : w.population = #[x.progenitor hue n]
  soup : x.Written n w.memory
  settings : w.settings = s
  mutations : w.habitat.mutations = 0
  room : 1 < w.cap.toNat

theorem copying_step (hx : x.Accepted) (hr : s.rate.equal .zero = true)
    (hage : s.expired (.ofNat (n + 1)) = false) (hn : n < x.length.toNat)
    (h : x.Copying hue s n w) : x.Copying hue s (n + 1) w.step := by
  obtain ⟨hpop, hsoup, rfl, hmutations, hroom⟩ := h
  have hat : w.population[0]? = some (x.progenitor hue n) := by simp [hpop]
  have hword : w.memory.word (x.progenitor hue n).here = copyWord x.offset := by
    rw [here_progenitor]
    exact hsoup.block n hn
  rw [World.step_of_single hpop rfl, World.turn_copyWord hat ip_progenitor_lt hr hx.copy hword, hpop,
    endTurn_progenitor hage, here_progenitor, cell_add_ofWord, Int.add_comm]
  exact ⟨rfl, written_set hx hsoup hn _, rfl, hmutations, hroom⟩

/-- As many words are copied as there are cycles, up to the whole block. -/
theorem copying_iterate (hx : x.Accepted) (hr : s.rate.equal .zero = true)
    (hage : s.maxAge = 0 ∨ x.length.toNat ≤ s.maxAge.toNat) (h : x.Copying hue s 0 w)
    (hn : n ≤ x.length.toNat) : x.Copying hue s n (World.step^[n] w) := by
  induction n with
  | zero => exact h
  | succ n ih =>
    rw [Function.iterate_succ_apply']
    refine copying_step hx hr (Settings.expired_eq_false ?_) hn (ih (by omega))
    exact hage.imp_right fun hle => by omega

/-! ## The child -/

/-- A world with the root and the child that it has just had at the copy. -/
structure Delivered (x : Ancestor) (hue : Hue) (s : Settings) (w : World) : Prop where
  population : ∃ inherited, w.population = #[x.progenitor hue (x.length.toNat + 1),
    .newborn (x.cell x.offset.toInt) 1 inherited]
  soup : x.Written x.length.toNat w.memory
  settings : w.settings = s
  mutations : w.habitat.mutations = 0

theorem delivered_step (hx : x.Accepted) (hage : s.expired (.ofNat (x.length.toNat + 1)) = false)
    (h : x.Copying hue s x.length.toNat w) : x.Delivered hue s w.step := by
  obtain ⟨hpop, hsoup, rfl, hmutations, hroom⟩ := h
  have hat : w.population[0]? = some (x.progenitor hue x.length.toNat) := by simp [hpop]
  have hword : w.memory.word (x.progenitor hue x.length.toNat).here = birthWord x.distance := by
    rw [here_progenitor]
    exact hsoup.birth
  have hfit : Field.Fits x.distance.toInt := by
    rw [toInt_distance hx]
    exact hx.birth
  -- The root is the only one alive when it asks for a child, so there is room.
  have hcount : w.livingCount < w.cap.toNat := by
    rw [World.livingCount, hpop]
    exact hroom
  obtain ⟨inherited, lineage, hturn⟩ := World.turn_birthWord hat ip_progenitor_lt hcount hfit hword
  rw [World.step_of_single hpop rfl, hturn, hpop, endTurn_progenitor hage, here_progenitor,
    cell_add_ofWord, toInt_distance hx, add_sub_cancel]
  exact ⟨⟨inherited, rfl⟩, hsoup, rfl, hmutations⟩

/-- Copying the block takes one cycle a word, and asking for the child one more. -/
theorem delivered_iterate (hx : x.Accepted) (hr : s.rate.equal .zero = true)
    (hage : s.maxAge = 0 ∨ x.length.toNat + 1 ≤ s.maxAge.toNat) (h : x.Copying hue s 0 w) :
    x.Delivered hue s (World.step^[x.length.toNat + 1] w) := by
  have hblock := hage.imp_right fun hle => Nat.le_of_succ_le hle
  rw [Function.iterate_succ_apply']
  exact delivered_step hx (Settings.expired_eq_false hage)
    (copying_iterate hx hr hblock h (Nat.le_refl _))

/-! ## The handover -/

/-- The word that ends the root is whole iff the first copy does not lie in its cell. -/
theorem word_end_eq_iff (hx : x.Accepted) (hlen : 1 ≤ x.length.toNat) {m : Memory}
    (h : x.Written x.length.toNat m) :
    m.word (x.cell (x.length.toNat + 1)) = deathWord ↔ x.offset.toInt ≠ x.length.toNat + 1 := by
  refine ⟨fun hword heq => ?_, fun hne => h.death (Or.inl hne)⟩
  have hcopy := h.copies 0 hlen
  rw [Nat.cast_zero, Int.add_zero, heq, hword] at hcopy
  exact copyWord_ne_deathWord hx.copy hcopy.symm

/-- In its next turn the root carries out the last word of the program, or the first copy if that has
taken its place. -/
theorem turn_progenitor (hx : x.Accepted) (hr : s.rate.equal .zero = true) (hage : s.maxAge = 0)
    (hlen : 1 ≤ x.length.toNat) (h : x.Delivered hue s w) : ∃ parent inherited,
      (w.turn 0).population = #[parent, .newborn (x.cell x.offset.toInt) 1 inherited] ∧
      parent.age = .ofNat (x.length.toNat + 2) ∧
      (parent.alive = false ↔ x.offset.toInt ≠ x.length.toNat + 1) ∧
      (w.turn 0).memory.word (x.cell x.offset.toInt) = copyWord x.offset ∧
      (w.turn 0).settings = s := by
  obtain ⟨⟨inherited, hpop⟩, hsoup, rfl, -⟩ := h
  have hat : w.population[0]? = some (x.progenitor hue (x.length.toNat + 1)) := by simp [hpop]
  have hcopy : w.memory.word (x.cell x.offset.toInt) = copyWord x.offset := by
    have hfirst := hsoup.copies 0 hlen
    rwa [Nat.cast_zero, Int.add_zero] at hfirst
  have hnext : (x.progenitor hue (x.length.toNat + 1)).age + 1 = .ofNat (x.length.toNat + 2) :=
    (UInt64.ofNat_add _ 1).symm
  by_cases hne : x.offset.toInt = x.length.toNat + 1
  · have hword : w.memory.word (x.progenitor hue (x.length.toNat + 1)).here = copyWord x.offset := by
      rw [here_progenitor, Nat.cast_succ, ← hne]
      exact hcopy
    rw [World.turn_copyWord hat ip_progenitor_lt hr hx.copy hword, hpop,
      endTurn_progenitor (Settings.expired_eq_false (Or.inl hage))]
    refine ⟨_, inherited, rfl, rfl, iff_of_false Bool.noConfusion (not_not.mpr hne), ?_, rfl⟩
    show Memory.word (Memory.set _ _ _) _ = _
    rw [Memory.word_set, hcopy]
    exact ite_self _
  · have hword : w.memory.word (x.progenitor hue (x.length.toNat + 1)).here = deathWord := by
      rw [here_progenitor, Nat.cast_succ]
      exact hsoup.death (Or.inl hne)
    rw [World.turn_deathWord hat ip_progenitor_lt hword, hpop]
    exact ⟨_, inherited, rfl, hnext, iff_of_true rfl hne, hcopy, rfl⟩

theorem handover_step (hx : x.Accepted) (hr : s.rate.equal .zero = true) (hage : s.maxAge = 0)
    (hlen : 1 ≤ x.length.toNat) (h : x.Delivered hue s w) : ∃ parent child,
      w.step.population.toList = [parent, child] ∧
      parent.age = .ofNat (x.length.toNat + 2) ∧
      (parent.alive = false ↔ x.offset.toInt ≠ x.length.toNat + 1) ∧
      child.alive = true ∧ child.age = 1 := by
  obtain ⟨parent, inherited, hpop, hparent, halive, hcopy, hs⟩ := turn_progenitor hx hr hage hlen h
  obtain ⟨⟨_, hpair⟩, -, -, -⟩ := h
  have hat : (w.turn 0).population[1]? = some (.newborn (x.cell x.offset.toInt) 1 inherited) := by
    simp [hpop]
  rw [← hs] at hr hage
  have hyoung := Settings.expired_eq_false (n := 1) (Or.inl hage)
  rw [← Organism.here_newborn (x.cell x.offset.toInt) 1 inherited] at hcopy
  rw [World.step_of_pair hpair rfl rfl,
    World.turn_copyWord hat (Organism.ip_newborn_lt _ 1 inherited) hr hx.copy hcopy, hpop]
  refine ⟨parent, _, rfl, hparent, halive, ?_, rfl⟩
  show (true && !(w.turn 0).settings.expired (.ofNat 1)) = true
  rw [hyoung]
  rfl

end Ancestor

/-! ## Runs -/

namespace World

theorem addRoot_of_hasRoom {w : World} (h : w.hasRoom = true) (a : Address) :
    ∃ hue lineage, (w.addRoot a).1 = { w with
      population := w.population.push (.newborn a 0 hue)
      lineage := lineage } := by
  refine ⟨(Hue.random w.lineage).1, (Hue.random w.lineage).2, ?_⟩
  rw [addRoot, if_pos h]
  rfl

end World

namespace CommandLine.RunOptions

open Ancestor

variable {o : RunOptions} {content : Except FileFault (List UInt8)} {entropy : UInt64} {w : World}
  {report : String}

/-- The world that a run starts from has nobody in it but the root, in front of the program. -/
theorem copying_of_prepare (hresume : o.resume = none)
    (hok : o.prepare content entropy = .ok (w, report)) :
    o.ancestor.Accepted ∧ w.settings = o.config.settings ∧
      ∃ hue, o.ancestor.Copying hue w.settings 0 w := by
  obtain ⟨hx, rfl⟩ := (prepare_eq_ok_iff hresume content entropy w).mp ⟨report, hok⟩
  have hroom : 1 < o.config.cap.toNat := by
    rw [cap_config]
    decide
  have hroom' : ((World.ofConfig o.config entropy).load (.ofUInt64 o.ancestor.start)
      (program o.ancestor.length.toNat o.ancestor.offset)).hasRoom = true :=
    decide_eq_true (Nat.lt_of_lt_of_le Nat.zero_lt_one hroom.le)
  have hstart : o.ancestor.cell (0 : Nat) = .ofUInt64 o.ancestor.start := by
    rw [cell, Nat.cast_zero, Int.add_zero, Address.ofUInt64_eq]
  obtain ⟨hue, lineage, hplant⟩ := World.addRoot_of_hasRoom hroom' (.ofUInt64 o.ancestor.start)
  rw [World.plant, hplant]
  refine ⟨hx, rfl, hue, ?_, written_load hx _, rfl, rfl, hroom⟩
  rw [progenitor, hstart]
  rfl

/-- An ancestor that is accepted is planted. -/
theorem exists_prepare {o : RunOptions} (hresume : o.resume = none) (hx : o.ancestor.refusal? = none)
    (content : Except FileFault (List UInt8)) (entropy : UInt64) :
    ∃ w report, o.prepare content entropy = .ok (w, report) ∧ w.settings = o.config.settings := by
  obtain ⟨report, hok⟩ := (prepare_eq_ok_iff hresume content entropy _).mpr
    ⟨(refusal?_eq_none_iff _).mp hx, rfl⟩
  exact ⟨_, report, hok, (copying_of_prepare hresume hok).2.1⟩

/-- After `length + 1` cycles at a rate of zero the root of a run without a snapshot has a child at
the copy of its block, which is word for word the block. -/
theorem ancestor_replicates (hresume : o.resume = none)
    (hok : o.prepare content entropy = .ok (w, report)) (hr : w.settings.rate.equal .zero = true)
    (hage : w.settings.maxAge = 0 ∨ o.ancestor.length.toNat + 1 ≤ w.settings.maxAge.toNat) :
    let x := o.ancestor
    let v := World.step^[x.length.toNat + 1] w
    ∃ parent child, v.population.toList = [parent, child] ∧
      parent.alive = true ∧ parent.age.toNat = x.length.toNat + 1 ∧ parent.depth = 0 ∧
      child.alive = true ∧ child.age = 0 ∧ child.depth = 1 ∧
      (child.ip.toNat : Int) = (x.start.toNat + x.offset.toInt) % 4096 ∧
      v.memory.window (.ofInt (x.start.toNat + x.offset.toInt)) x.length.toNat =
        v.memory.window (.ofUInt64 x.start) x.length.toNat ∧
      v.memory.window (.ofUInt64 x.start) x.length.toNat =
        (program x.length.toNat x.offset).take x.length.toNat ∧
      v.habitat.mutations = 0 := by
  intro x v
  obtain ⟨hx, -, hue, hcopying⟩ := copying_of_prepare hresume hok
  obtain ⟨⟨inherited, hpop⟩, hsoup, -, hmutations⟩ := delivered_iterate hx hr hage hcopying
  have hsource : v.memory.window (.ofUInt64 x.start) x.length.toNat =
      List.replicate x.length.toNat (copyWord x.offset) := by
    rw [Address.ofUInt64_eq]
    exact Memory.window_eq_replicate hsoup.block
  have htarget : v.memory.window (.ofInt (x.start.toNat + x.offset.toInt)) x.length.toNat =
      List.replicate x.length.toNat (copyWord x.offset) := by
    refine Memory.window_eq_replicate fun i hi => ?_
    rw [Int.add_assoc]
    exact hsoup.copies i hi
  have hshort : x.length.toNat + 1 < UInt64.size := Nat.lt_of_lt_of_le hx.short (by decide)
  refine ⟨_, _, congrArg Array.toList hpop, rfl, UInt64.toNat_ofNat_of_lt' hshort, rfl, rfl, rfl, rfl,
    ?_, htarget.trans hsource.symm, hsource.trans (take_program _ _).symm, hmutations⟩
  show ((x.cell x.offset.toInt).toUInt64.toNat : Int) = _
  rw [Address.toNat_toUInt64, cell, Address.toNat_ofInt]

/-- The copy lies before the program, as near as it may, across the end of the ring. -/
theorem ancestor_replicates_behind :
    let o : RunOptions := ⟨4, 1, some 3, some .zero, some 11, ⟨5, 10, -11⟩, none, none⟩
    ∃ w report, o.prepare (.ok []) 0 = .ok (w, report) ∧ w.settings.rate.equal .zero = true ∧
      w.settings.maxAge = 11 ∧
      ∃ parent child, (World.step^[11] w).population.toList = [parent, child] ∧
        parent.alive = true ∧ parent.age.toNat = 11 ∧ parent.depth = 0 ∧
        child.alive = true ∧ child.age = 0 ∧ child.depth = 1 ∧ (child.ip.toNat : Int) = 4090 ∧
        (World.step^[11] w).memory.window 4090 10 = (World.step^[11] w).memory.window 5 10 ∧
        (World.step^[11] w).memory.window 5 10 = (program 10 (-11)).take 10 ∧
        (World.step^[11] w).habitat.mutations = 0 := by
  intro o
  obtain ⟨w, report, hok, hs⟩ := exists_prepare (o := o) rfl (by decide) (.ok []) 0
  have hr : w.settings.rate.equal .zero = true := by
    rw [hs]
    decide
  have hage : w.settings.maxAge = 11 := by
    rw [hs]
    rfl
  have hlength : o.ancestor.length.toNat = 10 := rfl
  have hcycles : o.ancestor.length.toNat + 1 = 11 := rfl
  have hstart : Address.ofUInt64 o.ancestor.start = 5 := by decide
  have hcopy : Address.ofInt (o.ancestor.start.toNat + o.ancestor.offset.toInt) = 4090 := by decide
  have hlimit : o.ancestor.length.toNat + 1 ≤ w.settings.maxAge.toNat := by
    rw [hcycles, hage]
    decide
  obtain ⟨parent, child, hreplica⟩ := ancestor_replicates rfl hok hr (Or.inr hlimit)
  rw [hcycles, hlength, hstart, hcopy] at hreplica
  exact ⟨w, report, hok, hr, hage, parent, child, hreplica⟩

/-- Without a limit of age the word that asks for the child is whole when its turn comes. The word
that ends the root is, and the root is dead one cycle after the birth, iff the offset is not
`length + 1`. The child lives and has had its first turn in any case. -/
theorem handover_iff (hresume : o.resume = none)
    (hok : o.prepare content entropy = .ok (w, report)) (hr : w.settings.rate.equal .zero = true)
    (hage : w.settings.maxAge = 0) (hlen : 1 ≤ o.ancestor.length.toNat) :
    let x := o.ancestor
    let n := x.length.toNat
    (World.step^[n] w).memory.word (.ofInt (x.start.toNat + n)) = birthWord x.distance ∧
    ((World.step^[n + 1] w).memory.word (.ofInt (x.start.toNat + (n + 1))) = deathWord ↔
      x.offset.toInt ≠ n + 1) ∧
    ∃ parent child, (World.step^[n + 2] w).population.toList = [parent, child] ∧
      parent.age.toNat = n + 2 ∧ child.alive = true ∧ child.age = 1 ∧
      (parent.alive = false ↔ x.offset.toInt ≠ n + 1) := by
  intro x n
  obtain ⟨hx, -, hue, hcopying⟩ := copying_of_prepare hresume hok
  have hblock := copying_iterate hx hr (Or.inl hage) hcopying (Nat.le_refl _)
  have hdelivered := delivered_iterate hx hr (Or.inl hage) hcopying
  obtain ⟨parent, child, hpop, hparent, halive, hchild⟩ := handover_step hx hr hage hlen hdelivered
  rw [← Function.iterate_succ_apply' World.step] at hpop
  have hshort : n + 2 < UInt64.size := Nat.lt_of_le_of_lt hx.short (by decide)
  refine ⟨hblock.soup.birth, word_end_eq_iff hx hlen hdelivered.soup, parent, child, hpop, ?_,
    hchild.1, hchild.2, halive⟩
  rw [hparent]
  exact UInt64.toNat_ofNat_of_lt' hshort

/-- The copy lies right behind the program, whose own end lies across the end of the ring. -/
theorem handover_iff_adjacent :
    let o : RunOptions := ⟨12, 1, some 3, some .zero, none, ⟨4090, 10, 12⟩, none, none⟩
    ∃ w report, o.prepare (.ok []) 0 = .ok (w, report) ∧ w.settings.rate.equal .zero = true ∧
      w.settings.maxAge = 0 ∧ 1 ≤ o.ancestor.length.toNat ∧
      ∃ parent child, (World.step^[12] w).population.toList = [parent, child] ∧
        parent.age.toNat = 12 ∧ child.alive = true ∧ child.age = 1 ∧ parent.alive = false := by
  intro o
  obtain ⟨w, report, hok, hs⟩ := exists_prepare (o := o) rfl (by decide) (.ok []) 0
  have hr : w.settings.rate.equal .zero = true := by
    rw [hs]
    decide
  have hage : w.settings.maxAge = 0 := by
    rw [hs]
    rfl
  have hlen : 1 ≤ o.ancestor.length.toNat := by decide
  have hcycles : o.ancestor.length.toNat + 2 = 12 := rfl
  obtain ⟨-, -, parent, child, hpop, hparent, hchild, hyoung, halive⟩ :=
    handover_iff rfl hok hr hage hlen
  rw [hcycles] at hpop hparent
  exact ⟨w, report, hok, hr, hage, hlen, parent, child, hpop, hparent, hchild, hyoung,
    halive.mpr (by decide)⟩

/-- The first copy lies on the word that should end the root, and both live on. -/
theorem root_outlives_handover :
    let o : RunOptions := ⟨3, 3, some 3, some .zero, none, ⟨0, 1, 2⟩, none, none⟩
    let w := ((World.ofConfig o.config 0).plant (.ofUInt64 0) (program 1 2)).1
    (∃ report, o.prepare (.ok []) 0 = .ok (w, report)) ∧
      w.settings.rate.equal .zero = true ∧ w.settings.maxAge = 0 ∧
      w.memory.word 2 = deathWord ∧ w.step.memory.word 2 = copyWord 2 ∧
      ((World.step^[3] w).population.map fun p => (p.alive, p.age)) = #[(true, 3), (true, 1)] := by
  intro o w
  have hok : ∃ report, o.prepare (.ok []) 0 = .ok (w, report) :=
    (prepare_eq_ok_iff rfl _ _ _).mpr ⟨(refusal?_eq_none_iff _).mp (by decide), rfl⟩
  exact ⟨hok, by decide, rfl, by decide +kernel, by decide +kernel, by decide +kernel⟩

end CommandLine.RunOptions

end Vivarium
