import Vivarium.Proofs.Births

/-!
# Turns that do not meddle with each other

A turn depends on the cell that its instruction comes from, the cells that its operands are read from and
the cell that it writes, and on nothing else that another organism's turn can change, if neither draws,
gives a command to the world or asks for a child.

* `Instruction.reads`, `Instruction.target?`, `Act.footprint` : the cells that an act depends on;
* `Act.Spares` : an act that does not write any of another's cells; `Act.Plain` : an act that touches
  nothing but its organism and the soup;
* `Effect.apply_comm` : changes of different cells commute;
* `Act.perform_of_agree` : an act asks for the same wherever its cells hold the same;
* `World.turn_comm` : turns that spare each other commute.
-/

namespace Vivarium

/-! ## Cells that an act depends on -/

namespace Instruction

instance (i : Instruction) : Decidable i.Computes := inferInstanceAs (Decidable (_ ∈ _))

variable (i : Instruction) (o : Organism)

/-- The cells that the instruction's operands are read from. -/
def reads : List Address := i.operands.filterMap fun x => (x.place o).address?

/-- The cell that the instruction writes, if it writes one. -/
def target? : Option Address := if i.Computes then (i.b.place o).address? else none

variable {i o}

theorem target?_eq_some_iff {a : Address} :
    i.target? o = some a ↔ i.Computes ∧ i.b.place o = .cell a := by
  unfold target?
  split_ifs with hi
  · simp [hi, Place.address?_eq_some_iff]
  · simp [hi]

theorem target?_of_effect {m : Memory} {drawn : Word} {a : Address} {v : Word}
    (he : i.effect o m drawn = .store a v) : i.target? o = some a := by
  obtain ⟨hplace, hv⟩ := asks_of_effect_eq he
  exact target?_eq_some_iff.mpr ⟨computes_of_computed hv, hplace⟩

end Instruction

namespace Act

variable (x y : Act)

/-- The cells that the act depends on: its own, those that it reads, and the one that it writes. -/
def footprint : List Address :=
  x.organism.here :: (x.instruction.reads x.organism ++ (x.instruction.target? x.organism).toList)

/-- The act `x` writes no cell that the act `y` depends on. -/
def Spares : Prop := ∀ a ∈ x.instruction.target? x.organism, a ∉ y.footprint

instance : Decidable (x.Spares y) := Option.decidableForallMem _

/-- The act neither draws a number of its own, nor gives a command to the world, nor asks for a child. -/
def Plain : Prop := x.instruction.opcode? ∉ [some .rand, some .sys, some .spwn]

instance : Decidable x.Plain := inferInstanceAs (Decidable (_ ∉ _))

/-- The change that the act asks for. -/
def effect : Effect := x.instruction.effect x.organism x.habitat.memory 0

/-- What that change and the end of the turn make of the organism. -/
def result : Organism :=
  let out := x.effect.apply x.organism x.habitat
  out.organism.endTurn x.habitat.settings out.flow

end Act

/-! ## Changes -/

namespace Memory

theorem set_comm (m : Memory) {a b : Address} (hab : a ≠ b) (c d : Cell) :
    (m.set a c).set b d = (m.set b d).set a c := by
  apply ext_cell
  intro e
  simp only [cell_set]
  split_ifs with hb ha
  · exact absurd (ha.trans hb.symm) hab
  all_goals rfl

/-- Soups agree on what an operand reads if they agree on the cell that it names. -/
theorem read_congr {m n : Memory} {x : Operand} {o : Organism}
    (h : ∀ a ∈ (x.place o).address?, m.word a = n.word a) : x.read o m = x.read o n := by
  unfold Operand.place at h
  unfold Operand.read
  cases hmode : x.mode with
  | immediate | register => rfl
  | relative | indirect =>
    rw [hmode] at h
    exact h _ rfl

end Memory

/-- Writes to different cells take as many words from the stream in either order. -/
theorem Habitat.write_comm {h : Habitat} (hr : h.settings.rate.equal .zero = true) {a b : Address}
    (hab : a ≠ b) (v w : Word) (s t : Hue) :
    (h.write a v s).write b w t = (h.write b w t).write a v s := by
  have hra : (h.write a v s).settings.rate.equal .zero = true := by rwa [settings_write]
  have hrb : (h.write b w t).settings.rate.equal .zero = true := by rwa [settings_write]
  rw [write_of_rate_zero hra, write_of_rate_zero hrb, write_of_rate_zero hr, write_of_rate_zero hr,
    Memory.set_comm _ hab]

namespace Effect

/-- The change is none of the settings. -/
def Plain (e : Effect) : Prop := ∀ command argument, e ≠ .tune command argument

variable {e f : Effect} {o p : Organism} {h : Habitat}

theorem settings_apply (he : e.Plain) : (e.apply o h).habitat.settings = h.settings := by
  cases e with
  | tune command argument => exact absurd rfl (he command argument)
  | store a v => exact Habitat.settings_write h a v o.hue
  | pass | assign | jump | skip | spawn | die => rfl

theorem word_apply {b : Address} (hb : ∀ v, e ≠ .store b v) :
    (e.apply o h).habitat.memory.word b = h.memory.word b := by
  cases e with
  | store a v =>
    have hab : a ≠ b := by
      rintro rfl
      exact hb v rfl
    show (h.write a v o.hue).memory.word b = _
    rw [Habitat.memory_write, Memory.word, Memory.cell_set_ne _ _ hab, Memory.word]
  | pass | assign | jump | skip | spawn | tune | die => rfl

/-- What a change makes of an organism, and of its pointer, does not depend on the habitat. -/
theorem apply_eq (e : Effect) (o : Organism) (h k : Habitat) :
    e.apply o k = { e.apply o h with habitat := (e.apply o k).habitat } := by
  cases e <;> rfl

theorem apply_comm (hr : h.settings.rate.equal .zero = true) (he : e.Plain) (hf : f.Plain)
    (hne : ∀ a b v w, e = .store a v → f = .store b w → a ≠ b) :
    (f.apply p (e.apply o h).habitat).habitat = (e.apply o (f.apply p h).habitat).habitat := by
  cases e with
  | tune command argument => exact absurd rfl (he command argument)
  | pass | assign | jump | skip | spawn | die => rfl
  | store a v =>
    cases f with
    | tune command argument => exact absurd rfl (hf command argument)
    | pass | assign | jump | skip | spawn | die => rfl
    | store b w => exact Habitat.write_comm hr (hne a b v w rfl rfl) v w o.hue p.hue

end Effect

/-! ## Acts -/

namespace Act

variable {x y : Act}

theorem Plain.effect (hx : x.Plain) : x.effect.Plain := by
  rintro command argument he
  have hsys := (Instruction.asks_of_effect_eq he).1
  exact hx (by simp [hsys])

/-- Wherever its cells hold the same, a plain act asks for the same change. -/
theorem perform_of_agree (hx : x.Plain) (hsound : x.organism.Sound) {k : Habitat}
    (hk : ∀ a ∈ x.footprint, k.memory.word a = x.habitat.memory.word a) :
    x.organism.perform k = x.effect.apply x.organism k := by
  have hfetched : k.memory.word x.organism.here = x.habitat.memory.word x.organism.here :=
    hk _ List.mem_cons_self
  have hrand : x.instruction.opcode? ≠ some .rand := fun hop => hx (by simp [hop])
  have heffect : x.instruction.effect x.organism k.memory 0 = x.effect := by
    refine x.instruction.effect_congr (fun z hz => Memory.read_congr fun a ha => hk a ?_) fun hadds => ?_
    · exact List.mem_cons_of_mem _ (List.mem_append_left _ (List.mem_filterMap.mpr ⟨z, hz, ha⟩))
    · cases hplace : x.instruction.b.place x.organism with
      | nowhere | register => rfl
      | cell a =>
        have hcomputes : x.instruction.Computes := by
          simp only [Instruction.Computes, List.mem_cons, List.not_mem_nil, or_false] at hadds ⊢
          tauto
        have htarget := Instruction.target?_eq_some_iff.mpr ⟨hcomputes, hplace⟩
        refine hk a (List.mem_cons_of_mem _ (List.mem_append_right _ ?_))
        exact Option.mem_toList.mpr htarget
  rw [Organism.perform_eq k hsound.ip, hfetched]
  show x.instruction.execute x.organism k = _
  rw [Instruction.execute_of_ne_rand hrand, heffect]

/-- An act that spares another leaves that one's cells as they are. -/
theorem word_of_spares (hxy : x.Spares y) (o : Organism) (h : Habitat) {a : Address}
    (ha : a ∈ y.footprint) : (x.effect.apply o h).habitat.memory.word a = h.memory.word a := by
  refine Effect.word_apply fun v he => ?_
  exact hxy a (Instruction.target?_of_effect he) ha

end Act

/-! ## Turns -/

namespace World

variable {w : World} {i j : Nat} {x y : Act}

theorem act?_eq_some_iff :
    w.act? i = some x ↔ w.population[i]? = some x.organism ∧ x.habitat = w.habitat := by
  obtain ⟨o, h⟩ := x
  cases hi : w.population[i]? with
  | none => simp [act?, hi]
  | some p => simp [act?, hi, eq_comm]

/-- A plain act makes the same of its organism in every world that holds the same in its cells, under the
same settings. -/
theorem turn_of_agree (hx : x.Plain) (hsound : x.organism.Sound) (hi : w.population[i]? = some x.organism)
    (hsettings : w.settings = x.habitat.settings)
    (hcells : ∀ a ∈ x.footprint, w.memory.word a = x.habitat.memory.word a) :
    w.turn i = { w with
      habitat := (x.effect.apply x.organism w.habitat).habitat
      population := w.population.setIfInBounds i x.result } := by
  have hact : x.organism.perform w.habitat = x.effect.apply x.organism w.habitat :=
    Act.perform_of_agree hx hsound hcells
  have hbirth : (x.organism.perform w.habitat).birth = none := by
    rw [hact, Option.eq_none_iff_forall_ne_some]
    intro a ha
    have hop := (Instruction.asks_of_effect_eq
      ((Effect.birth_apply_eq_some_iff x.effect x.organism w.habitat a).mp ha)).1
    exact hx (by simp [hop])
  have hkept : (x.effect.apply x.organism w.habitat).habitat.settings = x.habitat.settings :=
    (Effect.settings_apply hx.effect).trans hsettings
  rw [turn_of_no_birth hi hbirth, Organism.afterTurn, hact, hkept,
    Effect.apply_eq x.effect x.organism x.habitat w.habitat]
  rfl

/-- The second act of two finds all that it depends on as it was before the first. -/
theorem turn_turn_eq (hw : w.Sound) (hij : i ≠ j) (hx : w.act? i = some x) (hy : w.act? j = some y)
    (hxplain : x.Plain) (hyplain : y.Plain) (hxy : x.Spares y) :
    (w.turn i).turn j = { w with
      habitat := (y.effect.apply y.organism (x.effect.apply x.organism w.habitat).habitat).habitat
      population := (w.population.setIfInBounds i x.result).setIfInBounds j y.result } := by
  obtain ⟨hi, hxhabitat⟩ := act?_eq_some_iff.mp hx
  obtain ⟨hj, hyhabitat⟩ := act?_eq_some_iff.mp hy
  have hxsound : x.organism.Sound := hw.members _ (Array.mem_of_getElem? hi)
  have hysound : y.organism.Sound := hw.members _ (Array.mem_of_getElem? hj)
  have hfirst := turn_of_agree hxplain hxsound hi (congrArg Habitat.settings hxhabitat.symm)
    fun a _ => by rw [hxhabitat]; rfl
  have hj' : (w.turn i).population[j]? = some y.organism := by
    rw [hfirst]
    exact (Array.getElem?_setIfInBounds_ne hij).trans hj
  have hsettings : (w.turn i).settings = y.habitat.settings := by
    rw [hfirst, hyhabitat]
    exact Effect.settings_apply hxplain.effect
  have hcells : ∀ a ∈ y.footprint, (w.turn i).memory.word a = y.habitat.memory.word a := by
    intro a ha
    rw [hfirst, hyhabitat]
    exact Act.word_of_spares hxy x.organism w.habitat ha
  rw [turn_of_agree hyplain hysound hj' hsettings hcells, hfirst]

/-- At a rate of zero the turns of two organisms can change places if both acts are plain and each spares
the other. -/
theorem turn_comm (hw : w.Sound) (hr : w.settings.rate.equal .zero = true) (hij : i ≠ j)
    (hx : w.act? i = some x) (hy : w.act? j = some y) (hxplain : x.Plain) (hyplain : y.Plain)
    (hxy : x.Spares y) (hyx : y.Spares x) : (w.turn i).turn j = (w.turn j).turn i := by
  -- The two may read the same cells, but they do not write the same one.
  have hapart : ∀ a b u v, x.effect = .store a u → y.effect = .store b v → a ≠ b := by
    rintro a b u v hu hv rfl
    refine hxy a (Instruction.target?_of_effect hu) (List.mem_cons_of_mem _ (List.mem_append_right _ ?_))
    exact Option.mem_toList.mpr (Instruction.target?_of_effect hv)
  rw [turn_turn_eq hw hij hx hy hxplain hyplain hxy, turn_turn_eq hw hij.symm hy hx hyplain hxplain hyx,
    Effect.apply_comm hr hxplain.effect hyplain.effect hapart, Array.setIfInBounds_comm _ _ hij]

/-- Two organisms on both sides of the end of the ring read the same cell, and add to the one after it and
subtract from the next. -/
theorem turn_comm_shared_cell :
    let add := (Instruction.new .add ⟨.relative, 1⟩ ⟨.relative, 2⟩).toWord
    let sub := (Instruction.new .sub ⟨.relative, -10⟩ ⟨.relative, -8⟩).toWord
    let w := (ofConfig ⟨⟨0x8000000000000000⟩, 1, 3, 2, some 7⟩ 0).performAll
      [.load 4095 [add, 5, 7, 9], .load 10 [sub], .addRoot 4095, .addRoot 10]
    w.Sound ∧ w.settings.rate.equal .zero = true ∧
    (∃ x y, w.act? 0 = some x ∧ w.act? 1 = some y ∧ x.Plain ∧ y.Plain ∧ x.Spares y ∧ y.Spares x) ∧
    (w.turn 0).turn 1 = (w.turn 1).turn 0 ∧
    ((w.turn 1).turn 0).memory.window 0 3 = [5, 12, 4] ∧
    ((w.turn 1).turn 0).habitat.stream.position = 4 := by
  intro add sub w
  have hsound : w.Sound := ((Reachable.fresh _ _).performAll _).sound
  have hrate : w.settings.rate.equal .zero = true := by decide +kernel
  obtain ⟨x, hx⟩ : ∃ x, w.act? 0 = some x := Option.isSome_iff_exists.mp (by decide +kernel)
  obtain ⟨y, hy⟩ : ∃ y, w.act? 1 = some y := Option.isSome_iff_exists.mp (by decide +kernel)
  have hacts : ∀ x ∈ w.act? 0, ∀ y ∈ w.act? 1, x.Plain ∧ y.Plain ∧ x.Spares y ∧ y.Spares x := by
    decide +kernel
  obtain ⟨hxplain, hyplain, hxy, hyx⟩ := hacts x hx y hy
  refine ⟨hsound, hrate, ⟨x, y, hx, hy, hxplain, hyplain, hxy, hyx⟩,
    turn_comm hsound hrate (by decide) hx hy hxplain hyplain hxy hyx, ?_, ?_⟩
  · decide +kernel
  · decide +kernel

end World

end Vivarium
