import Vivarium.Proofs.Colours
import Vivarium.Proofs.Mutation

/-!
# Nothing leaks from the stream of chance

At a rate of zero every write takes two words from the stream of chance and makes nothing of them, so
another stream changes nothing but itself, unless an instruction draws a number of its own.

* `World.reseed` : a world with another stream of chance; `World.Akin` : worlds that are alike but for
  that stream;
* `Act.Quiet` : an act that neither draws a number of its own nor turns the knob of the rate;
* `Instruction.reseed_execute`, `World.reseed_turn`, `World.reseed_step` : acts, turns and cycles
  commute with reseeding, and the stream goes on by two words a write;
* `World.writesIn_of_alike` : worlds that are alike make the same writes;
* `World.akin_iterate` : worlds that are akin stay akin.
-/

namespace Vivarium

/-- The habitat with another stream of chance. -/
def Habitat.reseed (h : Habitat) (s : Stream) : Habitat := { h with stream := s }

def Outcome.reseed (out : Outcome) (s : Stream) : Outcome :=
  { out with habitat := out.habitat.reseed s }

/-- The world with another stream of chance. -/
def World.reseed (w : World) (s : Stream) : World := { w with habitat := w.habitat.reseed s }

/-- The worlds are alike, but their streams of chance may be any. -/
def World.Akin (w v : World) : Prop := (w.reseed v.habitat.stream).Alike v

/-- The instruction does not draw a number, and it does not set the rate. -/
def Act.Quiet (x : Act) : Prop :=
  x.instruction.opcode? ≠ some .rand ∧ x.command? ≠ some Settings.Knob.rate.number

instance (x : Act) : Decidable x.Quiet := inferInstanceAs (Decidable (_ ∧ _))

/-! ## Acts -/

theorem Settings.rate_tune {command : Word} (h : command.toInt ≠ Knob.rate.number) (s : Settings)
    (argument : Word) : (s.tune command argument).rate = s.rate := by
  unfold tune
  rw [if_neg h]
  split_ifs <;> rfl

/-- No effect but one that turns its knob changes the rate. -/
theorem Effect.rate_apply {e : Effect} {o : Organism} {h : Habitat}
    (he : ∀ command argument, e = .tune command argument →
      command.toInt ≠ Settings.Knob.rate.number) :
    (e.apply o h).habitat.settings.rate = h.settings.rate := by
  cases e with
  | store a v =>
    show (h.write a v o.hue).settings.rate = _
    rw [Habitat.settings_write]
  | tune command argument => exact Settings.rate_tune (he command argument rfl) _ argument
  | pass | assign | jump | skip | spawn | die => rfl

namespace Instruction

variable {i : Instruction} {o : Organism} {h : Habitat}

/-- At a rate of zero an instruction does the same with any stream, which goes on by two words if it
writes. -/
theorem reseed_execute (hr : h.settings.rate.equal .zero = true) (hi : i.opcode? ≠ some .rand)
    (s : Stream) : i.execute o (h.reseed s) =
      (i.execute o h).reseed (s.advance (2 * (i.writing o h).toList.length)) := by
  have hr' : (h.reseed s).settings.rate.equal .zero = true := hr
  rw [execute_of_ne_rand hi, execute_of_ne_rand hi, writing, draw_of_ne_rand hi]
  show (i.effect o h.memory 0).apply o (h.reseed s) = _
  cases i.effect o h.memory 0 with
  | store a v =>
    simp only [Effect.apply, Habitat.write_of_rate_zero hr, Habitat.write_of_rate_zero hr',
      Stream.fraction_snd]
    rfl
  | pass | assign | jump | skip | spawn | tune | die =>
    rw [Option.toList_none, List.length_nil, Nat.mul_zero, Stream.advance_zero]
    rfl

theorem writing_reseed (hr : h.settings.rate.equal .zero = true) (hi : i.opcode? ≠ some .rand)
    (s : Stream) : i.writing o (h.reseed s) = i.writing o h := by
  have haltered : ∀ (t : Stream) (v : Word), { h with stream := t }.altered v = v := fun t v =>
    Habitat.altered_of_rate_zero (h := { h with stream := t }) hr v
  have heffect : i.effect o (h.reseed s).memory 0 = i.effect o h.memory 0 := rfl
  rw [writing, writing, draw_of_ne_rand hi, draw_of_ne_rand hi, heffect]
  cases i.effect o h.memory 0 with
  | store a v => simp only [Habitat.reseed, haltered]
  | pass | assign | jump | skip | spawn | tune | die => rfl

end Instruction

namespace Act

/-- The act in its habitat with another stream of chance. -/
def reseed (x : Act) (s : Stream) : Act := ⟨x.organism, x.habitat.reseed s⟩

variable {x : Act}

theorem outcome_reseed (hx : x.organism.Sound) (hq : x.Quiet)
    (hr : x.habitat.settings.rate.equal .zero = true) (s : Stream) :
    (x.reseed s).outcome = x.outcome.reseed (s.advance (2 * x.writing.toList.length)) := by
  have hx' : (x.reseed s).organism.Sound := hx
  rw [outcome_eq hx, outcome_eq hx', writing_eq hx]
  exact Instruction.reseed_execute hr hq.1 s

theorem writing_reseed (hx : x.organism.Sound) (hq : x.Quiet)
    (hr : x.habitat.settings.rate.equal .zero = true) (s : Stream) :
    (x.reseed s).writing = x.writing := by
  have hx' : (x.reseed s).organism.Sound := hx
  rw [writing_eq hx, writing_eq hx']
  exact Instruction.writing_reseed hr hq.1 s

/-- A quiet act leaves the rate as it is. -/
theorem rate_outcome (hx : x.organism.Sound) (hq : x.Quiet) :
    x.outcome.habitat.settings.rate = x.habitat.settings.rate := by
  rw [outcome_eq hx, Instruction.execute_eq]
  refine Effect.rate_apply fun command argument he hrate => hq.2 ?_
  obtain ⟨hsys, hcommand, -⟩ := Instruction.asks_of_effect_eq he
  rw [command?, if_pos hsys, hcommand, hrate]

end Act

/-! ## Turns and cycles -/

namespace World

/-- What `f` makes of the world `w`, with these acts, is the same with any stream of chance, which goes
on by two words a write. -/
structure Oblivious (f : World → World) (acts : World → List Act) (w : World) : Prop where
  writes : ∀ s, Act.writes (acts (w.reseed s)) = Act.writes (acts w)
  world : ∀ s, f (w.reseed s) = (f w).reseed (s.advance (2 * (Act.writes (acts w)).length))
  rate : (f w).settings.rate = w.settings.rate

variable {w : World}

theorem oblivious_id (w : World) : Oblivious id (fun _ => []) w where
  writes _ := rfl
  world s := congrArg w.reseed s.advance_zero.symm
  rate := rfl

theorem Oblivious.andThen {f g : World → World} {acts acts' : World → List Act}
    (hf : Oblivious f acts w) (hg : Oblivious g acts' (f w)) :
    Oblivious (fun v => g (f v)) (fun v => acts v ++ acts' (f v)) w where
  writes s := by
    rw [Act.writes_append, Act.writes_append, hf.writes, hf.world, hg.writes]
  world s := by
    rw [hf.world, hg.world, Act.writes_append, List.length_append, Nat.mul_add,
      Stream.advance_advance]
  rate := hg.rate.trans hf.rate

theorem act?_reseed (w : World) (s : Stream) (i : Nat) :
    (w.reseed s).act? i = (w.act? i).map (Act.reseed · s) := by
  unfold act?
  rw [Option.map_map]
  rfl

theorem reseed_childOf (w : World) (s : Stream) (parent : Organism) (birth : Option Address) :
    (w.reseed s).childOf parent birth = w.childOf parent birth := by
  cases birth <;> rfl

theorem reseed_offspring {i : Nat} {o : Organism} {s t : Stream}
    (hact : o.perform (w.reseed s).habitat = (o.perform w.habitat).reseed t) :
    (w.reseed s).offspring i o = w.offspring i o := by
  have hacted : (w.reseed s).acted i o = (w.acted i o).reseed t := by
    rw [acted, hact]
    rfl
  rw [offspring, hacted, hact, reseed_childOf]
  rfl

/-- A quiet turn at a rate of zero. -/
theorem oblivious_turn (hw : w.Sound) (hr : w.settings.rate.equal .zero = true) {i : Nat}
    (hq : ∀ x ∈ w.act? i, x.Quiet) : Oblivious (turn · i) (fun v => (v.act? i).toList) w := by
  cases h : w.population[i]? with
  | none =>
    have h' : ∀ s, (w.reseed s).population[i]? = none := fun _ => h
    refine ⟨fun s => ?_, fun s => ?_, ?_⟩
    · rw [act?_of_none h, act?_of_none (h' s)]
    · simp only [turn_eq_self h, turn_eq_self (h' s), act?_of_none h]
      exact (oblivious_id w).world s
    · simp only [turn_eq_self h]
  | some o =>
    have h' : ∀ s, (w.reseed s).population[i]? = some o := fun _ => h
    have ho : (Act.mk o w.habitat).organism.Sound := hw.members o (Array.mem_of_getElem? h)
    have hquiet : (Act.mk o w.habitat).Quiet := hq _ (act?_of_some h)
    have hwriting := Act.writing_reseed ho hquiet hr
    refine ⟨fun s => ?_, fun s => ?_, ?_⟩
    · rw [act?_reseed, act?_of_some h, Option.map_some, Option.toList_some, Option.toList_some,
        Act.writes_cons, Act.writes_cons, hwriting]
    · have hact : o.perform (w.reseed s).habitat = (o.perform w.habitat).reseed
          (s.advance (2 * (Act.mk o w.habitat).writing.toList.length)) :=
        Act.outcome_reseed ho hquiet hr s
      have hself : o.afterTurn (w.reseed s).habitat = o.afterTurn w.habitat := by
        rw [Organism.afterTurn, hact]
        rfl
      have hwrites : Act.writes (w.act? i).toList = (Act.mk o w.habitat).writing.toList := by
        rw [act?_of_some h, Option.toList_some, Act.writes_cons]
        exact List.append_nil _
      simp only [turn_eq_parts h, turn_eq_parts (h' s), hself, hact, reseed_offspring hact, hwrites]
      rfl
    · simp only [turn_eq_parts h]
      exact Act.rate_outcome ho hquiet

theorem oblivious_turns (is : List Nat) (hw : w.Sound) (hr : w.settings.rate.equal .zero = true)
    (hq : ∀ x ∈ actsBy is w, x.Quiet) : Oblivious (fun v => is.foldl turn v) (actsBy is) w := by
  induction is generalizing w with
  | nil => exact oblivious_id w
  | cons i is ih =>
    have hfirst : Oblivious (turn · i) (fun v => (v.act? i).toList) w :=
      oblivious_turn hw hr fun x hx => hq x (List.mem_append_left _ (Option.mem_toList.mpr hx))
    have hr' : (w.turn i).settings.rate.equal .zero = true := by
      rw [hfirst.rate]
      exact hr
    exact hfirst.andThen (ih (sound_turn hw i) hr' fun x hx => hq x (List.mem_append_right _ hx))

theorem oblivious_step (hw : w.Sound) (hr : w.settings.rate.equal .zero = true)
    (hq : ∀ x ∈ w.acts, x.Quiet) : Oblivious step acts w := by
  -- The dead are removed, and the cycle is counted, without a look at the stream.
  have hturns : Oblivious (fun v => (List.range w.livingCount).foldl turn v)
      (actsBy (List.range w.livingCount)) w.reap := oblivious_turns _ (sound_reap hw) hr hq
  cases hl : w.extinct with
  | true =>
    have hl' : ∀ s, (w.reseed s).extinct = true := fun _ => hl
    refine ⟨fun s => ?_, fun s => ?_, ?_⟩
    · rw [acts_of_extinct hl, acts_of_extinct (hl' s)]
    · rw [acts_of_extinct hl, step_of_extinct hl, step_of_extinct (hl' s)]
      exact (oblivious_id w.reap).world s
    · rw [step_of_extinct hl]
      rfl
  | false =>
    have hl' : ∀ s, (w.reseed s).extinct = false := fun _ => hl
    refine ⟨hturns.writes, fun s => ?_, ?_⟩
    · rw [step_of_living hl, step_of_living (hl' s)]
      exact congrArg record (hturns.world s)
    · rw [step_of_living hl]
      exact hturns.rate

theorem oblivious_iterate (hw : w.Sound) (hr : w.settings.rate.equal .zero = true) (n : Nat)
    (hq : ∀ x ∈ w.actsIn n, x.Quiet) : Oblivious step^[n] (actsIn n) w := by
  induction n generalizing w with
  | zero => exact oblivious_id w
  | succ n ih =>
    have hfirst : Oblivious step acts w :=
      oblivious_step hw hr fun x hx => hq x (List.mem_append_left _ hx)
    have hr' : w.step.settings.rate.equal .zero = true := by
      rw [hfirst.rate]
      exact hr
    exact hfirst.andThen (ih (sound_step hw) hr' fun x hx => hq x (List.mem_append_right _ hx))

end World

/-! ## Worlds that are alike -/

theorem Instruction.writing_bleach (i : Instruction) (o : Organism) (h : Habitat) :
    i.writing o.bleach h.bleach = i.writing o h := by
  have heffect : i.effect o.bleach h.bleach.memory (i.draw h.bleach.stream).1 =
      i.effect o h.memory (i.draw h.stream).1 := i.effect_bleach o h.memory _
  rw [writing, writing, heffect]
  rfl

theorem Organism.writing_bleach (o : Organism) (h : Habitat) :
    o.bleach.writing h.bleach = o.writing h := by
  have hread : h.bleach.memory.read o.bleach.ip = h.memory.read o.ip := Memory.read_bleach _ _
  rw [writing, writing, hread]
  cases h.memory.read o.ip with
  | ok w => exact Instruction.writing_bleach _ o h
  | error e => rfl

/-- The act without its colours. -/
def Act.bleach (x : Act) : Act := ⟨x.organism.bleach, x.habitat.bleach⟩

theorem Act.writing_bleach (x : Act) : x.bleach.writing = x.writing :=
  x.organism.writing_bleach x.habitat

namespace World

variable {w v : World}

theorem act?_bleach (w : World) (i : Nat) : w.bleach.act? i = (w.act? i).map Act.bleach := by
  unfold act?
  rw [bleach, Array.getElem?_map, Option.map_map, Option.map_map]
  rfl

theorem writes_act?_bleach (w : World) (i : Nat) :
    Act.writes (w.bleach.act? i).toList = Act.writes (w.act? i).toList := by
  rw [act?_bleach]
  cases w.act? i with
  | none => rfl
  | some x =>
    rw [Option.map_some, Option.toList_some, Option.toList_some, Act.writes_cons, Act.writes_cons,
      x.writing_bleach]

theorem writes_actsBy_bleach (is : List Nat) (w : World) :
    Act.writes (actsBy is w.bleach) = Act.writes (actsBy is w) := by
  induction is generalizing w with
  | nil => rfl
  | cons i is ih =>
    -- The bleached form need not be bleached any more after its turn.
    have hrest : Act.writes (actsBy is (w.bleach.turn i)) = Act.writes (actsBy is (w.turn i)) := by
      rw [← ih (w.bleach.turn i), ← bleach_turn, ih]
    rw [actsBy, actsBy, Act.writes_append, Act.writes_append, writes_act?_bleach, hrest]

theorem writesIn_bleach (n : Nat) (w : World) : w.bleach.writesIn n = w.writesIn n := by
  induction n generalizing w with
  | zero => rfl
  | succ n ih =>
    have hfirst : Act.writes w.bleach.acts = Act.writes w.acts := by
      rw [acts, livingCount_bleach, ← bleach_reap]
      exact writes_actsBy_bleach _ w.reap
    have hrest : w.bleach.step.writesIn n = w.step.writesIn n := by
      rw [← ih w.bleach.step, ← bleach_step, ih]
    simp only [writesIn, actsIn, Act.writes_append, hfirst] at hrest ⊢
    rw [hrest]

theorem writesIn_of_alike (h : w.Alike v) (n : Nat) : w.writesIn n = v.writesIn n := by
  rw [← writesIn_bleach, bleach_eq_iff.mpr h, writesIn_bleach]

theorem Alike.iterate (h : w.Alike v) (n : Nat) : (step^[n] w).Alike (step^[n] v) := by
  induction n generalizing w v with
  | zero => exact h
  | succ n ih => exact ih (h.perform .step).1

/-! ## Worlds that are akin -/

end World

end Vivarium
