import Vivarium.Proofs.Bookkeeping
import Vivarium.Proofs.ByteForm
import Vivarium.Proofs.Runs
import Vivarium.Proofs.Seeding

/-!
# Batches and resumed runs

A run of the program is cut into batches, and may be cut into several runs that hand on a snapshot.
Neither can be told from what becomes of the world.

* `runBatches_fst` : the batches come to one run of all the cycles;
* `RunOptions.Determined` : the options leave nothing to chance;
* `RunOptions.sound_prepare` : what a run starts from can be saved;
* `RunOptions.ending_conclusion` : what a run writes at its end;
* `course_kept` : the same world, and the same file, in batches or in one, in two runs or in one.
-/

namespace Vivarium.CommandLine

/-! ## Batches -/

section
variable (batch : UInt64)

/-- What is done in the next batch and what remains after it are the cycles that remain now. -/
theorem run_nextBatch (remaining : UInt64) (w : World) :
    w.run remaining.toNat = (w.run (nextBatch batch remaining).toNat).run
      (remaining - nextBatch batch remaining).toNat := by
  have hle := UInt64.le_iff_toNat_le.mp (nextBatch_le batch remaining)
  rw [← World.run_add, toNat_sub_nextBatch, Nat.add_sub_cancel' hle]

/-- By the recursion of the batches: the world between two of them is that of a shorter run. -/
theorem runBatches_fst (w : World) (remaining : UInt64) :
    (runBatches batch w remaining).1 = w.run remaining.toNat := by
  fun_induction runBatches batch w remaining with
  | case1 w => rfl
  | case2 w remaining hr v hv =>
    rw [run_nextBatch batch, World.run_of_extinct hv]
  | case3 w remaining hr v hv executed last reports heq ih =>
    -- Somebody is alive, so the batch has run in full and its size is what is taken off.
    rw [Bool.not_eq_true] at hv
    rw [heq, remaining_of_living hv] at ih
    rw [run_nextBatch batch]
    exact ih

/-- There are no more batches than cycles, and one more report if everybody has died. -/
theorem length_runBatches_le (w : World) (remaining : UInt64) :
    (runBatches batch w remaining).2.length ≤ remaining.toNat + 1 := by
  fun_induction runBatches batch w remaining with
  | case1 w => exact Nat.zero_le _
  | case2 w remaining hr v hv =>
    have hpos := UInt64.lt_iff_toNat_lt.mp (UInt64.pos_iff_ne_zero.mpr hr)
    exact Nat.succ_le_succ hpos
  | case3 w remaining hr v hv executed last reports heq ih =>
    have hlt : (remaining - min executed remaining).toNat < remaining.toNat := remaining_lt hr hv
    rw [heq] at ih
    exact Nat.succ_le_succ (ih.trans hlt)

end

/-! ## Loading -/

/-- A sound world is loaded from the bytes of its snapshot as it was. -/
theorem loadWorld_snapshot (path : String) {w : World} (hw : w.Sound)
    (hn : w.population.size < UInt64.size) : loadWorld path (.ok w.snapshot.toBytes) = .ok w := by
  have hlen : w.snapshot.population.length < 2 ^ 64 := hn
  have hbytes := Snapshot.ofBytes_append ((World.sound_snapshot_iff w).mpr hw) hlen []
  rw [List.append_nil] at hbytes
  simp only [loadWorld, hbytes, World.ofSnapshot_snapshot hw]

theorem sound_loadWorld {path : String} {content : Except FileFault (List UInt8)} {w : World}
    (h : loadWorld path content = .ok w) : w.Sound ∧ w.population.size < UInt64.size := by
  unfold loadWorld at h
  cases content with
  | error e => cases h
  | ok bytes =>
    dsimp only at h
    split at h
    · cases h
    · next s hs =>
      split at h
      · cases h
      · next v hv =>
        cases h
        obtain ⟨-, rest, hdecode⟩ := Snapshot.ofBytes_eq_ok_iff_decode.mp hs
        have hcount := (Snapshot.decode_codec_eq_ok_iff.mp hdecode).1.population
        rw [← (World.snapshot_of_ofSnapshot hv).2] at hcount
        exact ⟨World.sound_of_ofSnapshot hv, hcount⟩

/-! ## Runs of the program -/

namespace RunOptions

/-- A run is left nothing to chance: it is given a seed, or a snapshot, which has its streams. -/
def Determined (o : RunOptions) : Prop := o.seed.isSome ∨ o.resume.isSome

variable {o : RunOptions} {content : Except FileFault (List UInt8)} {entropy : UInt64} {w : World}
  {opening : String}

theorem seed_config (h : o.seed.isSome) : o.config.seed.isSome := by
  obtain ⟨s, hs⟩ := Option.isSome_iff_exists.mp h
  unfold config
  rw [hs]
  cases o.rate <;> cases o.maxAge <;> rfl

theorem prepare_of_determined (h : o.Determined) (content : Except FileFault (List UInt8))
    (e e' : UInt64) : o.prepare content e = o.prepare content e' := by
  cases hresume : o.resume with
  | some path => simp only [prepare, hresume]
  | none =>
    have hseed : o.seed.isSome := h.resolve_right (by simp [hresume])
    obtain ⟨s, hs⟩ := Option.isSome_iff_exists.mp (seed_config hseed)
    simp only [prepare, hresume, World.ofConfig, hs, Option.getD_some]

/-- The settings that are given with a snapshot are put in place of its own. -/
def retune (o : RunOptions) (w : World) : World :=
  let w := (o.rate.map w.setRate).getD w
  (o.maxAge.map w.setMaxAge).getD w

theorem retune_of_none (hrate : o.rate = none) (hage : o.maxAge = none) (w : World) :
    o.retune w = w := by
  simp [retune, hrate, hage]

theorem population_retune (o : RunOptions) (w : World) :
    (o.retune w).population = w.population := by
  unfold retune
  cases o.rate <;> cases o.maxAge <;> rfl

theorem sound_retune (o : RunOptions) (hw : w.Sound) : (o.retune w).Sound := by
  have hrate : ((o.rate.map w.setRate).getD w).Sound := by
    cases o.rate with
    | none => exact hw
    | some rate => exact World.sound_setSettings hw (Settings.probability_setRate _ rate)
  unfold retune
  cases o.maxAge with
  | none => exact hrate
  | some maxAge => exact World.sound_setSettings hrate hrate.habitat.rate

/-- With a snapshot to resume, a run starts from its world. -/
theorem prepare_of_resume {path : String} (h : o.resume = some path) :
    o.prepare content entropy = (loadWorld path content).map fun w =>
      (o.retune w, Report.resumed path (o.retune w)) := by
  simp only [prepare, h]
  cases loadWorld path content <;> rfl

/-- Resumed under its own settings, a world that has been saved is the one to start from. -/
theorem prepare_of_saved {path : String} (hresume : o.resume = some path) (hrate : o.rate = none)
    (hage : o.maxAge = none) (hw : w.Sound) (hn : w.population.size < UInt64.size) :
    o.prepare (.ok w.snapshot.toBytes) entropy = .ok (w, Report.resumed path w) := by
  rw [prepare_of_resume hresume, loadWorld_snapshot path hw hn, Except.map, retune_of_none hrate hage]

/-- What a run starts from is sound and can be counted. -/
theorem sound_prepare (h : o.prepare content entropy = .ok (w, opening)) :
    w.Sound ∧ w.population.size < UInt64.size := by
  cases hresume : o.resume with
  | some path =>
    rw [prepare_of_resume hresume] at h
    cases hload : loadWorld path content with
    | error failure =>
      rw [hload] at h
      cases h
    | ok v =>
      rw [hload] at h
      cases h
      obtain ⟨hsound, hsize⟩ := sound_loadWorld hload
      rw [population_retune]
      exact ⟨o.sound_retune hsound, hsize⟩
  | none =>
    obtain ⟨-, rfl⟩ := (prepare_eq_ok_iff hresume content entropy w).mp ⟨opening, h⟩
    refine ⟨World.sound_plant (World.sound_ofConfig _ _) _ _, ?_⟩
    exact Nat.lt_of_le_of_lt (World.size_addRoot_le _ _) (show 0 + 1 < UInt64.size by decide)

theorem cap_prepare (hresume : o.resume = none)
    (h : o.prepare content entropy = .ok (w, opening)) : w.cap = 1000 := by
  obtain ⟨-, rfl⟩ := (prepare_eq_ok_iff hresume content entropy w).mp ⟨opening, h⟩
  rw [World.plant, World.cap_addRoot]
  exact cap_config o

/-- The file that a world is saved in. -/
def delivery (path : String) (w : World) : Delivery :=
  ⟨path, w.snapshot.toBytes, Report.saved path w⟩

theorem ending_conclusion {path : String} (h : o.prepare content entropy = .ok (w, opening))
    (hsave : o.save = some path) :
    (o.conclusion content entropy).ending = .ok (some (delivery path (w.run o.cycles.toNat))) := by
  simp only [conclusion, h, hsave, runBatches_fst]
  rfl

/-- A resumed run goes on where the saved world stopped. -/
theorem ending_of_saved {source path : String} (hresume : o.resume = some source)
    (hrate : o.rate = none) (hage : o.maxAge = none) (hsave : o.save = some path) (hw : w.Sound)
    (hn : w.population.size < UInt64.size) :
    (o.conclusion (.ok w.snapshot.toBytes) entropy).ending =
      .ok (some (delivery path (w.run o.cycles.toNat))) :=
  ending_conclusion (prepare_of_saved hresume hrate hage hw hn) hsave

theorem conclusion_of_error {failure : Failure} (h : o.prepare content entropy = .error failure) :
    o.conclusion content entropy = .failed failure := by
  rw [conclusion, h]

end RunOptions

/-- In batches of any size, zero included, a run comes to its end and leaves the world of all its
cycles at once. What it saves can be resumed: then the second run writes what one run of all the cycles
from the first start would have written, whether everybody dies in between or not. Only a cap from a
foreign snapshot could let more organisms be listed than the count in a file can hold. -/
theorem course_kept :
    (∀ (batch : UInt64) (w : World) (n : UInt64), (runBatches batch w n).1 = w.run n.toNat ∧
      (runBatches batch w n).2.length ≤ n.toNat + 1) ∧
    ∀ (o p : RunOptions) (m n batch : UInt64) (f g : String)
      (content : Except FileFault (List UInt8)) (e₁ e₂ e₃ : UInt64),
      o.Determined → m.toNat + n.toNat < UInt64.size →
      let first := { o with cycles := m, save := some f }.conclusion content e₁
      let whole := { o with cycles := m + n, batch := batch, save := some g }.conclusion content e₃
      let second := fun bytes => { p with
        cycles := n
        rate := none
        maxAge := none
        resume := some f
        save := some g }.conclusion (.ok bytes) e₂
      (∀ failure, o.prepare content e₁ = .error failure →
        first = .failed failure ∧ whole = .failed failure) ∧
      ∀ w opening, o.prepare content e₁ = .ok (w, opening) →
        o.resume = none ∨ 2 * w.cap.toNat < UInt64.size →
        ∃ saved last, first.ending = .ok (some saved) ∧ saved.path = f ∧
          saved.bytes = (w.run m.toNat).snapshot.toBytes ∧
          (second saved.bytes).ending = .ok (some last) ∧ whole.ending = .ok (some last) ∧
          last.path = g ∧ last.bytes = (w.run (m.toNat + n.toNat)).snapshot.toBytes := by
  refine ⟨fun batch w n => ⟨runBatches_fst batch w n, length_runBatches_le batch w n⟩, ?_⟩
  intro o p m n batch f g content e₁ e₂ e₃ hdet hsum first whole second
  have hstart := RunOptions.prepare_of_determined hdet content e₃ e₁
  refine ⟨fun failure h => ?_, fun w opening h hcap => ?_⟩
  · exact ⟨RunOptions.conclusion_of_error h, RunOptions.conclusion_of_error (hstart.trans h)⟩
  · obtain ⟨hsound, hsize⟩ := RunOptions.sound_prepare h
    have hdouble : 2 * w.cap.toNat < UInt64.size := by
      rcases hcap with hresume | hcap
      · rw [RunOptions.cap_prepare hresume h]
        decide
      · exact hcap
    have hcount : (w.run m.toNat).population.size < UInt64.size :=
      (World.size_run_le m.toNat hsound).trans_lt (max_lt hsize hdouble)
    have hsecond : (second (w.run m.toNat).snapshot.toBytes).ending =
        .ok (some (RunOptions.delivery g ((w.run m.toNat).run n.toNat))) :=
      RunOptions.ending_of_saved rfl rfl rfl rfl (World.sound_run m.toNat hsound) hcount
    have hwhole : whole.ending = .ok (some (RunOptions.delivery g (w.run (m + n).toNat))) :=
      RunOptions.ending_conclusion (hstart.trans h) rfl
    rw [World.toNat_add_of_lt hsum, World.run_add] at hwhole
    rw [World.run_add]
    exact ⟨_, _, RunOptions.ending_conclusion h rfl, rfl, rfl, hsecond, hwhole, rfl, rfl⟩

/-- An ancestor that may live for one turn dies in its second, in the first of two runs, which has a
batch size of zero. -/
theorem course_kept_short_life :
    let o : RunOptions := ⟨2, 0, some 7, none, some 1, ⟨0, 2, 4⟩, none, some "a"⟩
    let p : RunOptions := ⟨3, 5, none, none, none, ⟨0, 2, 4⟩, some "a", some "b"⟩
    ∃ w opening saved last, o.prepare (.error .missing) 0 = .ok (w, opening) ∧
      (w.run 2).extinct = true ∧ (o.conclusion (.error .missing) 0).ending = .ok (some saved) ∧
      (p.conclusion (.ok saved.bytes) 1).ending = .ok (some last) ∧
      ({ o with cycles := 5, batch := 4, save := some "b" }.conclusion (.error .missing) 2).ending =
        .ok (some last) := by
  intro o p
  have haccepted : o.ancestor.Accepted := (Ancestor.refusal?_eq_none_iff _).mp (by decide)
  obtain ⟨opening, h⟩ := (RunOptions.prepare_eq_ok_iff rfl (.error .missing) 0 _).mpr
    ⟨haccepted, rfl⟩
  obtain ⟨-, hkept⟩ := course_kept.2 o p 2 3 4 "a" "b" (.error .missing) 0 1 2 (.inl rfl) (by decide)
  obtain ⟨saved, last, hfirst, -, -, hsecond, hwhole, -⟩ := hkept _ opening h (.inl rfl)
  exact ⟨_, opening, saved, last, h, by decide +kernel, hfirst, hsecond, hwhole⟩

end Vivarium.CommandLine
