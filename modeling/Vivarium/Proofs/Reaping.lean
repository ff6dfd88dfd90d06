import Vivarium.Proofs.Reachability
import Vivarium.World.Statistics

/-!
# The dead do nothing

The dead stay in the population until the next cycle, and nothing depends on them until then.

* `World.SameLiving` : worlds that differ in their dead at most;
* `World.statistics_reap`, `World.addRoot_reap`, `World.organismAt_reap` : what is asked of a world has
  the same answer without its dead;
* `World.step_reap`, `World.reap_run`, `World.reap_perform` : what is done to a world comes to the same
  without its dead;
* `World.dead_inert` : the dead do not count in anything, now or later.
-/

namespace Vivarium

namespace World

/-- The worlds differ in their dead at most: without them they are equal. -/
def SameLiving (w v : World) : Prop := w.reap = v.reap

theorem reap_reap (w : World) : w.reap.reap = w.reap := by
  simp [reap, Array.filter_filter]

theorem sameLiving_reap (w : World) : w.SameLiving w.reap := w.reap_reap.symm

/-! ## Questions -/

theorem extinct_reap (w : World) : w.reap.extinct = w.extinct := by
  rw [extinct, extinct, livingCount_reap]

theorem hasRoom_reap (w : World) : w.reap.hasRoom = w.hasRoom := by
  unfold hasRoom
  rw [livingCount_reap]
  rfl

theorem statistics_reap (w : World) : w.reap.statistics = w.statistics := by
  have hliving : w.reap.population.toList.filter (·.alive) = w.population.toList.filter (·.alive) := by
    simp [reap, List.filter_filter]
  unfold statistics
  rw [hliving]
  rfl

/-- A root is taken in with the dead iff it is taken in without them. It is the same root then, and
takes the same from the lineage stream; otherwise nothing changes. -/
theorem addRoot_reap (w : World) (a : Address) :
    (∃ o lineage,
      w.addRoot a = ({ w with population := w.population.push o, lineage := lineage },
        some w.population.size) ∧
      w.reap.addRoot a = ({ w.reap with population := w.reap.population.push o, lineage := lineage },
        some w.reap.population.size)) ∨
    w.addRoot a = (w, none) ∧ w.reap.addRoot a = (w.reap, none) := by
  unfold addRoot
  rw [hasRoom_reap]
  cases w.hasRoom with
  | true => exact .inl ⟨_, _, rfl, rfl⟩
  | false => exact .inr ⟨rfl, rfl⟩

/-- The first of the living at an address is the same organism, under another number. -/
theorem organismAt_reap (w : World) (a : Address) :
    (w.reap.organismAt a).bind (w.reap.population[·]?) =
      (w.organismAt a).bind (w.population[·]?) := by
  unfold organismAt
  rw [← Array.find?_eq_bind_findIdx?_getElem?, ← Array.find?_eq_bind_findIdx?_getElem?]
  rw [reap, Array.find?_filter]
  congr 1
  funext o
  cases o.alive <;> cases o.ip == a.toUInt64 <;> rfl

/-! ## Requests -/

/-- The root is alive, so it stays. -/
theorem reap_addRoot (w : World) (a : Address) : (w.addRoot a).1.reap = (w.reap.addRoot a).1 := by
  unfold addRoot
  rw [hasRoom_reap]
  cases w.hasRoom with
  | true =>
    have hpush : (w.population.push (Organism.root a w.lineage).1).filter (·.alive) =
        w.reap.population.push (Organism.root a w.lineage).1 :=
      Array.filter_push_of_pos rfl (Array.size_push _)
    simp only [if_true, reap, hpush]
  | false => rfl

theorem reap_plant (w : World) (a : Address) (ws : List Word) :
    (w.plant a ws).1.reap = (w.reap.plant a ws).1 := reap_addRoot (w.load a ws) a

theorem step_reap (w : World) : w.reap.step = w.step := by
  simp only [step, reap_reap]

/-- Once nobody lives, a cycle only removes the dead, and the next one finds none. -/
theorem step_step_of_extinct {w : World} (h : w.extinct = true) : w.step.step = w.step := by
  rw [step_of_extinct h, step_reap, step_of_extinct h]

/-- A run begins with the removal of the dead, unless it has no cycle at all. -/
theorem reap_run (n : Nat) (w : World) : (run n w).reap = (run n w.reap).reap := by
  cases n with
  | zero => exact w.reap_reap.symm
  | succ n =>
    rw [run, run, extinct_reap, step_reap]
    split_ifs
    · exact w.reap_reap.symm
    · rfl

theorem reap_perform (w : World) (r : Request) :
    (w.perform r).1.reap = (w.reap.perform r).1.reap := by
  cases r with
  | load start ws => exact (w.load (.ofUInt64 start) ws).reap_reap.symm
  | plant start ws =>
    show (w.plant _ ws).1.reap = (w.reap.plant _ ws).1.reap
    rw [← reap_plant, reap_reap]
  | addRoot ip =>
    show (w.addRoot _).1.reap = (w.reap.addRoot _).1.reap
    rw [← reap_addRoot, reap_reap]
  | step => exact congrArg reap w.step_reap.symm
  | run n => exact reap_run n.toNat w
  | setRate rate => exact (w.setRate rate).reap_reap.symm
  | setMaxAge maxAge => exact (w.setMaxAge maxAge).reap_reap.symm
  | reset => rfl
  | replace s =>
    show (w.replace s).1.reap = (w.reap.replace s).1.reap
    unfold replace
    cases ofSnapshot s with
    | error d => exact w.reap_reap.symm
    | ok v => rfl

variable {w v : World}

theorem SameLiving.perform (h : w.SameLiving v) (r : Request) :
    (w.perform r).1.SameLiving (v.perform r).1 := by
  rw [SameLiving] at h ⊢
  rw [reap_perform, h, ← reap_perform]

theorem SameLiving.performAll (h : w.SameLiving v) (rs : List Request) :
    (w.performAll rs).SameLiving (v.performAll rs) := by
  induction rs generalizing w v with
  | nil => exact h
  | cons r rs ih => exact ih (h.perform r)

/-! ## The dead -/

/-- Without its dead a world goes the same way in the next cycle, which removes them and does no more
if nobody lives. It has the same figures, takes in the same roots, and whatever is asked of both, they
never differ in more than the dead. -/
theorem dead_inert (w : World) :
    w.step = w.reap.step ∧
    (w.extinct = true → w.step = w.reap ∧ w.step.step = w.step) ∧
    w.statistics = w.reap.statistics ∧ w.livingCount = w.reap.livingCount ∧
    w.extinct = w.reap.extinct ∧
    (∀ a, (∃ o lineage,
        w.addRoot a = ({ w with population := w.population.push o, lineage := lineage },
          some w.population.size) ∧
        w.reap.addRoot a = ({ w.reap with population := w.reap.population.push o, lineage := lineage },
          some w.reap.population.size)) ∨
      w.addRoot a = (w, none) ∧ w.reap.addRoot a = (w.reap, none)) ∧
    ∀ rs, (w.performAll rs).SameLiving (w.reap.performAll rs) := by
  refine ⟨w.step_reap.symm, fun hl => ⟨step_of_extinct hl, step_step_of_extinct hl⟩,
    w.statistics_reap.symm, w.livingCount_reap.symm, w.extinct_reap.symm, w.addRoot_reap, ?_⟩
  exact w.sameLiving_reap.performAll

/-- Two worlds with one dead organism. In the first there is nobody else. In the second, whose cap is
two, there is a living one as well, and room for a root because the dead do not count. -/
theorem dead_inert_one_dead :
    let w := { ofConfig ⟨.one, 9, 3, 2, some 7⟩ 0 with
      population := #[{ Organism.newborn 5 0 ⟨0⟩ with alive := false }] }
    let v := (ofConfig ⟨.zero, 0, 2, 2, some 7⟩ 0).performAll
      [.load 10 [Ancestor.deathWord], .addRoot 10, .addRoot 20, .step]
    (w.extinct = true ∧ w.reap ≠ w ∧ w.step = w.reap ∧ w.step.step = w.step) ∧
    v.population.map (·.alive) = #[false, true] ∧ v.reap ≠ v ∧ v.step = v.reap.step ∧
    v.statistics = v.reap.statistics ∧
    (v.addRoot 9).2 = some 2 ∧ (v.reap.addRoot 9).2 = some 1 ∧
    (v.addRoot 9).1.population.back? = (v.reap.addRoot 9).1.population.back? ∧
    (v.performAll [.addRoot 9, .run 2]).SameLiving (v.reap.performAll [.addRoot 9, .run 2]) := by
  intro w v
  have hreap : ∀ {u : World}, u.reap.population.size ≠ u.population.size → u.reap ≠ u :=
    fun hsize h => hsize (congrArg (fun u => u.population.size) h)
  have hextinct : w.extinct = true := by decide
  obtain ⟨hstep, hagain⟩ := (dead_inert w).2.1 hextinct
  refine ⟨⟨hextinct, hreap (by decide), hstep, hagain⟩, ?_⟩
  have halive : v.population.map (·.alive) = #[false, true] := by decide +kernel
  have hsize : v.population.size = 2 := by decide +kernel
  have hsize' : v.reap.population.size = 1 := by decide +kernel
  have hroom : (v.addRoot 9).2 = some 2 := by decide +kernel
  obtain ⟨hcycle, -, hstatistics, -, -, hroot, hrequests⟩ := dead_inert v
  obtain ⟨o, lineage, hv, hv'⟩ := (hroot 9).resolve_right fun hnone => by
    rw [hnone.1] at hroom
    cases hroom
  refine ⟨halive, hreap (by rw [hsize, hsize']; decide), hcycle, hstatistics, hroom, ?_, ?_, hrequests _⟩
  · rw [hv', hsize']
  · rw [hv, hv', Array.back?_push, Array.back?_push]

end World

end Vivarium
