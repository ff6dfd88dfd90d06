import Vivarium.Proofs.Reaping
import Vivarium.World.Request

/-!
# Runs as repeated cycles

A run looks for somebody alive before each of its cycles; a cycle by itself does not, and is not
counted if nobody lives.

* `World.run_eq_iterate` : a run is its cycles, one after the other;
* `World.duration_add` : how long two runs take, one after the other;
* `World.Ran` : how a run ends;
* `World.run_refines_step` : what a run answers and where it ends, and the same for two runs.
-/

namespace Vivarium

namespace World

/-! ## The cycles of a run -/

theorem duration_of_extinct {w : World} (h : w.extinct = true) (n : Nat) : duration n w = 0 := by
  cases n with
  | zero => rfl
  | succ n => rw [duration, if_pos h]

theorem run_eq_iterate (n : Nat) (w : World) : run n w = step^[duration n w] w := by
  induction n generalizing w with
  | zero => rfl
  | succ n ih =>
    rw [run, duration]
    split_ifs
    · rfl
    · rw [ih, Function.iterate_succ_apply]

/-- Only the death of everybody ends a run early. -/
theorem extinct_of_duration_lt {n : Nat} {w : World} (h : duration n w < n) :
    (run n w).extinct = true := by
  by_contra hl
  rw [Bool.not_eq_true] at hl
  exact h.ne (duration_of_living hl)

theorem duration_eq_zero_iff (n : Nat) (w : World) :
    duration n w = 0 ↔ n = 0 ∨ w.extinct = true := by
  cases n with
  | zero => simp [duration]
  | succ n =>
    rw [duration]
    split_ifs with h <;> simp [h]

/-- Two runs take as long as one, also if everybody dies in the first and the second takes no time. -/
theorem duration_add (m n : Nat) (w : World) :
    duration (m + n) w = duration m w + duration n (run m w) := by
  induction m generalizing w with
  | zero => rw [Nat.zero_add, run, duration, Nat.zero_add]
  | succ m ih =>
    rw [Nat.add_right_comm]
    cases h : w.extinct with
    | true => rw [run_of_extinct h, duration_of_extinct h, duration_of_extinct h, duration_of_extinct h]
    | false =>
      simp only [run, duration, h, Bool.false_eq_true, if_false]
      rw [ih, Nat.add_right_comm]

/-- Where nobody lives, any number of cycles removes the dead and does no more. -/
theorem iterate_step_of_extinct {w : World} (h : w.extinct = true) {n : Nat} (hn : n ≠ 0) :
    step^[n] w = w.reap := by
  obtain ⟨n, rfl⟩ := Nat.exists_eq_succ_of_ne_zero hn
  induction n with
  | zero => exact step_of_extinct h
  | succ n ih =>
    rw [Function.iterate_succ_apply', ih n.succ_ne_zero, ← step_of_extinct h, step_step_of_extinct h]

/-! ## What a run answers -/

theorem toNat_add_of_lt {a b : UInt64} (h : a.toNat + b.toNat < UInt64.size) :
    (a + b).toNat = a.toNat + b.toNat := by
  rw [UInt64.toNat_add]
  exact Nat.mod_eq_of_lt h

/-- How many of at most `n` cycles a run counts. -/
def elapsed (w : World) (n : UInt64) : UInt64 := .ofNat (duration n.toNat w)

theorem toNat_elapsed (w : World) (n : UInt64) : (w.elapsed n).toNat = duration n.toNat w :=
  UInt64.toNat_ofNat_of_lt' ((duration_le _ w).trans_lt n.toNat_lt)

theorem perform_run (w : World) (n : UInt64) :
    w.perform (.run n) = (w.run n.toNat, .ran (w.elapsed n)) := by
  rw [perform, cycles_run_sub, elapsed]

theorem elapsed_le (w : World) (n : UInt64) : w.elapsed n ≤ n := by
  rw [UInt64.le_iff_toNat_le, toNat_elapsed]
  exact duration_le _ w

theorem elapsed_add (w : World) {a b : UInt64} (h : a.toNat + b.toNat < UInt64.size) :
    w.elapsed (a + b) = w.elapsed a + (w.run a.toNat).elapsed b := by
  rw [elapsed, toNat_add_of_lt h, duration_add, UInt64.ofNat_add]
  rfl

/-- A run of at most `n` cycles from `w` ends in `v` after `k` of them. -/
structure Ran (w : World) (n k : UInt64) (v : World) : Prop where
  atMost : k ≤ n
  cycles : v = step^[k.toNat] w
  counter : v.cycles = w.cycles + k
  counted : w.cycles.toNat + k.toNat < UInt64.size → v.cycles.toNat = w.cycles.toNat + k.toNat
  early : k < n → v.extinct = true
  none_iff : k = 0 ↔ n = 0 ∨ w.extinct = true
  /-- The cycles that have not taken place would only remove the dead. -/
  remaining : step^[n.toNat - k.toNat] v = if k = n then v else v.reap

theorem ran_run (w : World) (n : UInt64) : w.Ran n (w.elapsed n) (w.run n.toNat) := by
  have hcounter : (w.run n.toNat).cycles = w.cycles + w.elapsed n := cycles_run _ w
  have hearly : w.elapsed n < n → (w.run n.toNat).extinct = true := by
    intro hlt
    rw [UInt64.lt_iff_toNat_lt, toNat_elapsed] at hlt
    exact extinct_of_duration_lt hlt
  refine ⟨w.elapsed_le n, ?_, hcounter, fun h => ?_, hearly, ?_, ?_⟩
  · rw [toNat_elapsed]
    exact run_eq_iterate _ w
  · rw [hcounter, toNat_add_of_lt h]
  · rw [← UInt64.toNat_inj, ← UInt64.toNat_inj, toNat_elapsed]
    exact duration_eq_zero_iff _ w
  · -- Either no cycle is missing, or the missing ones find nobody alive.
    split_ifs with hk
    · rw [hk, Nat.sub_self]
      rfl
    · have hlt : w.elapsed n < n := UInt64.lt_of_le_of_ne (w.elapsed_le n) hk
      have hne : n.toNat - (w.elapsed n).toNat ≠ 0 :=
        Nat.sub_ne_zero_of_lt (UInt64.lt_iff_toNat_lt.mp hlt)
      exact iterate_step_of_extinct (hearly hlt) hne

/-- A run takes place as a number of cycles, at most as many as it is asked for, and answers it. Fewer
take place only if they leave nobody alive. Two runs are one run of as many cycles, and their answers
add up. -/
theorem run_refines_step (w : World) :
    (∀ n, ∃ k v, w.perform (.run n) = (v, .ran k) ∧ w.Ran n k v) ∧
    ∀ a b : UInt64, a.toNat + b.toNat < UInt64.size → ∃ j k u v,
      w.perform (.run a) = (u, .ran j) ∧ u.perform (.run b) = (v, .ran k) ∧
      w.perform (.run (a + b)) = (v, .ran (j + k)) ∧ j.toNat + k.toNat < UInt64.size := by
  refine ⟨fun n => ⟨_, _, w.perform_run n, w.ran_run n⟩, fun a b h => ?_⟩
  refine ⟨_, _, _, _, w.perform_run a, perform_run _ b, ?_, ?_⟩
  · rw [perform_run, elapsed_add w h, toNat_add_of_lt h, run_add]
  · have ha := UInt64.le_iff_toNat_le.mp (w.elapsed_le a)
    have hb := UInt64.le_iff_toNat_le.mp ((w.run a.toNat).elapsed_le b)
    omega

/-- A lone organism may live for one turn and dies in its second, so that five cycles are two. -/
theorem run_refines_step_short_life :
    let w := ((ofConfig ⟨.zero, 1, 3, 2, some 7⟩ 0).perform (.addRoot 0)).1
    ∃ u v, w.perform (.run 2) = (u, .ran 2) ∧ u.extinct = true ∧ u.perform (.run 3) = (v, .ran 0) ∧
      w.perform (.run 5) = (v, .ran 2) ∧ step^[3] v = v.reap := by
  intro w
  have htwo : w.elapsed 2 = 2 := by decide +kernel
  have hfive : w.elapsed 5 = 2 := by decide +kernel
  have hextinct : (w.run 2).extinct = true := by decide +kernel
  -- What follows does not depend on which world it is.
  clear_value w
  obtain ⟨j, k, u, v, hu, hv, hsum, -⟩ := (run_refines_step w).2 2 3 (by decide)
  obtain ⟨k', v', hw, hran⟩ := (run_refines_step w).1 5
  have hu' : w.perform (.run 2) = (w.run 2, .ran 2) := by rw [perform_run, htwo]; rfl
  have hw' : w.perform (.run 5) = (w.run 5, .ran 2) := by rw [perform_run, hfive]; rfl
  obtain ⟨rfl, hj⟩ := Prod.mk.inj (hu.symm.trans hu')
  obtain ⟨rfl, hk'⟩ := Prod.mk.inj (hw.symm.trans hw')
  obtain ⟨rfl, hjk⟩ := Prod.mk.inj (hsum.symm.trans hw)
  cases hj
  cases hk'
  have hk : k = 0 := by simpa using hjk
  exact ⟨_, _, hu, hextinct, hk ▸ hv, hw, hran.remaining⟩

end World

end Vivarium
