import Vivarium.Ancestor
import Vivarium.Proofs.Restoration
import Vivarium.World.Request

/-!
# Every world that can come about is sound

* `World.Reachable` : the worlds that configurations, snapshots and requests give rise to;
* `World.sound_perform` : no request, an accepted or refused snapshot included, makes a sound world
  unsound;
* `World.reachable_invariant` : every reachable world is sound, so that its snapshot is accepted.
-/

namespace Vivarium

namespace World

/-- The worlds that can come about: a fresh one, the world of a snapshot, and what a request leaves
of one that can. -/
inductive Reachable : World → Prop
  | fresh (c : Config) (seed : UInt64) : Reachable (ofConfig c seed)
  | restored {s : Snapshot} {w : World} (h : ofSnapshot s = .ok w) : Reachable w
  | after {w : World} (h : Reachable w) (r : Request) : Reachable (w.perform r).1

theorem Reachable.performAll {w : World} (h : Reachable w) (rs : List Request) :
    Reachable (w.performAll rs) := by
  induction rs generalizing w with
  | nil => exact h
  | cons r rs ih => exact ih (h.after r)

/-! ## Requests -/

theorem sound_ofConfig (c : Config) (seed : UInt64) : (ofConfig c seed).Sound where
  habitat := ⟨Memory.validOwner_empty, Binary64.probability_clampUnit c.rate⟩
  members o ho := absurd ho (Array.not_mem_empty o)
  capped := Nat.zero_le _
  capacity := by
    show 1 ≤ (if c.historyCapacity ≤ 1 then 1 else c.historyCapacity : UInt64).toNat
    split_ifs with hle
    · decide
    · rw [UInt64.le_iff_toNat_le, Nat.not_le] at hle
      exact hle.le
  history := Nat.zero_le _

theorem sound_load {w : World} (hw : w.Sound) (a : Address) (ws : List Word) :
    (w.load a ws).Sound where
  habitat := ⟨Memory.validOwner_load hw.habitat.owners a ws, hw.habitat.rate⟩
  members := hw.members
  capped := hw.capped
  capacity := hw.capacity
  history := hw.history

theorem sound_addRoot {w : World} (hw : w.Sound) (a : Address) : (w.addRoot a).1.Sound := by
  unfold addRoot
  split_ifs with hroom
  · refine ⟨?_, ?_, ?_, ?_, ?_⟩
    · exact hw.habitat
    · intro o ho
      rcases Array.mem_push.mp ho with hold | rfl
      · exact hw.members o hold
      · exact Organism.sound_root a w.lineage
    · exact Nat.le_trans (livingCount_push_le w _ _) (livingCount_lt_of_hasRoom hroom)
    · exact hw.capacity
    · exact hw.history
  · exact hw

theorem sound_plant {w : World} (hw : w.Sound) (a : Address) (ws : List Word) :
    (w.plant a ws).1.Sound :=
  sound_addRoot (sound_load hw a ws) a

theorem sound_setSettings {w : World} (hw : w.Sound) {s : Settings} (hs : s.rate.Probability) :
    (w.setSettings s).Sound where
  habitat := ⟨hw.habitat.owners, hs⟩
  members := hw.members
  capped := hw.capped
  capacity := hw.capacity
  history := hw.history

theorem sound_reset {w : World} (hw : w.Sound) : w.reset.Sound where
  habitat := ⟨Memory.validOwner_empty, hw.habitat.rate⟩
  members o ho := absurd ho (Array.not_mem_empty o)
  capped := Nat.zero_le _
  capacity := hw.capacity
  history := Nat.zero_le _

theorem sound_perform {w : World} (hw : w.Sound) (r : Request) : (w.perform r).1.Sound := by
  cases r with
  | load start ws => exact sound_load hw _ ws
  | plant start ws => exact sound_plant hw _ ws
  | addRoot ip => exact sound_addRoot hw _
  | step => exact sound_step hw
  | run n => exact sound_run n.toNat hw
  | setRate rate => exact sound_setSettings hw (Settings.probability_setRate _ rate)
  | setMaxAge maxAge => exact sound_setSettings hw hw.habitat.rate
  | reset => exact sound_reset hw
  | replace s => exact sound_replace hw s

/-! ## Reachable worlds -/

theorem Reachable.sound {w : World} (h : Reachable w) : w.Sound := by
  induction h with
  | fresh c seed => exact sound_ofConfig c seed
  | restored h => exact sound_of_ofSnapshot h
  | after _ r ih => exact sound_perform ih r

/-- Both tables of a reachable world are complete, the world is sound, and its snapshot passes every
test, so that it can be restored. -/
theorem reachable_invariant {w : World} (h : w.Reachable) :
    w.memory.words.length = Address.count ∧ w.memory.owners.length = Address.count ∧
      w.Sound ∧ w.snapshot.defect? = none :=
  ⟨Memory.length_words _, Memory.length_owners _, h.sound, defect?_snapshot h.sound⟩

/-- A world that starts from a rate that is no number and without any history to keep, in which a
copying program is planted across the end of the ring and lives through five cycles. -/
theorem reachable_invariant_unclamped :
    let w := (ofConfig ⟨.nan, 0, 2, 0, some 7⟩ 0).performAll
      [.plant 4094 (Ancestor.program 3 5), .setRate .infinity, .run 5]
    w.memory.words.length = Address.count ∧ w.memory.owners.length = Address.count ∧
      w.Sound ∧ w.snapshot.defect? = none :=
  reachable_invariant ((Reachable.fresh _ _).performAll _)

end World

end Vivarium
