import Vivarium.Proofs.Codec
import Vivarium.Proofs.Reachability
import Vivarium.Snapshot.Bytes

/-!
# Saving and resuming

* `Snapshot.restores_codec` : the byte form of a snapshot holds every field of it;
* `World.ofBytes_toBytes_snapshot` : a sound world comes back from the bytes of its snapshot as it was.
-/

namespace Vivarium

namespace Snapshot

/-- The lists of a snapshot are short enough to be counted in eight bytes. -/
structure Countable (s : Snapshot) : Prop where
  words : s.words.length < 2 ^ 64
  owners : s.owners.length < 2 ^ 64
  population : s.population.length < 2 ^ 64
  history : s.history.length < 2 ^ 64

theorem restores_codec {s : Snapshot} (hs : s.Countable) : codec.Restores s := by
  refine Codec.restores_map ?_ rfl
  refine Codec.restores_pair (Codec.restores_u32 _) ?_
  refine Codec.restores_pair (Codec.restores_list hs.words fun w _ => Word.restores_codec w) ?_
  refine Codec.restores_pair (Codec.restores_list hs.owners fun o _ =>
    Codec.restores_option fun h _ => Hue.restores_codec h) ?_
  refine Codec.restores_pair (Codec.restores_list hs.population fun o _ =>
    Organism.restores_codec o) ?_
  refine Codec.restores_pair (Codec.restores_u64 _) ?_
  refine Codec.restores_pair (Codec.restores_u64 _) ?_
  refine Codec.restores_pair (Binary64.restores_codec _) ?_
  refine Codec.restores_pair (Codec.restores_u64 _) ?_
  refine Codec.restores_pair (Codec.restores_u64 _) ?_
  refine Codec.restores_pair (Codec.restores_list hs.history fun n _ => Codec.restores_u32 n) ?_
  refine Codec.restores_pair (Codec.restores_u64 _) ?_
  exact Codec.restores_pair (Stream.restores_codec _) (Stream.restores_codec _)

/-- In a sound snapshot only the number of organisms is left to be small enough: the tables have a
fixed length, and the history is bounded by its capacity. -/
theorem countable_of_sound {s : Snapshot} (hs : s.Sound) (hn : s.population.length < 2 ^ 64) :
    s.Countable where
  words := by
    rw [hs.words]
    decide
  owners := by
    rw [hs.owners]
    decide
  population := hn
  history := Nat.lt_of_le_of_lt hs.history s.historyCapacity.toNat_lt

/-- A sound snapshot is read back from its bytes, whatever follows them. -/
theorem ofBytes_append {s : Snapshot} (hs : s.Sound) (hn : s.population.length < 2 ^ 64)
    (rest : List UInt8) : ofBytes (s.toBytes ++ rest) = .ok s := by
  have hdecode := restores_codec (countable_of_sound hs hn) rest
  have hdefect := (defect?_eq_none_iff s).mpr hs
  simp only [ofBytes, toBytes, hdecode, hdefect]

end Snapshot

namespace World

/-- The bytes of a sound world's snapshot are read as that snapshot, and the world of it is the same
world in every field. The count of organisms has eight bytes, which is what a machine address has. -/
theorem ofBytes_toBytes_snapshot {w : World} (hw : w.Sound) (hn : w.population.size < 2 ^ 64) :
    Snapshot.ofBytes w.snapshot.toBytes = .ok w.snapshot ∧ ofSnapshot w.snapshot = .ok w := by
  have hs : w.snapshot.Sound := (sound_snapshot_iff w).mpr hw
  have hlen : w.snapshot.population.length < 2 ^ 64 := by
    rw [show w.snapshot.population = w.population.toList by rfl, Array.length_toList]
    exact hn
  refine ⟨?_, ofSnapshot_snapshot hw⟩
  have hbytes := Snapshot.ofBytes_append hs hlen []
  rwa [List.append_nil] at hbytes

theorem size_addRoot_le (w : World) (a : Address) :
    (w.addRoot a).1.population.size ≤ w.population.size + 1 := by
  unfold addRoot
  split_ifs
  · simp
  · exact Nat.le_succ _

theorem cap_addRoot (w : World) (a : Address) : (w.addRoot a).1.cap = w.cap := by
  unfold addRoot
  split_ifs <;> rfl

/-- A root in the last cell, a full history to come and the negative zero for a rate. -/
theorem ofBytes_toBytes_snapshot_negative_zero :
    let w := ((ofConfig ⟨⟨0x8000000000000000⟩, 3, 2, 4, some 7⟩ 0).addRoot 4095).1
    w.settings.rate = ⟨0x8000000000000000⟩ ∧
      Snapshot.ofBytes w.snapshot.toBytes = .ok w.snapshot ∧ ofSnapshot w.snapshot = .ok w := by
  refine ⟨?_, ofBytes_toBytes_snapshot (sound_addRoot (sound_ofConfig _ _) _) ?_⟩
  · rw [settings, habitat_addRoot]
    decide
  · exact Nat.lt_of_le_of_lt (size_addRoot_le _ _) (by decide)

end World

end Vivarium
