import Vivarium.Proofs.Soundness
import Vivarium.Snapshot.Defect

/-!
# Sound snapshots are those of sound worlds

* `Snapshot.Sound` : what the tests of a snapshot look for, field by field;
* `Snapshot.defect?_eq_none_iff` : the tests find nothing in exactly the sound snapshots;
* `World.sound_snapshot_iff` : the snapshot of a world is sound exactly if the world is;
* `World.ofSnapshot_snapshot` : a sound world is the world of its snapshot;
* `World.snapshot_of_ofSnapshot` : a world that a snapshot gives has that snapshot again;
* `World.acceptance_agrees` : the tests, the world of a snapshot and the replacement of a world by it accept
  the same snapshots and refuse the others for the same reason.
-/

namespace Vivarium

/-- A snapshot without defects. -/
@[mk_iff]
structure Snapshot.Sound (s : Snapshot) : Prop where
  version : s.version = currentVersion
  words : s.words.length = Address.count
  owners : s.owners.length = Address.count
  ownerHues : ∀ o ∈ s.owners, Memory.ValidOwner o
  rate : s.rate.Probability
  capacity : 1 ≤ s.historyCapacity.toNat
  history : s.history.length ≤ s.historyCapacity.toNat
  members : ∀ o ∈ s.population, o.Sound
  capped : s.livingCount ≤ s.cap.toNat

/-! ## Tests -/

namespace Snapshot

theorem when_eq_none_iff (d : Defect) (found : Bool) : d.when found = none ↔ found = false := by
  cases found <;> simp [Defect.when]

theorem memberDefect?_eq_none_iff (o : Organism) (i : Nat) :
    memberDefect? o i = none ↔ o.Sound := by
  unfold memberDefect?
  split_ifs with hip
  · refine iff_of_false (by simp) fun ho => ?_
    have := ho.ip
    omega
  · rw [when_eq_none_iff, Bool.not_eq_false', decide_eq_true_eq]
    exact ⟨fun hv => ⟨by omega, hv⟩, fun ho => ho.hue⟩

theorem findSome?_memberDefect?_eq_none_iff (os : List Organism) :
    (os.zipIdx.findSome? fun (o, i) => memberDefect? o i) = none ↔ ∀ o ∈ os, o.Sound := by
  rw [List.findSome?_eq_none_iff]
  constructor
  · intro h o ho
    obtain ⟨i, hi⟩ := List.mem_iff_getElem?.mp ho
    exact (memberDefect?_eq_none_iff o i).mp (h (o, i) (List.mem_zipIdx_iff_getElem?.mpr hi))
  · rintro h ⟨o, i⟩ hmem
    have ho : o ∈ os := List.mem_of_getElem? (List.mem_zipIdx_iff_getElem?.mp hmem)
    exact (memberDefect?_eq_none_iff o i).mpr (h o ho)

/-- The tests find nothing exactly if every field is as it should be. -/
theorem defect?_eq_none_iff (s : Snapshot) : s.defect? = none ↔ s.Sound := by
  have hcapacity : (s.historyCapacity == 0) = false ↔ 1 ≤ s.historyCapacity.toNat := by
    rw [beq_eq_false_iff_ne, ne_eq, ← UInt64.toNat_inj]
    exact Nat.one_le_iff_ne_zero.symm
  have hhues : (s.owners.any fun o => !decide (Memory.ValidOwner o)) = false ↔
      ∀ o ∈ s.owners, Memory.ValidOwner o := by
    simp [List.any_eq_false]
  rw [defect?, List.findSome?_eq_none_iff]
  simp only [tests, List.mem_cons, List.not_mem_nil, or_false, forall_eq_or_imp, forall_eq, id_eq,
    when_eq_none_iff, findSome?_memberDefect?_eq_none_iff, bne_eq_false_iff_eq, hcapacity, hhues,
    Bool.not_eq_false', ← Binary64.probability_iff, decide_eq_false_iff_not, Nat.not_lt]
  exact (sound_iff s).symm

end Snapshot

/-! ## Tables -/

namespace Memory

theorem length_words (m : Memory) : m.words.length = Address.count := by simp [words]

theorem length_owners (m : Memory) : m.owners.length = Address.count := by simp [owners]

theorem mem_owners_iff {m : Memory} {o : Option Hue} : o ∈ m.owners ↔ ∃ a, m.owner a = o := by
  simp only [owners, List.mem_map, Vector.mem_toList_iff]
  constructor
  · rintro ⟨c, hc, rfl⟩
    obtain ⟨i, hi, rfl⟩ := Vector.mem_iff_getElem.mp hc
    refine ⟨BitVec.ofNat 12 i, ?_⟩
    simp only [owner, cell, BitVec.toNat_ofNat, Nat.mod_eq_of_lt hi]
  · rintro ⟨a, rfl⟩
    exact ⟨m.cell a, Vector.getElem_mem _, rfl⟩

theorem validOwners_iff (m : Memory) :
    (∀ o ∈ m.owners, ValidOwner o) ↔ ∀ a, ValidOwner (m.owner a) := by
  simp only [mem_owners_iff]
  exact ⟨fun h a => h _ ⟨a, rfl⟩, fun h o ⟨a, ha⟩ => ha ▸ h a⟩

theorem zipWith_tables (m : Memory) : List.zipWith Cell.mk m.words m.owners = m.cells.toList := by
  rw [words, owners, List.zipWith_map, List.zipWith_self]
  exact List.map_id _

theorem map_word_zipWith (ws : List Word) (os : List (Option Hue)) :
    (List.zipWith Cell.mk ws os).map Cell.word = (ws.zip os).map Prod.fst := by
  rw [List.zip, List.map_zipWith, List.map_zipWith]

theorem map_owner_zipWith (ws : List Word) (os : List (Option Hue)) :
    (List.zipWith Cell.mk ws os).map Cell.owner = (ws.zip os).map Prod.snd := by
  rw [List.zip, List.map_zipWith, List.map_zipWith]

theorem findIdx?_validOwner_eq_none {os : List (Option Hue)} (h : ∀ o ∈ os, ValidOwner o) :
    (os.findIdx? fun o => !decide (ValidOwner o)) = none := by
  rw [List.findIdx?_eq_none_iff]
  intro o ho
  simpa using h o ho

/-- The tables of a soup with valid owners give that soup. -/
theorem ofTables_tables {m : Memory} (hm : ∀ a, ValidOwner (m.owner a)) :
    ofTables m.words m.owners = .ok m := by
  have hfind := findIdx?_validOwner_eq_none ((validOwners_iff m).mpr hm)
  unfold ofTables
  rw [dif_pos m.length_words, dif_pos m.length_owners, hfind]
  simp only [zipWith_tables]
  rfl

/-- Tables of the right length with valid owners are the tables of a soup. -/
theorem exists_ofTables {ws : List Word} {os : List (Option Hue)} (hws : ws.length = Address.count)
    (hos : os.length = Address.count) (hv : ∀ o ∈ os, ValidOwner o) :
    ∃ m, ofTables ws os = .ok m ∧ m.words = ws ∧ m.owners = os := by
  have hfind := findIdx?_validOwner_eq_none hv
  unfold ofTables
  rw [dif_pos hws, dif_pos hos, hfind]
  refine ⟨_, rfl, ?_, ?_⟩
  · rw [words, Vector.toList_mk, List.toList_toArray, map_word_zipWith]
    exact List.map_fst_zip (by omega)
  · rw [owners, Vector.toList_mk, List.toList_toArray, map_owner_zipWith]
    exact List.map_snd_zip (by omega)

end Memory

/-! ## Worlds of snapshots -/

namespace World

theorem sound_snapshot_iff (w : World) : w.snapshot.Sound ↔ w.Sound := by
  have hcount : w.snapshot.livingCount = w.livingCount := (livingCount_eq w).symm
  refine ⟨fun hs => ?_, fun hw => ?_⟩
  · refine ⟨?_, ?_, ?_, ?_, ?_⟩
    · exact ⟨(Memory.validOwners_iff w.memory).mp hs.ownerHues, hs.rate⟩
    · exact fun o ho => hs.members o (Array.mem_toList_iff.mpr ho)
    · rw [← hcount]
      exact hs.capped
    · exact hs.capacity
    · exact hs.history
  · refine ⟨?_, ?_, ?_, ?_, ?_, ?_, ?_, ?_, ?_⟩
    · rfl
    · exact Memory.length_words w.memory
    · exact Memory.length_owners w.memory
    · exact (Memory.validOwners_iff w.memory).mpr hw.habitat.owners
    · exact hw.habitat.rate
    · exact hw.capacity
    · exact hw.history
    · exact fun o ho => hw.members o (Array.mem_toList_iff.mp ho)
    · rw [hcount]
      exact hw.capped

/-- A sound world passes the tests. -/
theorem defect?_snapshot {w : World} (hw : w.Sound) : w.snapshot.defect? = none :=
  (Snapshot.defect?_eq_none_iff _).mpr ((sound_snapshot_iff w).mpr hw)

theorem ofSnapshot_snapshot {w : World} (hw : w.Sound) : ofSnapshot w.snapshot = .ok w := by
  have htables : Memory.ofTables w.snapshot.words w.snapshot.owners = .ok w.memory :=
    Memory.ofTables_tables hw.habitat.owners
  simp only [ofSnapshot, defect?_snapshot hw, htables]
  rfl

theorem snapshot_of_ofSnapshot {s : Snapshot} {w : World} (h : ofSnapshot s = .ok w) :
    s.Sound ∧ w.snapshot = s := by
  unfold ofSnapshot at h
  split at h
  · cases h
  · rename_i hdefect
    have hs := (Snapshot.defect?_eq_none_iff s).mp hdefect
    obtain ⟨m, hm, hwords, howners⟩ := Memory.exists_ofTables hs.words hs.owners hs.ownerHues
    rw [hm] at h
    cases h
    refine ⟨hs, ?_⟩
    have hversion := hs.version
    cases s
    simp only [snapshot, memory, settings, hwords, howners] at hversion ⊢
    rw [hversion]

theorem sound_of_ofSnapshot {s : Snapshot} {w : World} (h : ofSnapshot s = .ok w) : w.Sound := by
  obtain ⟨hs, heq⟩ := snapshot_of_ofSnapshot h
  rw [← heq, sound_snapshot_iff] at hs
  exact hs

/-- The world of a snapshot takes this one's place, or this one stays. -/
theorem sound_replace {w : World} (hw : w.Sound) (s : Snapshot) : (w.replace s).1.Sound := by
  unfold replace
  split
  · exact hw
  · rename_i v hv
    exact sound_of_ofSnapshot hv

/-! ### Acceptance -/

theorem ofSnapshot_of_defect {s : Snapshot} {d : Snapshot.Defect} (h : s.defect? = some d) :
    ofSnapshot s = .error d := by
  rw [ofSnapshot, h]

/-- The tables of a snapshot that passes the tests are those of a soup. -/
theorem exists_memory {s : Snapshot} (h : s.defect? = none) :
    ∃ m, Memory.ofTables s.words s.owners = .ok m := by
  have hs := (Snapshot.defect?_eq_none_iff s).mp h
  obtain ⟨m, hm, -, -⟩ := Memory.exists_ofTables hs.words hs.owners hs.ownerHues
  exact ⟨m, hm⟩

/-- So nothing else can fail. -/
theorem exists_ofSnapshot {s : Snapshot} (h : s.defect? = none) : ∃ v, ofSnapshot s = .ok v := by
  obtain ⟨m, hm⟩ := exists_memory h
  simp only [ofSnapshot, h, hm]
  exact ⟨_, rfl⟩

theorem ofSnapshot_eq_error_iff (s : Snapshot) (d : Snapshot.Defect) :
    ofSnapshot s = .error d ↔ s.defect? = some d := by
  refine ⟨fun h => ?_, ofSnapshot_of_defect⟩
  cases hd : s.defect? with
  | none =>
    obtain ⟨v, hv⟩ := exists_ofSnapshot hd
    rw [hv] at h
    cases h
  | some e =>
    rw [ofSnapshot_of_defect hd] at h
    rw [Except.error.inj h]

theorem replace_of_ok {s : Snapshot} {v : World} (h : ofSnapshot s = .ok v) (w : World) :
    w.replace s = (v, .ok ()) := by
  rw [replace, h]

theorem replace_of_error {s : Snapshot} {d : Snapshot.Defect} (h : ofSnapshot s = .error d)
    (w : World) : w.replace s = (w, .error d) := by
  rw [replace, h]

/-- What a replacement reports is whether there is a world of the snapshot. -/
theorem replace_snd (w : World) (s : Snapshot) :
    (w.replace s).2 = (ofSnapshot s).map fun _ => () := by
  cases h : ofSnapshot s with
  | error d => rw [replace_of_error h]; rfl
  | ok v => rw [replace_of_ok h]; rfl

/-- The tests of a snapshot, the world made of it and the replacement of any world by it accept the
same snapshots, which are those of the sound worlds, and report the same defect of the others. A
refused snapshot changes nothing. An accepted one leaves nothing of the world that was there before
and is the snapshot of the world that takes its place. -/
theorem acceptance_agrees (s : Snapshot) (w : World) :
    List.TFAE [s.defect? = none, ∃ v, ofSnapshot s = .ok v, (w.replace s).2 = .ok (),
      ∃ v : World, v.Sound ∧ v.snapshot = s] ∧
    (∀ d, List.TFAE [s.defect? = some d, ofSnapshot s = .error d, (w.replace s).2 = .error d]) ∧
    (s.defect? = none → ∃ m, Memory.ofTables s.words s.owners = .ok m) ∧
    (∀ d, (w.replace s).2 = .error d → (w.replace s).1 = w) ∧
    (∀ v, ofSnapshot s = .ok v → (w.replace s).1 = v ∧ v.snapshot = s) := by
  refine ⟨?_, fun d => ?_, exists_memory, fun d h => ?_, fun v h => ?_⟩
  · tfae_have 1 → 2 := exists_ofSnapshot
    tfae_have 2 → 4 := fun ⟨v, hv⟩ => ⟨v, sound_of_ofSnapshot hv, (snapshot_of_ofSnapshot hv).2⟩
    tfae_have 4 → 1 := fun ⟨v, hv, hs⟩ => hs ▸ defect?_snapshot hv
    tfae_have 2 ↔ 3 := by
      rw [replace_snd]
      cases ofSnapshot s <;> simp [Except.map]
    tfae_finish
  · tfae_have 1 ↔ 2 := (ofSnapshot_eq_error_iff s d).symm
    tfae_have 2 ↔ 3 := by
      rw [replace_snd]
      cases ofSnapshot s <;> simp [Except.map]
    tfae_finish
  · cases hs : ofSnapshot s with
    | error e => rw [replace_of_error hs]
    | ok v =>
      rw [replace_of_ok hs] at h
      cases h
  · rw [replace_of_ok h]
    exact ⟨rfl, (snapshot_of_ofSnapshot h).2⟩

end World

end Vivarium
