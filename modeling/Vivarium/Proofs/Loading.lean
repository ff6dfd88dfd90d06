import Vivarium.Proofs.Ring

/-!
# Loads and windows of any length

A load goes round the ring as often as it has words for it, so it may come to a cell more than once, and
then the last word stays.

* `Memory.visits` : the indices at which a run of cells comes to a cell;
* `Memory.load_append` : a load in two parts;
* `Memory.cell_load_of_isGreatest`, `Memory.cell_load_of_visits_eq_empty` : what a load leaves in a cell
  that it comes to, and in one that it does not come to;
* `Memory.getElem?_window`, `Memory.window_load`, `Memory.window_load_drop` : what a window shows, and that
  the last words of a load are read back from their places;
* `Memory.load_and_window` : all this for machine addresses.
-/

namespace Vivarium

namespace Address

/-- The cell `k` places on from a machine address. The sum may leave the range of machine addresses,
which is a multiple of the ring. -/
theorem ofUInt64_add_ofNat (start : UInt64) (k : Nat) :
    ofUInt64 (start + .ofNat k) = ofInt (start.toNat + k) := by
  have hcount : count = 4096 := rfl
  apply BitVec.eq_of_toNat_eq
  rw [← Int.ofNat_inj, toNat_ofInt, toNat_ofUInt64, UInt64.toNat_add, UInt64.toNat_ofNat', hcount]
  omega

end Address

namespace Memory

open Address

/-- The indices below `n` at which a run of cells from `start` on comes to a cell. -/
def visits (start : UInt64) (n : Nat) (b : Address) : Set Nat :=
  {i | i < n ∧ (start.toNat + i) % count = b.toNat}

variable {start : UInt64} {ws : List Word} {n i : Nat} {b : Address} {w : Word}

theorem mem_visits_iff : i ∈ visits start n b ↔ i < n ∧ ofInt (start.toNat + i) = b := by
  have hcell : ofInt (start.toNat + i) = b ↔ (start.toNat + i) % 4096 = b.toNat := by
    rw [← BitVec.toNat_inj, ← Int.ofNat_inj, toNat_ofInt]
    omega
  rw [hcell]
  rfl

theorem exists_isGreatest_visits (h : (visits start n b).Nonempty) :
    ∃ i, IsGreatest (visits start n b) i := by
  have hbound : BddAbove (visits start n b) := ⟨n, fun i hi => hi.1.le⟩
  exact ⟨_, Nat.sSup_mem h hbound, fun i hi => le_csSup hbound hi⟩

/-! ## Loads -/

theorem load_append (m : Memory) (n : Int) (vs ws : List Word) :
    m.load (ofInt n) (vs ++ ws) = (m.load (ofInt n) vs).load (ofInt (n + vs.length)) ws := by
  induction vs generalizing m n with
  | nil => simp [load]
  | cons v vs ih =>
    have hnext : n + 1 + vs.length = n + (vs.length + 1 : Nat) := by omega
    rw [List.cons_append, load, ofInt_add_one, ih, hnext, load, ofInt_add_one, List.length_cons]

theorem cell_load_of_visits_eq_empty (m : Memory) (h : visits start ws.length b = ∅) :
    (m.load (ofUInt64 start) ws).cell b = m.cell b := by
  rw [ofUInt64_eq]
  refine cell_load_of_ne m _ ws fun i hi hb => ?_
  have hvisit : i ∈ visits start ws.length b := mem_visits_iff.mpr ⟨hi, hb⟩
  rw [h] at hvisit
  exact hvisit

/-- Of the words that come to a cell the last one stays, and nobody owns it: the words behind it go to
other cells. -/
theorem cell_load_of_isGreatest (m : Memory) (h : IsGreatest (visits start ws.length b) i)
    (hw : ws[i]? = some w) : (m.load (ofUInt64 start) ws).cell b = ⟨w, none⟩ := by
  obtain ⟨hvisit, hlast⟩ := h
  obtain ⟨hi, hb⟩ := mem_visits_iff.mp hvisit
  have hsplit : ws = ws.take i ++ w :: ws.drop (i + 1) := by
    obtain ⟨-, rfl⟩ := List.getElem?_eq_some_iff.mp hw
    rw [List.getElem_cons_drop, List.take_append_drop]
  have hlen : (ws.take i).length = i := by
    rw [List.length_take]
    omega
  have hrest : ∀ j : Nat, j < (ws.drop (i + 1)).length → ofInt (start.toNat + i + 1 + j) ≠ b := by
    intro j hj heq
    rw [List.length_drop] at hj
    have hindex : (start.toNat + i + 1 + j : Int) = start.toNat + (i + 1 + j : Nat) := by omega
    rw [hindex] at heq
    have hle := hlast (mem_visits_iff.mpr ⟨by omega, heq⟩)
    omega
  rw [ofUInt64_eq, hsplit, load_append, hlen, load, ofInt_add_one, cell_load_of_ne _ _ _ hrest, hb,
    cell_set_self]

/-! ## Windows -/

theorem getElem?_window (m : Memory) (h : i ∈ visits start n b) :
    (m.window (ofUInt64 start) n)[i]? = some (m.word b) := by
  obtain ⟨hi, hb⟩ := mem_visits_iff.mp h
  rw [window, List.getElem?_map, List.getElem?_range hi, Option.map_some, ofUInt64_eq, ofInt_add_ofNat, hb]

/-- A load that does not come to any cell twice is read back. -/
theorem window_load (m : Memory) (n : Int) (hlen : ws.length ≤ count) :
    (m.load (ofInt n) ws).window (ofInt n) ws.length = ws := by
  apply List.ext_getElem
  · rw [length_window]
  · intro i hi _
    rw [length_window] at hi
    simp only [window, List.getElem_map, List.getElem_range, ofInt_add_ofNat]
    exact word_load m n hlen (List.getElem?_eq_getElem hi)

/-- Of any load as many of the last words are read back as there are cells. -/
theorem window_load_drop (m : Memory) (n : Int) {k : Nat} (hk : k ≤ ws.length)
    (hlen : ws.length ≤ k + count) :
    (m.load (ofInt n) ws).window (ofInt (n + k)) (ws.length - k) = ws.drop k := by
  have hfirst : (ws.take k).length = k := by
    rw [List.length_take]
    omega
  have hparts := load_append m n (ws.take k) (ws.drop k)
  rw [List.take_append_drop, hfirst] at hparts
  rw [hparts, ← List.length_drop]
  refine window_load _ _ ?_
  rw [List.length_drop]
  omega

/-! ## Machine addresses -/

/-- After a load a cell has the last of the words that come to it, and no owner; a cell to which none comes
is as it was. A window shows the words of its cells in order. So a load that fits the ring is read back
as a whole, and of a longer one the last words are, from where they are. Two loads in a row are one. -/
theorem load_and_window (m : Memory) (start : UInt64) (ws : List Word) :
    (∀ b, (∃ i w, IsGreatest (visits start ws.length b) i ∧ ws[i]? = some w ∧
        (m.load (.ofUInt64 start) ws).cell b = ⟨w, none⟩) ∨
      (visits start ws.length b = ∅ ∧ (m.load (.ofUInt64 start) ws).cell b = m.cell b)) ∧
    (∀ n, (m.window (.ofUInt64 start) n).length = n ∧
      ∀ b, ∀ i ∈ visits start n b, (m.window (.ofUInt64 start) n)[i]? = some (m.word b)) ∧
    (ws.length ≤ count → (m.load (.ofUInt64 start) ws).window (.ofUInt64 start) ws.length = ws) ∧
    (count ≤ ws.length → (m.load (.ofUInt64 start) ws).window
      (.ofUInt64 (start + .ofNat (ws.length - count))) count = ws.drop (ws.length - count)) ∧
    ∀ vs, m.load (.ofUInt64 start) (vs ++ ws) =
      (m.load (.ofUInt64 start) vs).load (.ofUInt64 (start + .ofNat vs.length)) ws := by
  refine ⟨fun b => ?_, fun n => ⟨length_window _ _ _, fun b i hi => getElem?_window m hi⟩, fun hlen => ?_,
    fun hlen => ?_, fun vs => ?_⟩
  · rcases (visits start ws.length b).eq_empty_or_nonempty with hnone | hsome
    · exact Or.inr ⟨hnone, cell_load_of_visits_eq_empty m hnone⟩
    · obtain ⟨i, hi⟩ := exists_isGreatest_visits hsome
      obtain ⟨w, hw⟩ : ∃ w, ws[i]? = some w := ⟨_, List.getElem?_eq_getElem hi.1.1⟩
      exact Or.inl ⟨i, w, hi, hw, cell_load_of_isGreatest m hi hw⟩
  · rw [ofUInt64_eq]
    exact window_load m _ hlen
  · have hdrop := window_load_drop m start.toNat (Nat.sub_le ws.length count) (by omega)
    rwa [Nat.sub_sub_self hlen, ← ofUInt64_eq, ← ofUInt64_add_ofNat] at hdrop
  · rw [ofUInt64_eq, ofUInt64_add_ofNat, load_append]

/-- Two words more than there are cells, from the last cell on: two cells have been written twice. -/
theorem load_and_window_twice_round (m : Memory) :
    let ws : List Word := List.replicate 4095 7 ++ [8, 9, 10]
    let v := m.load 4095 ws
    count ≤ ws.length ∧ IsGreatest (visits 4095 ws.length 4095) 4096 ∧ v.cell 4095 = ⟨9, none⟩ ∧
      v.window 1 count = ws.drop 2 ∧
      v = (m.load 4095 (List.replicate 4095 7)).load 4094 [8, 9, 10] := by
  intro ws v
  have hlength : ws.length = 4098 := by
    rw [List.length_append, List.length_replicate]
    rfl
  have hlast : IsGreatest (visits 4095 ws.length 4095) 4096 := by
    rw [hlength]
    refine ⟨⟨by decide, by decide⟩, fun i hi => ?_⟩
    have hmod : (4095 + i) % 4096 = 4095 := hi.2
    have hlt : i < 4098 := hi.1
    omega
  have hstart : ofUInt64 (4095 + .ofNat (4098 - count)) = 1 := by decide
  have hnext : ofUInt64 (4095 + .ofNat 4095) = 4094 := by decide
  obtain ⟨hcell, -, -, hwindow, -⟩ := load_and_window m 4095 ws
  obtain ⟨-, -, -, -, happend⟩ := load_and_window m 4095 [8, 9, 10]
  have hlong : count ≤ ws.length := by
    rw [hlength]
    decide
  have hparts := happend (List.replicate 4095 7)
  have hwindow := hwindow hlong
  rw [List.length_replicate, hnext] at hparts
  rw [hlength, hstart] at hwindow
  refine ⟨hlong, hlast, ?_, hwindow, hparts⟩
  rcases hcell 4095 with ⟨i, w, hi, hw, hcell⟩ | ⟨hnone, -⟩
  · obtain rfl := hi.unique hlast
    have hbehind : (List.replicate 4095 (7 : Word)).length ≤ 4096 := by
      rw [List.length_replicate]
      decide
    rw [List.getElem?_append_right hbehind, List.length_replicate] at hw
    obtain rfl : 9 = w := Option.some.inj hw
    exact hcell
  · rw [hnone] at hlast
    exact absurd hlast.1 (Set.notMem_empty _)

end Memory

end Vivarium
