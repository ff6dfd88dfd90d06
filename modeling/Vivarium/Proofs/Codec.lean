import Mathlib.Tactic
import Vivarium.Codec.Records

/-!
# Reading back what was written

* `Codec.Restores c x` : reading what `c` writes for `x` gives `x` back and leaves what follows;
* one lemma for each way to combine codecs, so that a record restores if its fields do;
* `Codec.restores_list` : a list restores if its length fits eight bytes, which hold its count.
-/

namespace Vivarium

namespace Codec

/-- What the codec writes for `x` is read as `x`, whatever follows it. -/
def Restores {α : Type} (c : Codec α) (x : α) : Prop :=
  ∀ rest, c.decode (c.encode x ++ rest) = .ok (x, rest)

/-! ## Numbers -/

theorem ofBytes_toBytes (width n : Nat) (rest : List UInt8) :
    ofBytes width (toBytes width n ++ rest) = .ok (n % 256 ^ width, rest) := by
  induction width generalizing n with
  | zero => rw [Nat.pow_zero, Nat.mod_one]; rfl
  | succ width ih =>
    have hlow : (UInt8.ofNat n).toNat = n % 256 := UInt8.toNat_ofNat'
    have hsplit : n % 256 ^ (width + 1) = n % 256 + 256 * (n / 256 % 256 ^ width) := by
      rw [Nat.pow_succ', Nat.mod_mul]
    rw [toBytes, List.cons_append, ofBytes, ih]
    simp only [hlow, hsplit]

theorem restores_bits (width : Nat) (v : BitVec (8 * width)) : (bits width).Restores v := by
  intro rest
  have hfit : v.toNat % 256 ^ width = v.toNat := by
    apply Nat.mod_eq_of_lt
    rw [show 256 = 2 ^ 8 by rfl, ← Nat.pow_mul]
    exact v.isLt
  simp only [bits, ofBytes_toBytes, hfit, BitVec.ofNat_toNat, BitVec.setWidth_eq]

/-! ## Combinations -/

section
variable {α β : Type} {c : Codec α} {d : Codec β}

theorem restores_map {f : α → β} {g : β → α} {y : β} (h : c.Restores (g y)) (hfg : f (g y) = y) :
    (c.map f g).Restores y := by
  intro rest
  simp only [map, h rest, hfg]

theorem restores_pair {x : α} {y : β} (hx : c.Restores x) (hy : d.Restores y) :
    (c.pair d).Restores (x, y) := by
  intro rest
  simp only [pair, List.append_assoc, hx (d.encode y ++ rest), hy rest]

/-- A vector is read from its front, so the induction takes its last element off. -/
theorem restores_vector {n : Nat} {xs : Vector α n} (h : ∀ x ∈ xs, c.Restores x) :
    (c.vector n).Restores xs := by
  induction n with
  | zero =>
    intro rest
    have hnil : xs = #v[] := Vector.eq_empty
    rw [hnil]
    rfl
  | succ n ih =>
    intro rest
    obtain ⟨ys, y, rfl⟩ : ∃ ys y, xs = Vector.push ys y := ⟨_, _, (Vector.push_pop_back xs).symm⟩
    have hys := ih (fun x hx => h x (Vector.mem_push.mpr (Or.inl hx))) (c.encode y ++ rest)
    have hy := h y (Vector.mem_push.mpr (Or.inr rfl)) rest
    simp only [vector] at hys
    simp only [vector, Vector.toList_push, List.flatMap_append, List.flatMap_cons,
      List.flatMap_nil, List.append_nil, List.append_assoc, decodeVector, hys, hy]

theorem decodeList_flatMap {xs : List α} (h : ∀ x ∈ xs, c.Restores x) (rest : List UInt8) :
    decodeList c xs.length (xs.flatMap c.encode ++ rest) = .ok (xs, rest) := by
  induction xs with
  | nil => rfl
  | cons x xs ih =>
    have hx := h x List.mem_cons_self (xs.flatMap c.encode ++ rest)
    have hxs := ih fun y hy => h y (List.mem_cons_of_mem x hy)
    simp only [List.length_cons, List.flatMap_cons, List.append_assoc, decodeList, hx, hxs]

theorem restores_list {xs : List α} (hlen : xs.length < 2 ^ 64) (h : ∀ x ∈ xs, c.Restores x) :
    c.list.Restores xs := by
  intro rest
  have hcount := restores_bits 8 (BitVec.ofNat 64 xs.length) (xs.flatMap c.encode ++ rest)
  have hnat : (BitVec.ofNat 64 xs.length).toNat = xs.length := by
    rw [BitVec.toNat_ofNat, Nat.mod_eq_of_lt hlen]
  simp only [list, List.append_assoc]
  rw [hcount]
  simp only [hnat, decodeList_flatMap h]

theorem restores_option {x : Option α} (h : ∀ y ∈ x, c.Restores y) : c.option.Restores x := by
  intro rest
  cases x with
  | none => rfl
  | some y =>
    have hy := h y rfl rest
    simp only [option, List.cons_append, show (1 : UInt8) ≠ 0 by decide, if_false, if_true, hy]

end

theorem restores_bool (b : Bool) : bool.Restores b := by
  intro rest
  cases b <;> rfl

/-! ## Fixed-width integers -/

theorem restores_u16 (n : UInt16) : u16.Restores n := restores_map (restores_bits 2 _) rfl

theorem restores_u32 (n : UInt32) : u32.Restores n := restores_map (restores_bits 4 _) rfl

theorem restores_u64 (n : UInt64) : u64.Restores n := restores_map (restores_bits 8 _) rfl

end Codec

/-! ## Records -/

theorem Word.restores_codec (w : Word) : Word.codec.Restores w := Codec.restores_bits 4 w

theorem Hue.restores_codec (h : Hue) : Hue.codec.Restores h :=
  Codec.restores_map (Codec.restores_u16 _) rfl

theorem Binary64.restores_codec (x : Binary64) : Binary64.codec.Restores x :=
  Codec.restores_map (Codec.restores_bits 8 _) rfl

/-- Every field of an organism is restored, also a pointer outside the ring and an invalid hue. -/
theorem Organism.restores_codec (o : Organism) : Organism.codec.Restores o := by
  refine Codec.restores_map ?_ rfl
  refine Codec.restores_pair (Codec.restores_u64 _) ?_
  refine Codec.restores_pair (Codec.restores_vector fun w _ => Word.restores_codec w) ?_
  refine Codec.restores_pair (Codec.restores_bool _) ?_
  refine Codec.restores_pair (Codec.restores_u64 _) ?_
  exact Codec.restores_pair (Codec.restores_u32 _) (Hue.restores_codec _)

/-- The position is written in more bits than it has, so nothing of it is lost. -/
theorem Stream.restores_codec (s : Stream) : Stream.codec.Restores s := by
  refine Codec.restores_map ?_ ?_
  · refine Codec.restores_pair (Codec.restores_vector fun n _ => Codec.restores_u32 n) ?_
    exact Codec.restores_pair (Codec.restores_u64 _) (Codec.restores_bits 16 _)
  · simp [BitVec.setWidth_setWidth_of_le]

end Vivarium
