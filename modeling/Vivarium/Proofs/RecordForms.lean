import Vivarium.Proofs.Framing

/-!
# Binary forms of single values

A snapshot is put together from values that have a binary form of their own. Each of these forms is exact:
it is read back whatever follows it, nothing is read of it when its end is missing, and there are no other
bytes for the value.

* `Codec.Exact`, with a lemma for each way to put codecs together;
* `Codec.exact_oneOf` : members of an enumeration, as their place in it;
* `Codec.records_exact` : the forms of the domain's types, and the places of opcodes and modes, which are
  not to be confused with their bits in a word.
-/

namespace Vivarium

namespace Codec

/-- Every value is restored, whatever its fields are. What is written for it is too short if any of its
bytes is missing at the end, and a value is read off no other bytes than these. -/
structure Exact {α : Type} (c : Codec α) : Prop where
  restores : ∀ x, c.Restores x
  cut : ∀ x bs, bs <+: c.encode x → bs ≠ c.encode x → c.decode bs = .error .endOfInput
  canonical : c.Canonical

section
variable {α β : Type} {c : Codec α} {d : Codec β}

theorem exact_of_incremental (hrestores : ∀ x, c.Restores x) (hincremental : Incremental c.decode)
    (hcanonical : c.Canonical) : c.Exact where
  restores := hrestores
  cut x bs hprefix hne := by
    have hread := hrestores x []
    rw [List.append_nil] at hread
    exact endOfInput_of_prefix hincremental hread hprefix hne
  canonical := hcanonical

theorem exact_bits (width : Nat) : (bits width).Exact :=
  exact_of_incremental (restores_bits width) (incremental_bits width) (canonical_bits width)

theorem Exact.map {f : α → β} {g : β → α} (hc : c.Exact) (hfg : ∀ y, f (g y) = y)
    (hgf : ∀ x, g (f x) = x) : (c.map f g).Exact where
  restores y := restores_map (hc.restores _) (hfg y)
  cut y bs hprefix hne := by
    have hshort := hc.cut (g y) bs hprefix hne
    simp only [Codec.map, hshort]
  canonical := canonical_map hc.canonical hgf

/-- If something is missing from a pair, it is the end of the second value, or all of it and perhaps the end
of the first. -/
theorem Exact.pair (hc : c.Exact) (hd : d.Exact) : (c.pair d).Exact where
  restores := fun (x, y) => restores_pair (hc.restores x) (hd.restores y)
  cut := by
    rintro ⟨x, y⟩ bs hprefix hne
    by_cases hfirst : c.encode x <+: bs
    · obtain ⟨rest, rfl⟩ := hfirst
      have hrest : rest <+: d.encode y := (List.prefix_append_right_inj _).mp hprefix
      have hshort := hd.cut y rest hrest fun h => hne (congrArg _ h)
      simp only [Codec.pair, hc.restores x rest, hshort]
    · have hcut : bs <+: c.encode x :=
        (List.prefix_or_prefix_of_prefix hprefix (List.prefix_append _ _)).resolve_right hfirst
      have hshort := hc.cut x bs hcut fun h => hfirst (h ▸ List.prefix_rfl)
      simp only [Codec.pair, hshort]
  canonical := canonical_pair hc.canonical hd.canonical

/-! ## Enumerations -/

theorem decode_oneOf_of_some [BEq α] {all : List α} {i : BitVec 32} {x : α}
    (h : all[i.toNat]? = some x) (bs : List UInt8) :
    (oneOf all).decode ((bits 4).encode i ++ bs) = .ok (x, bs) := by
  simp only [oneOf, restores_bits 4 i bs, h]

theorem decode_oneOf_of_none [BEq α] {all : List α} {i : BitVec 32}
    (h : all[i.toNat]? = none) (bs : List UInt8) :
    (oneOf all).decode ((bits 4).encode i ++ bs) = .error (.badVariant ⟨i⟩ all.length) := by
  simp only [oneOf, restores_bits 4 i bs, h]

/-- The place of a member is that of no other, so the member has no other form. -/
theorem exact_oneOf [BEq α] [LawfulBEq α] {all : List α} (hnodup : all.Nodup) (hall : ∀ x, x ∈ all)
    (hlen : all.length ≤ 2 ^ 32) : (oneOf all).Exact where
  restores x bs := by
    have hplace : (BitVec.ofNat 32 (all.idxOf x)).toNat = all.idxOf x := by
      have hlt := List.idxOf_lt_length_of_mem (hall x)
      rw [BitVec.toNat_ofNat, Nat.mod_eq_of_lt (by omega)]
    refine decode_oneOf_of_some ?_ bs
    rw [hplace, List.getElem?_idxOf (hall x)]
  cut x bs hprefix hne := by
    have hshort := (exact_bits 4).cut _ bs hprefix hne
    simp only [oneOf, hshort]
  canonical bs x rest h := by
    cases hplace : (bits 4).decode bs with
    | error e =>
      simp only [oneOf, hplace] at h
      cases h
    | ok p =>
      obtain ⟨i, mid⟩ := p
      obtain rfl := canonical_bits 4 bs i mid hplace
      cases hx : all[i.toNat]? with
      | none =>
        rw [decode_oneOf_of_none hx] at h
        cases h
      | some y =>
        rw [decode_oneOf_of_some hx] at h
        cases h
        obtain ⟨hlt, rfl⟩ := List.getElem?_eq_some_iff.mp hx
        have hindex : all.idxOf all[i.toNat] = i.toNat := hnodup.idxOf_getElem _ hlt
        show _ = (bits 4).encode (BitVec.ofNat 32 (all.idxOf all[i.toNat])) ++ rest
        rw [hindex, BitVec.ofNat_toNat, BitVec.setWidth_eq]

end

/-! ## Records -/

theorem exact_u8 : u8.Exact := (exact_bits 1).map (fun _ => rfl) fun _ => rfl

theorem exact_u64 : u64.Exact := (exact_bits 8).map (fun _ => rfl) fun _ => rfl

end Codec

open Codec

theorem Opcode.exact_codec : Opcode.codec.Exact := exact_oneOf (by decide) mem_all (by decide)

theorem Mode.exact_codec : Mode.codec.Exact := exact_oneOf (by decide) mem_all (by decide)

theorem Operand.exact_codec : Operand.codec.Exact :=
  (Mode.exact_codec.pair (exact_bits 4)).map (fun _ => rfl) fun _ => rfl

theorem Instruction.exact_codec : Instruction.codec.Exact :=
  (exact_u8.pair (Operand.exact_codec.pair Operand.exact_codec)).map (fun _ => rfl) fun _ => rfl

theorem Hue.exact_codec : Hue.codec.Exact :=
  exact_of_incremental Hue.restores_codec Hue.incremental_codec Hue.canonical_codec

theorem Organism.exact_codec : Organism.codec.Exact :=
  exact_of_incremental Organism.restores_codec Organism.incremental_codec Organism.canonical_codec

theorem Settings.exact_codec : Settings.codec.Exact :=
  (((exact_bits 8).map (fun _ => rfl) fun _ => rfl).pair exact_u64).map (fun _ => rfl) fun _ => rfl

namespace Codec

/-- The forms of the domain's types are exact, also for a code that is no opcode's, a hue or a pointer out of
range and a rate that is no probability. An opcode is written as its place, which for the last two is not
the code that stands in a word, and a mode is written as its bits; no other places are read. -/
theorem records_exact :
    (Opcode.codec.Exact ∧ Mode.codec.Exact ∧ Operand.codec.Exact ∧ Instruction.codec.Exact ∧
      Hue.codec.Exact ∧ Organism.codec.Exact ∧ Settings.codec.Exact) ∧
    (∀ op : Opcode, Opcode.codec.encode op =
      [if op = .addf then 12 else if op = .die then 13 else op.code, 0, 0, 0]) ∧
    (∀ m : Mode, Mode.codec.encode m = [⟨m.toBits.setWidth 8⟩, 0, 0, 0]) ∧
    (∀ (n : UInt32) bs, 14 ≤ n.toNat →
      Opcode.codec.decode (u32.encode n ++ bs) = .error (.badVariant n 14)) ∧
    ∀ (n : UInt32) bs, 4 ≤ n.toNat →
      Mode.codec.decode (u32.encode n ++ bs) = .error (.badVariant n 4) := by
  refine ⟨⟨Opcode.exact_codec, Mode.exact_codec, Operand.exact_codec, Instruction.exact_codec,
    Hue.exact_codec, Organism.exact_codec, Settings.exact_codec⟩, fun op => ?_, fun m => ?_,
    fun n bs hn => ?_, fun n bs hn => ?_⟩
  · cases op <;> rfl
  · cases m <;> rfl
  · have hnone : Opcode.all[n.toNat]? = none := List.getElem?_eq_none hn
    exact decode_oneOf_of_none hnone bs
  · have hnone : Mode.all[n.toNat]? = none := List.getElem?_eq_none hn
    exact decode_oneOf_of_none hnone bs

/-- A code that is no opcode's, and the code of the last but one opcode where a place belongs. -/
theorem records_exact_no_opcode :
    let i : Instruction := ⟨200, ⟨.indirect, -1⟩, ⟨.register, 5⟩⟩
    Instruction.codec.decode (Instruction.codec.encode i ++ [7]) = .ok (i, [7]) ∧
    Instruction.codec.decode ((Instruction.codec.encode i).take 16) = .error .endOfInput ∧
    Opcode.codec.encode .addf = [12, 0, 0, 0] ∧ 14 ≤ UInt32.toNat 14 ∧
    Opcode.codec.decode [14, 0, 0, 0] = .error (.badVariant 14 14) ∧
    4 ≤ UInt32.toNat 4 ∧ Mode.codec.decode [4, 0, 0, 0, 7] = .error (.badVariant 4 4) := by
  intro i
  obtain ⟨⟨-, -, -, hinstruction, -⟩, hopcode, -, hnoOpcode, hnoMode⟩ := records_exact
  refine ⟨hinstruction.restores i [7], hinstruction.cut i _ (List.take_prefix _ _) (by decide),
    hopcode .addf, by decide, hnoOpcode 14 [] (by decide), by decide, hnoMode 4 [7] (by decide)⟩

end Codec

end Vivarium
