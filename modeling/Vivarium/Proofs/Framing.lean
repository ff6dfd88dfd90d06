import Vivarium.Proofs.Codec

/-!
# Where a value ends

Nothing separates the values in a byte string, so each decoder has to find the end of its own.

* `Codec.Decoder.andThen` : one decoder after another, as which all the others are put together;
* `Codec.Incremental` : what follows the bytes makes no difference to a decoder that had enough of them;
* `Codec.endOfInput_of_prefix` : bytes of a value that are cut short are too few for any value;
* `Codec.Canonical` : a value is read off the bytes that are written for it and no others.
-/

namespace Vivarium

namespace Codec

/-- What reads a value off the front of some bytes. -/
abbrev Decoder (α : Type) := List UInt8 → Except Error (α × List UInt8)

/-- Reads a value and then, depending on it, another one. -/
def Decoder.andThen {α β : Type} (f : Decoder α) (k : α → Decoder β) : Decoder β := fun bs =>
  match f bs with
  | .error e => .error e
  | .ok (x, rest) => k x rest

/-- Bytes that follow are handed on and change nothing, unless there were too few before. -/
def Incremental {α : Type} (f : Decoder α) : Prop :=
  ∀ bs more, f bs = .error .endOfInput ∨
    f (bs ++ more) = (f bs).map fun (x, rest) => (x, rest ++ more)

/-- The bytes that are read as `x` are those that are written for `x`. -/
def Canonical {α : Type} (c : Codec α) : Prop :=
  ∀ bs x rest, c.decode bs = .ok (x, rest) → bs = c.encode x ++ rest

/-! ## One decoder after another -/

section
variable {α β : Type} {f : Decoder α} {k : α → Decoder β}

theorem andThen_eq_ok_iff {bs : List UInt8} {y : β} {rest : List UInt8} :
    f.andThen k bs = .ok (y, rest) ↔ ∃ x mid, f bs = .ok (x, mid) ∧ k x mid = .ok (y, rest) := by
  unfold Decoder.andThen
  cases f bs with
  | error e => simp
  | ok p => simp [Prod.ext_iff]

theorem incremental_andThen (hf : Incremental f) (hk : ∀ x, Incremental (k x)) :
    Incremental (f.andThen k) := by
  intro bs more
  unfold Decoder.andThen
  rcases hf bs more with hend | hmore
  · rw [hend]
    exact Or.inl rfl
  · rw [hmore]
    cases f bs with
    | error e => exact Or.inr rfl
    | ok p => exact hk p.1 p.2 more

theorem incremental_ok (x : α) : Incremental fun bs => .ok (x, bs) := fun _ _ => Or.inr rfl

theorem incremental_error (e : Error) : Incremental fun _ => (.error e : Except Error (α × _)) :=
  fun _ _ => Or.inr rfl

/-- A decoder that looks at one byte first. -/
theorem incremental_of_cons (hnil : f [] = .error .endOfInput)
    (hcons : ∀ b, Incremental fun bs => f (b :: bs)) : Incremental f := by
  intro bs more
  cases bs with
  | nil => exact Or.inl hnil
  | cons b bs => exact hcons b bs more

/-- If a value takes up all of some bytes, no value is read from fewer of them. -/
theorem endOfInput_of_prefix (hf : Incremental f) {bs p : List UInt8} {x : α}
    (h : f bs = .ok (x, [])) (hp : p <+: bs) (hne : p ≠ bs) : f p = .error .endOfInput := by
  obtain ⟨more, rfl⟩ := hp
  rcases hf p more with hend | hmore
  · exact hend
  · exfalso
    rw [h] at hmore
    cases hread : f p with
    | error e =>
      rw [hread] at hmore
      cases hmore
    | ok y =>
      rw [hread] at hmore
      have hrest : [] = y.2 ++ more := congrArg Prod.snd (Except.ok.inj hmore)
      have hmore : more = [] := (List.append_eq_nil_iff.mp hrest.symm).2
      rw [hmore, List.append_nil] at hne
      exact hne rfl

end

/-! ## Numbers -/

theorem ofBytes_cons (width : Nat) (b : UInt8) : (fun bs => ofBytes (width + 1) (b :: bs)) =
    Decoder.andThen (ofBytes width) fun n bs => .ok (b.toNat + 256 * n, bs) := by
  funext bs
  rw [ofBytes]
  unfold Decoder.andThen
  cases ofBytes width bs <;> rfl

theorem decode_bits (width : Nat) : (bits width).decode =
    Decoder.andThen (ofBytes width) fun n bs => .ok (BitVec.ofNat _ n, bs) := by
  funext bs
  dsimp only [bits, Decoder.andThen]
  cases ofBytes width bs <;> rfl

theorem incremental_ofBytes (width : Nat) : Incremental (ofBytes width) := by
  induction width with
  | zero => exact incremental_ok 0
  | succ width ih =>
    refine incremental_of_cons rfl fun b => ?_
    rw [ofBytes_cons]
    exact incremental_andThen ih fun n => incremental_ok _

theorem incremental_bits (width : Nat) : Incremental (bits width).decode := by
  rw [decode_bits]
  exact incremental_andThen (incremental_ofBytes width) fun n => incremental_ok _

/-- The number that is read from some bytes fits into as many, and these are its bytes. -/
theorem toBytes_of_ofBytes {width n : Nat} {bs rest : List UInt8}
    (h : ofBytes width bs = .ok (n, rest)) : n < 256 ^ width ∧ bs = toBytes width n ++ rest := by
  induction width generalizing bs n with
  | zero =>
    cases h
    exact ⟨Nat.one_pos, rfl⟩
  | succ width ih =>
    cases bs with
    | nil => cases h
    | cons b bs =>
      rw [show ofBytes (width + 1) (b :: bs) = _ from congrFun (ofBytes_cons width b) bs,
        andThen_eq_ok_iff] at h
      obtain ⟨m, mid, hm, heq⟩ := h
      cases heq
      obtain ⟨hlt, rfl⟩ := ih hm
      have hb := b.toNat_lt
      have hlow : UInt8.ofNat (b.toNat + 256 * m) = b := by
        rw [← UInt8.toNat_inj, UInt8.toNat_ofNat']
        omega
      have hhigh : (b.toNat + 256 * m) / 256 = m := by omega
      refine ⟨?_, ?_⟩
      · rw [Nat.pow_succ]
        omega
      · rw [toBytes, hlow, hhigh, List.cons_append]

theorem canonical_bits (width : Nat) : (bits width).Canonical := by
  intro bs v rest h
  rw [decode_bits, andThen_eq_ok_iff] at h
  obtain ⟨n, mid, hn, heq⟩ := h
  cases heq
  obtain ⟨hlt, rfl⟩ := toBytes_of_ofBytes hn
  have hfit : n < 2 ^ (8 * width) := by
    rwa [Nat.pow_mul]
  show _ = toBytes width (BitVec.ofNat _ n).toNat ++ rest
  rw [BitVec.toNat_ofNat, Nat.mod_eq_of_lt hfit]

/-! ## Combinations -/

section
variable {α β : Type} {c : Codec α} {d : Codec β}

theorem decode_map (c : Codec α) (f : α → β) (g : β → α) : (c.map f g).decode =
    Decoder.andThen c.decode fun x bs => .ok (f x, bs) := rfl

theorem decode_pair (c : Codec α) (d : Codec β) : (c.pair d).decode =
    Decoder.andThen c.decode fun x => Decoder.andThen d.decode fun y bs => .ok ((x, y), bs) := rfl

theorem decodeVector_succ (c : Codec α) (n : Nat) : decodeVector c (n + 1) =
    Decoder.andThen (decodeVector c n) fun xs => Decoder.andThen c.decode fun x bs =>
      .ok (xs.push x, bs) := by
  funext bs
  rw [decodeVector]
  unfold Decoder.andThen
  cases decodeVector c n bs with
  | error e => rfl
  | ok p => cases c.decode p.2 <;> rfl

theorem decodeList_succ (c : Codec α) (n : Nat) : decodeList c (n + 1) =
    Decoder.andThen c.decode fun x => Decoder.andThen (decodeList c n) fun xs bs =>
      .ok (x :: xs, bs) := by
  funext bs
  rw [decodeList]
  unfold Decoder.andThen
  cases c.decode bs with
  | error e => rfl
  | ok p =>
    dsimp only
    cases decodeList c n p.2 <;> rfl

theorem decode_list (c : Codec α) : c.list.decode =
    Decoder.andThen (bits 8).decode fun n => decodeList c n.toNat := by
  funext bs
  dsimp only [list, Decoder.andThen]
  cases (bits 8).decode bs <;> rfl

theorem decode_option_cons (c : Codec α) (b : UInt8) : (fun bs => c.option.decode (b :: bs)) =
    if b = 0 then fun bs => .ok (none, bs)
    else if b = 1 then Decoder.andThen c.decode fun x bs => .ok (some x, bs)
    else fun _ => .error (.badPresence b) := by
  funext bs
  dsimp only [option, Decoder.andThen]
  split_ifs <;> rfl

/-! ### Reading on -/

theorem incremental_map {f : α → β} {g : β → α} (hc : Incremental c.decode) :
    Incremental (c.map f g).decode := by
  rw [decode_map]
  exact incremental_andThen hc fun x => incremental_ok _

theorem incremental_pair (hc : Incremental c.decode) (hd : Incremental d.decode) :
    Incremental (c.pair d).decode := by
  rw [decode_pair]
  exact incremental_andThen hc fun x => incremental_andThen hd fun y => incremental_ok _

theorem incremental_vector (hc : Incremental c.decode) (n : Nat) :
    Incremental (c.vector n).decode := by
  show Incremental (decodeVector c n)
  induction n with
  | zero => exact incremental_ok _
  | succ n ih =>
    rw [decodeVector_succ]
    exact incremental_andThen ih fun xs => incremental_andThen hc fun x => incremental_ok _

theorem incremental_decodeList (hc : Incremental c.decode) (n : Nat) :
    Incremental (decodeList c n) := by
  induction n with
  | zero => exact incremental_ok _
  | succ n ih =>
    rw [decodeList_succ]
    exact incremental_andThen hc fun x => incremental_andThen ih fun xs => incremental_ok _

theorem incremental_list (hc : Incremental c.decode) : Incremental c.list.decode := by
  rw [decode_list]
  exact incremental_andThen (incremental_bits 8) fun n => incremental_decodeList hc _

theorem incremental_option (hc : Incremental c.decode) : Incremental c.option.decode := by
  refine incremental_of_cons rfl fun b => ?_
  rw [decode_option_cons]
  split_ifs
  · exact incremental_ok _
  · exact incremental_andThen hc fun x => incremental_ok _
  · exact incremental_error _

theorem incremental_bool : Incremental bool.decode := by
  refine incremental_of_cons rfl fun b => ?_
  dsimp only [bool]
  split_ifs
  · exact incremental_ok _
  · exact incremental_ok _
  · exact incremental_error _

/-! ### The only bytes -/

theorem decode_pair_eq_ok_iff {bs : List UInt8} {x : α} {y : β} {rest : List UInt8} :
    (c.pair d).decode bs = .ok ((x, y), rest) ↔
      ∃ mid, c.decode bs = .ok (x, mid) ∧ d.decode mid = .ok (y, rest) := by
  simp only [decode_pair, andThen_eq_ok_iff, Except.ok.injEq, Prod.mk.injEq]
  constructor
  · rintro ⟨x, mid, hx, y, last, hy, ⟨rfl, rfl⟩, rfl⟩
    exact ⟨mid, hx, hy⟩
  · rintro ⟨mid, hx, hy⟩
    exact ⟨x, mid, hx, y, rest, hy, ⟨rfl, rfl⟩, rfl⟩

theorem canonical_map {f : α → β} {g : β → α} (hc : c.Canonical) (hgf : ∀ x, g (f x) = x) :
    (c.map f g).Canonical := by
  intro bs y rest h
  rw [decode_map, andThen_eq_ok_iff] at h
  obtain ⟨x, mid, hx, heq⟩ := h
  cases heq
  show _ = c.encode (g (f x)) ++ rest
  rw [hc _ _ _ hx, hgf]

theorem canonical_pair (hc : c.Canonical) (hd : d.Canonical) : (c.pair d).Canonical := by
  rintro bs ⟨x, y⟩ rest h
  obtain ⟨mid, hx, hy⟩ := decode_pair_eq_ok_iff.mp h
  rw [hc _ _ _ hx, hd _ _ _ hy, pair, List.append_assoc]

theorem canonical_vector (hc : c.Canonical) (n : Nat) : (c.vector n).Canonical := by
  intro bs xs rest h
  rw [vector] at h
  dsimp only at h
  induction n generalizing rest with
  | zero =>
    cases h
    rfl
  | succ n ih =>
    rw [decodeVector_succ, andThen_eq_ok_iff] at h
    obtain ⟨ys, mid, hys, h⟩ := h
    obtain ⟨y, last, hy, heq⟩ := andThen_eq_ok_iff.mp h
    cases heq
    rw [ih _ _ hys, hc _ _ _ hy]
    simp only [vector, Vector.toList_push, List.flatMap_append, List.flatMap_cons,
      List.flatMap_nil, List.append_nil, List.append_assoc]

theorem flatMap_of_decodeList (hc : c.Canonical) {n : Nat} {bs : List UInt8} {xs : List α}
    {rest : List UInt8} (h : decodeList c n bs = .ok (xs, rest)) :
    xs.length = n ∧ bs = xs.flatMap c.encode ++ rest := by
  induction n generalizing bs xs with
  | zero =>
    cases h
    exact ⟨rfl, rfl⟩
  | succ n ih =>
    rw [decodeList_succ, andThen_eq_ok_iff] at h
    obtain ⟨x, mid, hx, h⟩ := h
    obtain ⟨ys, last, hys, heq⟩ := andThen_eq_ok_iff.mp h
    cases heq
    obtain ⟨hlen, rfl⟩ := ih hys
    refine ⟨by rw [List.length_cons, hlen], ?_⟩
    rw [hc _ _ _ hx, List.flatMap_cons, List.append_assoc]

/-- A list that is read is short enough to be counted in eight bytes. -/
theorem list_of_decode (hc : c.Canonical) {bs : List UInt8} {xs : List α} {rest : List UInt8}
    (h : c.list.decode bs = .ok (xs, rest)) :
    xs.length < 2 ^ 64 ∧ bs = c.list.encode xs ++ rest := by
  rw [decode_list, andThen_eq_ok_iff] at h
  obtain ⟨n, mid, hn, h⟩ := h
  obtain ⟨hlen, rfl⟩ := flatMap_of_decodeList hc h
  have hcount : BitVec.ofNat 64 xs.length = n := by
    rw [hlen, BitVec.ofNat_toNat, BitVec.setWidth_eq]
  refine ⟨?_, ?_⟩
  · rw [hlen]
    exact n.isLt
  · rw [canonical_bits _ _ _ _ hn, list]
    dsimp only
    rw [hcount, List.append_assoc]

theorem canonical_option (hc : c.Canonical) : c.option.Canonical := by
  intro bs x rest h
  cases bs with
  | nil => cases h
  | cons b bs =>
    rw [show c.option.decode (b :: bs) = _ from congrFun (decode_option_cons c b) bs] at h
    split_ifs at h with h0 h1
    · cases h
      rw [h0]
      rfl
    · obtain ⟨y, mid, hy, heq⟩ := andThen_eq_ok_iff.mp h
      cases heq
      rw [h1, hc _ _ _ hy]
      rfl

end

theorem canonical_bool : bool.Canonical := by
  intro bs x rest h
  cases bs with
  | nil => cases h
  | cons b bs =>
    dsimp only [bool] at h
    split_ifs at h with h0 h1
    · cases h
      rw [h0]
      rfl
    · cases h
      rw [h1]
      rfl

/-! ## Fixed-width integers -/

theorem incremental_u16 : Incremental u16.decode := incremental_map (incremental_bits 2)

theorem incremental_u32 : Incremental u32.decode := incremental_map (incremental_bits 4)

theorem incremental_u64 : Incremental u64.decode := incremental_map (incremental_bits 8)

theorem canonical_u16 : u16.Canonical := canonical_map (canonical_bits 2) fun _ => rfl

theorem canonical_u32 : u32.Canonical := canonical_map (canonical_bits 4) fun _ => rfl

theorem canonical_u64 : u64.Canonical := canonical_map (canonical_bits 8) fun _ => rfl

end Codec

/-! ## Records -/

open Codec

theorem Word.incremental_codec : Incremental Word.codec.decode := incremental_bits 4

theorem Word.canonical_codec : Word.codec.Canonical := canonical_bits 4

theorem Hue.incremental_codec : Incremental Hue.codec.decode := incremental_map incremental_u16

theorem Hue.canonical_codec : Hue.codec.Canonical := canonical_map canonical_u16 fun _ => rfl

theorem Binary64.incremental_codec : Incremental Binary64.codec.decode :=
  incremental_map (incremental_bits 8)

theorem Binary64.canonical_codec : Binary64.codec.Canonical :=
  canonical_map (canonical_bits 8) fun _ => rfl

theorem Organism.incremental_codec : Incremental Organism.codec.decode := by
  refine incremental_map ?_
  refine incremental_pair incremental_u64 ?_
  refine incremental_pair (incremental_vector Word.incremental_codec _) ?_
  refine incremental_pair incremental_bool ?_
  refine incremental_pair incremental_u64 ?_
  exact incremental_pair incremental_u32 Hue.incremental_codec

theorem Organism.canonical_codec : Organism.codec.Canonical := by
  refine canonical_map ?_ fun _ => rfl
  refine canonical_pair canonical_u64 ?_
  refine canonical_pair (canonical_vector Word.canonical_codec _) ?_
  refine canonical_pair canonical_bool ?_
  refine canonical_pair canonical_u64 ?_
  exact canonical_pair canonical_u32 Hue.canonical_codec

theorem Stream.incremental_codec : Incremental Stream.codec.decode := by
  refine incremental_map ?_
  refine incremental_pair (incremental_vector incremental_u32 _) ?_
  exact incremental_pair incremental_u64 (incremental_bits 16)

end Vivarium
