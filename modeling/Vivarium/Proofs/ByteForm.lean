import Vivarium.Proofs.Framing
import Vivarium.Proofs.Resumption

/-!
# The bytes of a snapshot

* `Snapshot.toBytes_delimited` : a sound snapshot is read from its bytes whatever follows them, and
  from fewer of them nothing is read;
* `Snapshot.toBytesAt` : the bytes of a snapshot with other numbers in the place of its positions;
* `Snapshot.ofBytes_eq_ok_iff` : a snapshot is read from these alone, and only from those whose numbers
  have its positions as residues.
-/

namespace Vivarium

/-! ## Reading in a row -/

namespace Codec

section
variable {α β : Type} {f : Decoder α} {k : α → Decoder β}

theorem andThen_assoc {γ : Type} (f : Decoder α) (k : α → Decoder β) (l : β → Decoder γ) :
    (f.andThen k).andThen l = f.andThen fun x => (k x).andThen l := by
  funext bs
  unfold Decoder.andThen
  cases f bs <;> rfl

theorem ok_andThen (x : α) (k : α → Decoder β) :
    Decoder.andThen (fun bs => .ok (x, bs)) k = k x := rfl

/-- What is restored is read, and the reading goes on behind it. -/
theorem andThen_encode {c : Codec α} {x : α} (h : c.Restores x) (rest : List UInt8) :
    Decoder.andThen c.decode k (c.encode x ++ rest) = k x rest := by
  unfold Decoder.andThen
  rw [h rest]

/-- What has been read by a canonical codec is what is written for some value. -/
theorem exists_of_andThen {c : Codec α} (hc : c.Canonical) {bs : List UInt8} {r : β × List UInt8}
    (h : Decoder.andThen c.decode k bs = .ok r) :
    ∃ x rest, bs = c.encode x ++ rest ∧ k x rest = .ok r := by
  obtain ⟨x, rest, hx, hk⟩ := andThen_eq_ok_iff.mp h
  exact ⟨x, rest, hc _ _ _ hx, hk⟩

theorem exists_list_of_andThen {c : Codec α} {k : List α → Decoder β} (hc : c.Canonical)
    {bs : List UInt8} {r : β × List UInt8} (h : Decoder.andThen c.list.decode k bs = .ok r) :
    ∃ xs rest, xs.length < 2 ^ 64 ∧ bs = c.list.encode xs ++ rest ∧ k xs rest = .ok r := by
  obtain ⟨xs, rest, hxs, hk⟩ := andThen_eq_ok_iff.mp h
  obtain ⟨hlen, heq⟩ := list_of_decode hc hxs
  exact ⟨xs, rest, hlen, heq, hk⟩

end

theorem length_toBytes (width n : Nat) : (toBytes width n).length = width := by
  induction width generalizing n with
  | zero => rfl
  | succ width ih => rw [toBytes, List.length_cons, ih]

end Codec

open Codec

/-! ## Streams -/

namespace Stream

/-- What is written of a stream in front of its position. -/
def keyBytes (s : Stream) : List UInt8 := (u32.vector 8).encode s.key ++ u64.encode s.nonce

theorem length_keyBytes (s : Stream) : s.keyBytes.length = 40 := by
  have hword : ∀ n : UInt32, (u32.encode n).length = 4 := fun n => length_toBytes 4 _
  have hnonce : (u64.encode s.nonce).length = 8 := length_toBytes 8 _
  simp [keyBytes, vector, hword, hnonce]

theorem encode_codec (s : Stream) :
    codec.encode s = s.keyBytes ++ toBytes 16 s.position.toNat := by
  have hpos : (s.position.setWidth 128).toNat = s.position.toNat :=
    BitVec.toNat_setWidth_of_le (by decide)
  show (u32.vector 8).encode s.key ++
    (u64.encode s.nonce ++ toBytes 16 (s.position.setWidth 128).toNat) = _
  rw [hpos, keyBytes, List.append_assoc]

/-- Any number with the right residue is read as the position. -/
theorem decode_codec_eq_ok_iff {bs : List UInt8} {s : Stream} {rest : List UInt8} :
    codec.decode bs = .ok (s, rest) ↔ ∃ p : BitVec 128, p.setWidth 68 = s.position ∧
      bs = s.keyBytes ++ (toBytes 16 p.toNat ++ rest) := by
  simp only [codec, decode_map, decode_pair, andThen_assoc, ok_andThen]
  constructor
  · intro h
    obtain ⟨key, bs1, h1, h⟩ := exists_of_andThen (canonical_vector canonical_u32 8) h
    obtain ⟨nonce, bs2, h2, h⟩ := exists_of_andThen canonical_u64 h
    obtain ⟨p, bs3, h3, h⟩ := exists_of_andThen (canonical_bits 16) h
    cases h
    refine ⟨p, rfl, ?_⟩
    rw [h1, h2, h3, keyBytes, List.append_assoc]
    rfl
  · rintro ⟨p, hp, rfl⟩
    have hnumber : toBytes 16 p.toNat = (bits 16).encode p := rfl
    rw [keyBytes, List.append_assoc, hnumber,
      andThen_encode (restores_vector fun n _ => restores_u32 n), andThen_encode (restores_u64 _),
      andThen_encode (restores_bits 16 p), hp]

end Stream

/-! ## Snapshots -/

namespace Snapshot

/-- What is written of a snapshot in front of its streams. -/
def bodyBytes (s : Snapshot) : List UInt8 :=
  u32.encode s.version ++ (Word.codec.list.encode s.words ++ (Hue.codec.option.list.encode s.owners ++
    (Organism.codec.list.encode s.population ++ (u64.encode s.cycles ++ (u64.encode s.mutations ++
      (Binary64.codec.encode s.rate ++ (u64.encode s.maxAge ++ (u64.encode s.cap ++
        (u32.list.encode s.history ++ u64.encode s.historyCapacity)))))))))

theorem toBytes_eq (s : Snapshot) :
    s.toBytes = s.bodyBytes ++ (Stream.codec.encode s.stream ++ Stream.codec.encode s.lineage) := by
  simp only [bodyBytes, List.append_assoc]
  rfl

/-- The streams are read behind the rest, and there is no other way to have read the rest. -/
theorem decode_codec_eq_ok_iff {bs : List UInt8} {s : Snapshot} {rest : List UInt8} :
    codec.decode bs = .ok (s, rest) ↔ s.Countable ∧ ∃ mid last, bs = s.bodyBytes ++ mid ∧
      Stream.codec.decode mid = .ok (s.stream, last) ∧
      Stream.codec.decode last = .ok (s.lineage, rest) := by
  simp only [codec, decode_map, decode_pair, andThen_assoc, ok_andThen]
  constructor
  · intro h
    obtain ⟨version, bs1, h1, h⟩ := exists_of_andThen canonical_u32 h
    obtain ⟨words, bs2, hwords, h2, h⟩ := exists_list_of_andThen Word.canonical_codec h
    obtain ⟨owners, bs3, howners, h3, h⟩ :=
      exists_list_of_andThen (canonical_option Hue.canonical_codec) h
    obtain ⟨population, bs4, hpopulation, h4, h⟩ := exists_list_of_andThen Organism.canonical_codec h
    obtain ⟨cycles, bs5, h5, h⟩ := exists_of_andThen canonical_u64 h
    obtain ⟨mutations, bs6, h6, h⟩ := exists_of_andThen canonical_u64 h
    obtain ⟨rate, bs7, h7, h⟩ := exists_of_andThen Binary64.canonical_codec h
    obtain ⟨maxAge, bs8, h8, h⟩ := exists_of_andThen canonical_u64 h
    obtain ⟨cap, bs9, h9, h⟩ := exists_of_andThen canonical_u64 h
    obtain ⟨history, bs10, hhistory, h10, h⟩ := exists_list_of_andThen canonical_u32 h
    obtain ⟨historyCapacity, bs11, h11, h⟩ := exists_of_andThen canonical_u64 h
    obtain ⟨stream, mid, hstream, h⟩ := andThen_eq_ok_iff.mp h
    obtain ⟨lineage, last, hlineage, h⟩ := andThen_eq_ok_iff.mp h
    cases h
    refine ⟨⟨hwords, howners, hpopulation, hhistory⟩, bs11, mid, ?_, hstream, hlineage⟩
    simp only [h1, h2, h3, h4, h5, h6, h7, h8, h9, h10, h11, bodyBytes, List.append_assoc]
  · rintro ⟨hs, mid, last, rfl, hstream, hlineage⟩
    simp only [bodyBytes, List.append_assoc]
    rw [andThen_encode (restores_u32 _),
      andThen_encode (restores_list hs.words fun w _ => Word.restores_codec w),
      andThen_encode
        (restores_list hs.owners fun o _ => restores_option fun h _ => Hue.restores_codec h),
      andThen_encode (restores_list hs.population fun o _ => Organism.restores_codec o),
      andThen_encode (restores_u64 _), andThen_encode (restores_u64 _),
      andThen_encode (Binary64.restores_codec _), andThen_encode (restores_u64 _),
      andThen_encode (restores_u64 _),
      andThen_encode (restores_list hs.history fun n _ => restores_u32 n),
      andThen_encode (restores_u64 _)]
    exact andThen_eq_ok_iff.mpr ⟨_, _, hstream, andThen_eq_ok_iff.mpr ⟨_, _, hlineage, rfl⟩⟩

theorem ofBytes_eq_ok_iff_decode {bs : List UInt8} {s : Snapshot} :
    ofBytes bs = .ok s ↔ s.defect? = none ∧ ∃ rest, codec.decode bs = .ok (s, rest) := by
  unfold ofBytes
  cases codec.decode bs with
  | error e => simp
  | ok p =>
    obtain ⟨t, rest⟩ := p
    dsimp only
    cases ht : t.defect? with
    | some d =>
      refine iff_of_false (by simp) ?_
      rintro ⟨hs, rest', heq⟩
      cases heq
      rw [hs] at ht
      cases ht
    | none =>
      simp only [Except.ok.injEq, Prod.mk.injEq]
      constructor
      · rintro rfl
        exact ⟨ht, rest, rfl, rfl⟩
      · rintro ⟨-, -, heq, -⟩
        exact heq

theorem incremental_codec : Incremental codec.decode := by
  refine incremental_map ?_
  refine incremental_pair incremental_u32 ?_
  refine incremental_pair (incremental_list Word.incremental_codec) ?_
  refine incremental_pair (incremental_list (incremental_option Hue.incremental_codec)) ?_
  refine incremental_pair (incremental_list Organism.incremental_codec) ?_
  refine incremental_pair incremental_u64 ?_
  refine incremental_pair incremental_u64 ?_
  refine incremental_pair Binary64.incremental_codec ?_
  refine incremental_pair incremental_u64 ?_
  refine incremental_pair incremental_u64 ?_
  refine incremental_pair (incremental_list incremental_u32) ?_
  refine incremental_pair incremental_u64 ?_
  exact incremental_pair Stream.incremental_codec Stream.incremental_codec

/-- The bytes of a sound snapshot say themselves where they end: cut short anywhere they are too few
for any snapshot, and what follows them makes no difference. -/
theorem toBytes_delimited {s : Snapshot} (hs : s.defect? = none)
    (hn : s.population.length < 2 ^ 64) :
    (∀ p, p <+: s.toBytes → p ≠ s.toBytes → ofBytes p = .error (.malformed .endOfInput)) ∧
      ∀ rest, ofBytes (s.toBytes ++ rest) = .ok s := by
  have hsound := (defect?_eq_none_iff s).mp hs
  refine ⟨fun p hp hne => ?_, ofBytes_append hsound hn⟩
  have hall : codec.decode s.toBytes = .ok (s, []) := by
    rw [toBytes, ← List.append_nil (codec.encode s)]
    exact restores_codec (countable_of_sound hsound hn) []
  have hend := endOfInput_of_prefix incremental_codec hall hp hne
  rw [ofBytes, hend]

/-- A snapshot with a dead member in front of a living one, and with some history. -/
theorem toBytes_delimited_dead_member :
    let start := World.ofConfig ⟨.nan, 3, 2, 4, some 7⟩ 0
    let s := World.snapshot { start with
      population := #[(Organism.newborn 4095 9 ⟨359⟩).kill, .newborn 0 0 ⟨0⟩], history := [2, 1] }
    s.defect? = none ∧ s.population.length < 2 ^ 64 ∧
      (∀ p, p <+: s.toBytes → p ≠ s.toBytes → ofBytes p = .error (.malformed .endOfInput)) ∧
      ∀ rest, ofBytes (s.toBytes ++ rest) = .ok s := by
  intro start s
  have hstart : start.Sound := World.sound_ofConfig _ _
  have hs : s.defect? = none := by
    refine World.defect?_snapshot ⟨hstart.habitat, ?_, by decide, hstart.capacity, by decide⟩
    intro o ho
    rcases List.mem_pair.mp (Array.mem_toList_iff.mpr ho) with rfl | rfl
    · exact ⟨by decide, by decide⟩
    · exact ⟨by decide, by decide⟩
  have hn : s.population.length < 2 ^ 64 := by decide
  exact ⟨hs, hn, toBytes_delimited hs hn⟩

/-! ### Positions -/

/-- The bytes of a snapshot with other numbers in the place of its positions. The streams come last,
and each of them ends in the sixteen bytes of its position, behind forty others. -/
def toBytesAt (s : Snapshot) (p q : BitVec 128) : List UInt8 :=
  let bs := s.toBytes
  bs.take (bs.length - 72) ++ (Codec.toBytes 16 p.toNat ++
    ((bs.drop (bs.length - 56)).take 40 ++ Codec.toBytes 16 q.toNat))

theorem toBytes_eq_parts (s : Snapshot) : s.toBytes = (s.bodyBytes ++ s.stream.keyBytes) ++
    (Codec.toBytes 16 s.stream.position.toNat ++
      (s.lineage.keyBytes ++ Codec.toBytes 16 s.lineage.position.toNat)) := by
  rw [toBytes_eq, Stream.encode_codec, Stream.encode_codec]
  simp only [List.append_assoc]

theorem length_toBytes (s : Snapshot) :
    s.toBytes.length = (s.bodyBytes ++ s.stream.keyBytes).length + 72 := by
  rw [toBytes_eq_parts]
  simp only [List.length_append, Codec.length_toBytes, Stream.length_keyBytes]

theorem toBytesAt_eq (s : Snapshot) (p q : BitVec 128) :
    s.toBytesAt p q = (s.bodyBytes ++ s.stream.keyBytes) ++ (Codec.toBytes 16 p.toNat ++
      (s.lineage.keyBytes ++ Codec.toBytes 16 q.toNat)) := by
  have hfront : s.toBytes.take (s.toBytes.length - 72) = s.bodyBytes ++ s.stream.keyBytes := by
    rw [length_toBytes, Nat.add_sub_cancel, toBytes_eq_parts, List.take_left]
  have hback : s.toBytes.drop (s.toBytes.length - 56) =
      s.lineage.keyBytes ++ Codec.toBytes 16 s.lineage.position.toNat := by
    rw [length_toBytes, show ∀ n, n + 72 - 56 = n + 16 by omega, toBytes_eq_parts, ← List.drop_drop,
      List.drop_left, List.drop_left' (Codec.length_toBytes 16 _)]
  show _ ++ (_ ++ (_ ++ _)) = _
  rw [hfront, hback, List.take_left' s.lineage.length_keyBytes]

theorem length_toBytesAt (s : Snapshot) (p q : BitVec 128) :
    (s.toBytesAt p q).length = s.toBytes.length := by
  rw [toBytesAt_eq, length_toBytes]
  simp only [List.length_append, Codec.length_toBytes, Stream.length_keyBytes]

/-- Numbers less than the period are the positions themselves. -/
theorem toBytesAt_eq_toBytes {s : Snapshot} {p q : BitVec 128}
    (hp : p.setWidth 68 = s.stream.position) (hq : q.setWidth 68 = s.lineage.position)
    (hp' : p.toNat < 2 ^ 68) (hq' : q.toNat < 2 ^ 68) :
    s.toBytesAt p q = s.toBytes := by
  rw [toBytesAt_eq, toBytes_eq_parts, ← hp, ← hq, BitVec.toNat_setWidth, BitVec.toNat_setWidth,
    Nat.mod_eq_of_lt hp', Nat.mod_eq_of_lt hq']

/-- What is read as a snapshot are its bytes, with any numbers that have its positions as residues. -/
theorem decode_codec_eq_ok_iff_toBytesAt {bs : List UInt8} {s : Snapshot} {rest : List UInt8} :
    codec.decode bs = .ok (s, rest) ↔ s.Countable ∧ ∃ p q : BitVec 128,
      p.setWidth 68 = s.stream.position ∧ q.setWidth 68 = s.lineage.position ∧
        bs = s.toBytesAt p q ++ rest := by
  rw [decode_codec_eq_ok_iff]
  simp only [Stream.decode_codec_eq_ok_iff, toBytesAt_eq, List.append_assoc]
  refine and_congr_right fun _ => ?_
  constructor
  · rintro ⟨mid, last, rfl, ⟨p, hp, rfl⟩, q, hq, rfl⟩
    exact ⟨p, q, hp, hq, rfl⟩
  · rintro ⟨p, q, hp, hq, rfl⟩
    exact ⟨_, _, rfl, ⟨p, hp, rfl⟩, q, hq, rfl⟩

/-- A snapshot is read from exactly those bytes that begin as the bytes of the snapshot do, but for
numbers in the place of its positions that have these as their residues; it is sound then. If the
numbers are less than the period, the bytes begin as what is written for the snapshot. -/
theorem ofBytes_eq_ok_iff (bs : List UInt8) (s : Snapshot) :
    ofBytes bs = .ok s ↔ s.defect? = none ∧ s.population.length < 2 ^ 64 ∧
      ∃ p q : BitVec 128, p.setWidth 68 = s.stream.position ∧ q.setWidth 68 = s.lineage.position ∧
        bs.take s.toBytes.length = s.toBytesAt p q ∧
        (p.toNat < 2 ^ 68 → q.toNat < 2 ^ 68 → bs.take s.toBytes.length = s.toBytes) := by
  rw [ofBytes_eq_ok_iff_decode]
  simp only [decode_codec_eq_ok_iff_toBytesAt]
  refine and_congr_right fun hs => ?_
  constructor
  · rintro ⟨rest, hcount, p, q, hp, hq, rfl⟩
    have htake : (s.toBytesAt p q ++ rest).take s.toBytes.length = s.toBytesAt p q :=
      List.take_left' (s.length_toBytesAt p q)
    exact ⟨hcount.population, p, q, hp, hq, htake, fun hp' hq' =>
      htake.trans (toBytesAt_eq_toBytes hp hq hp' hq')⟩
  · rintro ⟨hn, p, q, hp, hq, htake, -⟩
    have hcount := countable_of_sound ((defect?_eq_none_iff s).mp hs) hn
    exact ⟨bs.drop s.toBytes.length, hcount, p, q, hp, hq, by rw [← htake, List.take_append_drop]⟩

end Snapshot

end Vivarium
