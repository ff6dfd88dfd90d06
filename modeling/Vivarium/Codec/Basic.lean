/-!
# Binary codecs

A codec writes a value as bytes and reads a value off the front of some bytes, handing on the rest.

* numbers have a fixed width and their low byte first (`Codec.bits`);
* pairs, vectors and images follow one another without separators (`pair`, `vector`, `map`);
* an optional value has a byte of zero or one in front, a list the number of its elements as eight
  bytes, a member of an enumeration is its place as four bytes (`option`, `list`, `oneOf`).

Whatever follows a value is left to the caller, so bytes after the last value do no harm.
-/

namespace Vivarium

/-- Why bytes are not those of a value. -/
inductive Codec.Error
  /-- A value does not end where the bytes do. -/
  | endOfInput
  /-- A truth value that is neither zero nor one. -/
  | badBool (found : UInt8)
  /-- A mark of presence that is neither zero nor one. -/
  | badPresence (found : UInt8)
  /-- A place beyond the last of an enumeration. -/
  | badVariant (found : UInt32) (count : Nat)
deriving DecidableEq, Repr

def Codec.Error.message : Codec.Error → String
  | endOfInput => "io error: unexpected end of file"
  | badBool n => "invalid u8 while decoding bool, expected 0 or 1, found " ++ toString n.toNat
  | badPresence n => "tag for enum is not valid, found " ++ toString n.toNat
  | badVariant n count =>
    "invalid value: integer `" ++ toString n.toNat ++ "`, expected variant index 0 <= i < "
      ++ toString count

/-- A way to write values of a type and to read them back. -/
structure Codec (α : Type) where
  encode : α → List UInt8
  decode : List UInt8 → Except Codec.Error (α × List UInt8)

namespace Codec

/-! ## Numbers -/

/-- The lowest `width` bytes of a number, low byte first. -/
def toBytes : Nat → Nat → List UInt8
  | 0, _ => []
  | width + 1, n => UInt8.ofNat n :: toBytes width (n / 256)

/-- The number in the first `width` bytes. -/
def ofBytes : Nat → List UInt8 → Except Error (Nat × List UInt8)
  | 0, bs => .ok (0, bs)
  | _ + 1, [] => .error .endOfInput
  | width + 1, b :: bs =>
    match ofBytes width bs with
    | .error e => .error e
    | .ok (n, rest) => .ok (b.toNat + 256 * n, rest)

def bits (width : Nat) : Codec (BitVec (8 * width)) where
  encode v := toBytes width v.toNat
  decode bs :=
    match ofBytes width bs with
    | .error e => .error e
    | .ok (n, rest) => .ok (BitVec.ofNat _ n, rest)

/-! ## Combinations -/

/-- The codec of an image: `g` leads back to what is written. -/
def map (c : Codec α) (f : α → β) (g : β → α) : Codec β where
  encode y := c.encode (g y)
  decode bs :=
    match c.decode bs with
    | .error e => .error e
    | .ok (x, rest) => .ok (f x, rest)

def pair (c : Codec α) (d : Codec β) : Codec (α × β) where
  encode p := c.encode p.1 ++ d.encode p.2
  decode bs :=
    match c.decode bs with
    | .error e => .error e
    | .ok (x, rest) =>
      match d.decode rest with
      | .error e => .error e
      | .ok (y, rest) => .ok ((x, y), rest)

def decodeVector (c : Codec α) : (n : Nat) → List UInt8 → Except Error (Vector α n × List UInt8)
  | 0, bs => .ok (#v[], bs)
  | n + 1, bs =>
    match decodeVector c n bs with
    | .error e => .error e
    | .ok (xs, rest) =>
      match c.decode rest with
      | .error e => .error e
      | .ok (x, rest) => .ok (xs.push x, rest)

def vector (c : Codec α) (n : Nat) : Codec (Vector α n) where
  encode xs := xs.toList.flatMap c.encode
  decode := decodeVector c n

def decodeList (c : Codec α) : Nat → List UInt8 → Except Error (List α × List UInt8)
  | 0, bs => .ok ([], bs)
  | n + 1, bs =>
    match c.decode bs with
    | .error e => .error e
    | .ok (x, rest) =>
      match decodeList c n rest with
      | .error e => .error e
      | .ok (xs, rest) => .ok (x :: xs, rest)

def list (c : Codec α) : Codec (List α) where
  encode xs := (bits 8).encode (BitVec.ofNat 64 xs.length) ++ xs.flatMap c.encode
  decode bs :=
    match (bits 8).decode bs with
    | .error e => .error e
    | .ok (n, rest) => decodeList c n.toNat rest

def option (c : Codec α) : Codec (Option α) where
  encode
    | none => [0]
    | some x => 1 :: c.encode x
  decode
    | [] => .error .endOfInput
    | b :: bs =>
      if b = 0 then .ok (none, bs)
      else if b = 1 then
        match c.decode bs with
        | .error e => .error e
        | .ok (x, rest) => .ok (some x, rest)
      else .error (.badPresence b)

def bool : Codec Bool where
  encode b := [if b then 1 else 0]
  decode
    | [] => .error .endOfInput
    | b :: bs =>
      if b = 0 then .ok (false, bs) else if b = 1 then .ok (true, bs) else .error (.badBool b)

/-- A member of a list without repetitions, as its place in it. -/
def oneOf [BEq α] (all : List α) : Codec α where
  encode x := (bits 4).encode (BitVec.ofNat 32 (all.idxOf x))
  decode bs :=
    match (bits 4).decode bs with
    | .error e => .error e
    | .ok (i, rest) =>
      match all[i.toNat]? with
      | some x => .ok (x, rest)
      | none => .error (.badVariant ⟨i⟩ all.length)

/-! ## Fixed-width integers -/

def u8 : Codec UInt8 := (bits 1).map UInt8.ofBitVec UInt8.toBitVec

def u16 : Codec UInt16 := (bits 2).map UInt16.ofBitVec UInt16.toBitVec

def u32 : Codec UInt32 := (bits 4).map UInt32.ofBitVec UInt32.toBitVec

def u64 : Codec UInt64 := (bits 8).map UInt64.ofBitVec UInt64.toBitVec

end Codec

end Vivarium
