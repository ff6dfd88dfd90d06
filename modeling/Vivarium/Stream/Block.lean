/-!
# ChaCha8 blocks

A block is sixteen words, computed from a key of eight words, a nonce and a counter. The state is
kept as a four by four matrix of rows, so that one step on rows works on all columns at once.

* `Block.chacha8` : four double rounds of the initial matrix, added to that matrix;
* `Block.word` : the words in row order.
-/

namespace Vivarium

/-- Four words of a matrix. -/
structure Row where
  w0 : UInt32
  w1 : UInt32
  w2 : UInt32
  w3 : UInt32
deriving DecidableEq, Repr

namespace Row

@[inline] def map2 (f : UInt32 → UInt32 → UInt32) (x y : Row) : Row :=
  ⟨f x.w0 y.w0, f x.w1 y.w1, f x.w2 y.w2, f x.w3 y.w3⟩

@[inline] def add (x y : Row) : Row := map2 (· + ·) x y

/-- The bitwise difference of two rows, each word turned left by `k` bits. -/
@[inline] def mix (k : UInt32) (x y : Row) : Row :=
  map2 (fun a b => let c := a ^^^ b; (c <<< k) ||| (c >>> (32 - k))) x y

/-- The row moved one place to the left, round the row. -/
@[inline] def shift (x : Row) : Row := ⟨x.w1, x.w2, x.w3, x.w0⟩

def word (x : Row) (i : Nat) : UInt32 :=
  match i with
  | 0 => x.w0
  | 1 => x.w1
  | 2 => x.w2
  | _ => x.w3

end Row

/-- Sixteen words as four rows. -/
structure Block where
  a : Row
  b : Row
  c : Row
  d : Row
deriving DecidableEq, Repr

namespace Block

/-- The quarter round of every column. -/
@[inline] def quarterRounds (s : Block) : Block :=
  let a := s.a.add s.b
  let d := s.d.mix 16 a
  let c := s.c.add d
  let b := s.b.mix 12 c
  let a := a.add b
  let d := d.mix 8 a
  let c := c.add d
  let b := b.mix 7 c
  ⟨a, b, c, d⟩

/-- Quarter rounds of the columns, then of the diagonals, which are shifted into columns and back. -/
def doubleRound (s : Block) : Block :=
  let s := s.quarterRounds
  let s := quarterRounds ⟨s.a, s.b.shift, s.c.shift.shift, s.d.shift.shift.shift⟩
  ⟨s.a, s.b.shift.shift.shift, s.c.shift.shift, s.d.shift⟩

def add (s t : Block) : Block := ⟨s.a.add t.a, s.b.add t.b, s.c.add t.c, s.d.add t.d⟩

/-- The constant row, which spells `expand 32-byte k`. -/
def constants : Row := ⟨0x61707865, 0x3320646e, 0x79622d32, 0x6b206574⟩

/-- The matrix before the rounds: constants, key, counter and nonce, low words first. -/
def initial (key : Vector UInt32 8) (nonce counter : UInt64) : Block where
  a := constants
  b := ⟨key[0], key[1], key[2], key[3]⟩
  c := ⟨key[4], key[5], key[6], key[7]⟩
  d := ⟨counter.toUInt32, (counter >>> 32).toUInt32, nonce.toUInt32, (nonce >>> 32).toUInt32⟩

def chacha8 (key : Vector UInt32 8) (nonce counter : UInt64) : Block :=
  let s := initial key nonce counter
  s.doubleRound.doubleRound.doubleRound.doubleRound.add s

/-- Word `i` in row order, for `i` below sixteen. -/
def word (s : Block) (i : Nat) : UInt32 :=
  match i / 4 with
  | 0 => s.a.word (i % 4)
  | 1 => s.b.word (i % 4)
  | 2 => s.c.word (i % 4)
  | _ => s.d.word (i % 4)

end Block

end Vivarium
