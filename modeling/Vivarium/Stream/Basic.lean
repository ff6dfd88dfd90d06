import Vivarium.Stream.Block

/-!
# Random streams

A stream is a key, a nonce and a position. The words of all blocks of one key and nonce follow one
another, and the position is the number of the next one, modulo the period `2 ^ 68`. No block is
kept: a word is computed from the position alone.

* `Stream.next` : the next word; `Stream.fraction` : the next fifty-three bits;
* `Stream.below` : a uniform number below a bound, by rejection;
* `Stream.ofSeed` : the key that a 64-bit seed expands to.
-/

namespace Vivarium

/-- A place in the endless words of a key and a nonce. -/
structure Stream where
  key : Vector UInt32 8
  nonce : UInt64
  position : BitVec 68
deriving DecidableEq

namespace Stream

/-- The word at the position. -/
def peek (s : Stream) : UInt32 :=
  let block := Block.chacha8 s.key s.nonce ⟨s.position.extractLsb' 4 64⟩
  block.word (s.position.extractLsb' 0 4).toNat

/-- The same stream `n` words on. -/
def advance (s : Stream) (n : Nat) : Stream := { s with position := s.position + BitVec.ofNat 68 n }

def next (s : Stream) : UInt32 × Stream := (s.peek, s.advance 1)

/-- The upper fifty-three bits of two words, the first of which is the low one. -/
def fraction (s : Stream) : Nat × Stream :=
  let (low, s) := s.next
  let (high, s) := s.next
  ((low.toNat + high.toNat <<< 32) >>> 11, s)

/-- Scales words down to numbers below `n`. A word is refused unless the low half of its product
with `n` is below `span`, which leaves every number the same share. A period without a word to
accept would never end; zero is returned for it. -/
def belowWithin (n span : Nat) : Nat → Stream → Nat × Stream
  | 0, s => (0, s)
  | tries + 1, s =>
    let (v, s) := s.next
    let product := v.toNat * n
    if product % UInt32.size < span then (product / UInt32.size, s) else belowWithin n span tries s

/-- The number of words until a stream repeats itself. -/
def period : Nat := 1 <<< 68

/-- A number below `n`. The accepted share of the words is `n` times a power of two. -/
def below (n : Nat) (s : Stream) : Nat × Stream :=
  belowWithin n (n <<< (31 - n.log2)) period s

/-- A number below `n`. The accepted share of the words is the largest multiple of `n`. -/
def belowDense (n : Nat) (s : Stream) : Nat × Stream :=
  belowWithin n (UInt32.size - UInt32.size % n) period s

/-! ## Seeds -/

/-- The linear congruential step behind the seed expansion. -/
def seedStep (x : UInt64) : UInt64 := x * 6364136223846793005 + 11634580027462260723

/-- A word of output: the shifted state, turned right by its five top bits. -/
def seedWord (x : UInt64) : UInt32 :=
  let v := (((x >>> 18) ^^^ x) >>> 27).toUInt32
  let r := (x >>> 59).toUInt32
  (v >>> r) ||| (v <<< (32 - r))

/-- The start of a stream whose key is expanded from a seed. -/
def ofSeed (seed nonce : UInt64) : Stream where
  key := Vector.ofFn fun i => seedWord (Nat.repeat seedStep (i.val + 1) seed)
  nonce := nonce
  position := 0

/-! ## What draws keep -/

theorem advance_zero (s : Stream) : s.advance 0 = s := by
  simp [advance]

theorem advance_advance (s : Stream) (m n : Nat) : (s.advance m).advance n = s.advance (m + n) := by
  simp only [advance, BitVec.ofNat_add, BitVec.add_assoc]

/-- A fraction takes two words. -/
theorem fraction_snd (s : Stream) : s.fraction.2 = s.advance 2 := advance_advance s 1 1

theorem belowWithin_lt {n : Nat} (hn : 0 < n) (span tries : Nat) (s : Stream) :
    (belowWithin n span tries s).1 < n := by
  induction tries generalizing s with
  | zero => exact hn
  | succ tries ih =>
    rw [belowWithin]
    by_cases h : s.peek.toNat * n % UInt32.size < span
    · simp only [next, h, if_true]
      exact Nat.div_lt_of_lt_mul (Nat.mul_lt_mul_of_pos_right s.peek.toNat_lt hn)
    · simp only [next, h, if_false]
      exact ih _

theorem below_lt {n : Nat} (hn : 0 < n) (s : Stream) : (s.below n).1 < n :=
  belowWithin_lt hn _ _ s

end Stream

end Vivarium
