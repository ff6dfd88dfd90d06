import Vivarium.World.Basic

/-!
# The ancestor

The ancestor is a program that copies itself: `length` times the instruction that copies its own
cell `offset` cells on, then a birth at the copy, then its end.

* `Ancestor.program` : the words;
* `Ancestor.refusal?` : why such an ancestor would not work;
* `Ancestor.plantIn` : a world with the ancestor in it.
-/

namespace Vivarium

/-- Where the ancestor stands, how many words it copies and how far. -/
structure Ancestor where
  start : UInt64
  length : UInt64
  offset : Word
deriving DecidableEq, Repr

namespace Ancestor

/-- Copies the word in its own cell `offset` cells on. -/
def copyWord (offset : Word) : Word :=
  (Instruction.new .mov ⟨.relative, 0⟩ ⟨.relative, offset⟩).toWord

/-- Asks for a child `distance` cells on. -/
def birthWord (distance : Word) : Word :=
  (Instruction.new .spwn ⟨.relative, distance⟩ ⟨.immediate, 0⟩).toWord

def deathWord : Word := (Instruction.new .die ⟨.immediate, 0⟩ ⟨.immediate, 0⟩).toWord

def program (length : Nat) (offset : Word) : List Word :=
  List.replicate length (copyWord offset) ++ [birthWord (offset - BitVec.ofNat 32 length), deathWord]

/-- Why an ancestor is refused. -/
inductive Refusal
  /-- The copy would reach into the words still to be copied. -/
  | overlap (offset : Int) (length : UInt64)
  /-- A distance does not fit the value field of a word. -/
  | unfit (offset : Int) (length : UInt64)
  | start (e : Address.OutOfRange)
  | tooLong (length : UInt64)
  | noRoom
deriving DecidableEq, Repr

def Refusal.message : Refusal → String
  | overlap offset length => s!"offset {offset} would overlap the {length}-instruction copy block"
  | unfit offset length => s!"offset {offset} does not fit a 12-bit operand for length {length}"
  | start e => e.message
  | tooLong length => s!"ancestor of length {length} does not fit in memory"
  | noRoom => "population cap leaves no room for the ancestor"

def refusal? (x : Ancestor) : Option Refusal :=
  let offset := x.offset.toInt
  let length := x.length.toNat
  if offset.natAbs ≤ length then some (.overlap offset x.length)
  else if ¬ (Field.Fits (offset - length) ∧ Field.Fits offset) then some (.unfit offset x.length)
  else
    match Address.check x.start with
    | .error e => some (.start e)
    | .ok _ => if Address.count < length + 2 then some (.tooLong x.length) else none

/-- The world with the ancestor's program and a root in front of it. -/
def plantIn (x : Ancestor) (w : World) : Except Refusal World :=
  match x.refusal? with
  | some r => .error r
  | none =>
    match w.plant (.ofUInt64 x.start) (program x.length.toNat x.offset) with
    | (_, none) => .error .noRoom
    | (w, some _) => .ok w

end Ancestor

end Vivarium
