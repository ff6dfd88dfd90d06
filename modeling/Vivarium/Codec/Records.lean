import Vivarium.Codec.Basic
import Vivarium.Organism
import Vivarium.Settings

/-!
# Binary forms of the domain's types

Opcodes and modes are written as their place in `Opcode.all` and `Mode.all`, which for the last two
opcodes is not their code. A record is written field by field.
-/

namespace Vivarium

def Word.codec : Codec Word := .bits 4

def Opcode.codec : Codec Opcode := .oneOf Opcode.all

def Mode.codec : Codec Mode := .oneOf Mode.all

def Operand.codec : Codec Operand :=
  (Mode.codec.pair Word.codec).map (fun (mode, value) => ⟨mode, value⟩) fun x => (x.mode, x.value)

def Instruction.codec : Codec Instruction :=
  (Codec.u8.pair (Operand.codec.pair Operand.codec)).map
    (fun (code, a, b) => ⟨code, a, b⟩) fun i => (i.code, i.a, i.b)

def Hue.codec : Codec Hue := Codec.u16.map Hue.mk Hue.degrees

def Binary64.codec : Codec Binary64 := (Codec.bits 8).map Binary64.mk Binary64.bits

def Settings.codec : Codec Settings :=
  (Binary64.codec.pair Codec.u64).map
    (fun (rate, maxAge) => ⟨rate, maxAge⟩) fun s => (s.rate, s.maxAge)

def Organism.codec : Codec Organism :=
  (Codec.u64.pair <| (Word.codec.vector registerCount).pair <| Codec.bool.pair <|
    Codec.u64.pair <| Codec.u32.pair Hue.codec).map
    (fun (ip, registers, alive, age, depth, hue) => ⟨ip, registers, alive, age, depth, hue⟩)
    fun o => (o.ip, o.registers, o.alive, o.age, o.depth, o.hue)

/-- Key, nonce and position, the position in sixteen bytes of which it takes the residue modulo the
period. -/
def Stream.codec : Codec Stream :=
  ((Codec.u32.vector 8).pair (Codec.u64.pair (Codec.bits 16))).map
    (fun (key, nonce, position) => ⟨key, nonce, position.setWidth 68⟩)
    fun s => (s.key, s.nonce, s.position.setWidth 128)

end Vivarium
