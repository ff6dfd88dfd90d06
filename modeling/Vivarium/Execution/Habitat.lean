import Vivarium.Memory.Basic
import Vivarium.Settings

/-!
# What organisms share

An instruction may change, besides its own organism, the soup, the stream of chance, the settings
and the count of mutations.

`Habitat.write` is the only way in which organisms change the soup. Each write draws a number, and
if the rate exceeds it, one bit of the word is flipped on its way.
-/

namespace Vivarium

/-- The part of a world that instructions act on. -/
structure Habitat where
  memory : Memory
  stream : Stream
  settings : Settings
  mutations : UInt64
deriving DecidableEq

namespace Habitat

/-- Puts a word and its writer's hue into a cell, with one random bit flipped if the rate is above
the number drawn. -/
def write : Habitat → Address → Word → Hue → Habitat
  | ⟨memory, stream, settings, mutations⟩, a, v, writer =>
    let (k, stream) := stream.fraction
    if settings.rate.exceedsDraw k then
      let (bit, stream) := stream.below 32
      ⟨memory.set a ⟨v ^^^ BitVec.twoPow 32 bit, some writer⟩, stream, settings, mutations + 1⟩
    else
      ⟨memory.set a ⟨v, some writer⟩, stream, settings, mutations⟩

/-- The word that reaches the cell when `v` is written. -/
def altered (h : Habitat) (v : Word) : Word :=
  if h.settings.rate.exceedsDraw h.stream.fraction.1 then
    v ^^^ BitVec.twoPow 32 (h.stream.fraction.2.below 32).1
  else v

theorem memory_write (h : Habitat) (a : Address) (v : Word) (writer : Hue) :
    (h.write a v writer).memory = h.memory.set a ⟨h.altered v, some writer⟩ := by
  cases h
  simp only [write, altered]
  split <;> rfl

@[simp] theorem settings_write (h : Habitat) (a : Address) (v : Word) (writer : Hue) :
    (h.write a v writer).settings = h.settings := by
  cases h
  simp only [write]
  split <;> rfl

/-- A write that is altered draws a second time, for the bit, and is counted. -/
theorem write_of_exceeds {h : Habitat} (hk : h.settings.rate.exceedsDraw h.stream.fraction.1 = true)
    (a : Address) (v : Word) (writer : Hue) :
    h.write a v writer =
      ⟨h.memory.set a ⟨v ^^^ BitVec.twoPow 32 (h.stream.fraction.2.below 32).1, some writer⟩,
        (h.stream.fraction.2.below 32).2, h.settings, h.mutations + 1⟩ := by
  cases h
  exact if_pos hk

theorem write_of_not_exceeds {h : Habitat}
    (hk : ¬ h.settings.rate.exceedsDraw h.stream.fraction.1 = true) (a : Address) (v : Word)
    (writer : Hue) :
    h.write a v writer =
      ⟨h.memory.set a ⟨v, some writer⟩, h.stream.fraction.2, h.settings, h.mutations⟩ := by
  cases h
  exact if_neg hk

end Habitat

end Vivarium
