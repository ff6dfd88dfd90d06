import Vivarium.Binary64.Basic
import Vivarium.Word

/-!
# Settings and configurations

* `Settings` : what may change while a world runs, by hand or by an instruction (`Settings.tune`);
* `Config` : what a world starts from.
-/

namespace Vivarium

/-- The chance that a write is altered, and the age that no organism may exceed; an age of zero is
no limit. -/
structure Settings where
  rate : Binary64
  maxAge : UInt64
deriving DecidableEq

namespace Settings

/-- Sets the rate to the nearest number that is a probability. -/
def setRate (s : Settings) (rate : Binary64) : Settings := { s with rate := rate.clampUnit }

def setMaxAge (s : Settings) (maxAge : UInt64) : Settings := { s with maxAge := maxAge }

/-- An age is past the limit, if there is one. -/
def expired (s : Settings) (age : UInt64) : Bool := 0 < s.maxAge && s.maxAge < age

/-- An age at the limit is not past it. -/
theorem expired_eq_false_iff (s : Settings) (age : UInt64) :
    s.expired age = false ↔ s.maxAge = 0 ∨ age ≤ s.maxAge := by
  rw [expired, Bool.and_eq_false_iff, decide_eq_false_iff_not, decide_eq_false_iff_not, UInt64.not_lt,
    UInt64.not_lt, UInt64.le_zero_iff]

/-- Equality with the rates compared as numbers. -/
def equal (s t : Settings) : Bool := s.rate.equal t.rate && s.maxAge == t.maxAge

/-- The settings that an organism can reach. -/
inductive Knob
  | rate
  | maxAge
deriving DecidableEq, Repr

/-- The command that turns a knob. -/
def Knob.number : Knob → Int
  | rate => 1
  | maxAge => 2

/-- Turns the knob of that number. The rate is given in thousandths and the age limit in turns; an
argument out of range counts as the nearest one in range, and other commands are ignored. -/
def tune (s : Settings) (command argument : Word) : Settings :=
  if command.toInt = Knob.rate.number then
    s.setRate (.ofRatio (min argument.toInt 1000).toNat 1000)
  else if command.toInt = Knob.maxAge.number then
    s.setMaxAge (UInt64.ofNat argument.toInt.toNat)
  else s

end Settings

/-- The starting values of a world. Without a seed its streams are left to chance. -/
structure Config where
  rate : Binary64
  maxAge : UInt64
  cap : UInt64
  historyCapacity : UInt64
  seed : Option UInt64
deriving DecidableEq

namespace Config

/-- One write in a thousand is altered, nobody dies of age, a thousand organisms live at most, and
the last 512 counts are kept. -/
def default : Config where
  rate := .ofRatio 1 1000
  maxAge := 0
  cap := 1000
  historyCapacity := 512
  seed := none

def withRate (c : Config) (rate : Binary64) : Config := { c with rate := rate.clampUnit }

def withMaxAge (c : Config) (maxAge : UInt64) : Config := { c with maxAge := maxAge }

def withCap (c : Config) (cap : UInt64) : Config := { c with cap := cap }

/-- At least one count is kept. -/
def withHistoryCapacity (c : Config) (capacity : UInt64) : Config :=
  { c with historyCapacity := max capacity 1 }

def withSeed (c : Config) (seed : UInt64) : Config := { c with seed := some seed }

def settings (c : Config) : Settings := ⟨c.rate.clampUnit, c.maxAge⟩

end Config

end Vivarium
