import Vivarium.Instruction.Basic
import Vivarium.Text.Hex

/-!
# Listings

A listing has one line for each word: the address, the word, and the instruction that it reads as.
-/

namespace Vivarium.Listing

/-- Four digits of address, eight of word, and the assembly text, two blanks apart. -/
def line (a : Address) (w : Word) : String :=
  Hex.fixed 4 a.toNat ++ "  " ++ Hex.fixed 8 w.toNat ++ "  " ++ (Instruction.ofWord w).text ++ "\n"

/-- The lines of consecutive cells from `a` on, round the ring. -/
def lines (a : Address) : List Word → List String
  | [] => []
  | w :: ws => line a w :: lines (a + 1) ws

def text (a : Address) (ws : List Word) : String := String.join (lines a ws)

end Vivarium.Listing
