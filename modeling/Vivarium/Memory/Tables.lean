import Vivarium.Memory.Basic

/-!
# A soup as two tables

The words of all cells and the owners of all cells, each in address order. Tables from elsewhere
may have any length and any hue, and `Memory.ofTables` accepts exactly those that are the tables of
a soup with valid hues.
-/

namespace Vivarium.Memory

/-- Why two tables are not those of a soup. -/
inductive Defect
  | wordCount (found : Nat)
  | ownerCount (found : Nat)
  | ownerHue (address : Nat)
deriving DecidableEq, Repr

def Defect.message : Defect → String
  | wordCount n => s!"memory has {n} cells, expected 4096"
  | ownerCount n => s!"owner table has {n} cells, expected 4096"
  | ownerHue a => s!"owner of cell {a} is not a valid hue"

/-- An owner that is missing or has a valid hue. -/
def ValidOwner (o : Option Hue) : Prop := ∀ h ∈ o, h.Valid

instance (o : Option Hue) : Decidable (ValidOwner o) :=
  match o with
  | none => isTrue (by simp [ValidOwner])
  | some h => decidable_of_iff h.Valid (by simp [ValidOwner])

def ofTables (words : List Word) (owners : List (Option Hue)) : Except Defect Memory :=
  if hw : words.length = Address.count then
    if ho : owners.length = Address.count then
      match owners.findIdx? fun o => !decide (ValidOwner o) with
      | some a => .error (.ownerHue a)
      | none => .ok ⟨⟨(List.zipWith Cell.mk words owners).toArray, by simp [hw, ho]⟩⟩
    else .error (.ownerCount owners.length)
  else .error (.wordCount words.length)

end Vivarium.Memory
