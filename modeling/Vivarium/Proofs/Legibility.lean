import Mathlib
import Vivarium.Proofs.Operands

/-!
# What can be read off an instruction's text

The text of an instruction is a row of words without blanks in them: a name for the code, and the operands
that are shown, with commas between them. So it can be taken apart again, and tells what the instruction
does.

* `Instruction.name`, `Instruction.shown`, `Operand.words` : what a text is made of; `Instruction.text_eq` :
  that it is made of nothing else;
* `Unspaced.intercalate_injective` : rows of words are read back from their text;
* `Instruction.name_eq_iff`, `Operand.words_injective` : words are read back too;
* `Instruction.text_determines` : instructions of one text are of one code, show the same operands and do
  the same.
-/

namespace Vivarium

/-! ## Words in a row -/

/-- No blank is in the text, and no end of a line. -/
def Unspaced (s : String) : Prop := ∀ c ∈ s.toList, c.isWhitespace = false

instance (s : String) : Decidable (Unspaced s) := List.decidableBAll _ _

namespace Unspaced

theorem append {s t : String} (hs : Unspaced s) (ht : Unspaced t) : Unspaced (s ++ t) := by
  intro c hc
  rw [String.toList_append] at hc
  exact (List.mem_append.mp hc).elim (hs c) (ht c)

theorem natural (n : Nat) : Unspaced (toString n) := by
  intro c hc
  have hdigit : c.isDigit = true := by
    rw [Nat.toString_eq_repr, Nat.toList_repr] at hc
    exact Nat.isDigit_of_mem_toDigits (by decide) (by decide) hc
  rw [← Bool.not_eq_true]
  intro hspace
  simp only [Char.isWhitespace, Bool.or_eq_true, decide_eq_true_eq] at hspace
  obtain ((rfl | rfl) | rfl) | rfl := hspace
  all_goals exact absurd hdigit (by decide)

theorem integer (n : ℤ) : Unspaced (toString n) := by
  rw [Int.toString_eq_repr, Int.repr_eq_if]
  split_ifs
  · exact natural _
  · exact append (by decide) (natural _)

/-- A row of words is read back from the text that has a blank between any two of them. -/
theorem intercalate_injective {vs ws : List String} (hvs : ∀ v ∈ vs, Unspaced v)
    (hws : ∀ w ∈ ws, Unspaced w) (hv : vs ≠ []) (hw : ws ≠ [])
    (h : " ".intercalate vs = " ".intercalate ws) : vs = ws := by
  have hsplit : ∀ us : List String, (∀ u ∈ us, Unspaced u) → us ≠ [] →
      (" ".intercalate us).toList.splitOn ' ' = us.map String.toList := by
    intro us hus hne
    rw [String.toList_intercalate]
    refine List.splitOn_intercalate _ (fun l hl hblank => ?_) (by simpa using hne)
    obtain ⟨u, hu, rfl⟩ := List.mem_map.mp hl
    exact absurd (hus u hu _ hblank) (by decide)
  have hlists : vs.map String.toList = ws.map String.toList := by
    rw [← hsplit vs hvs hv, ← hsplit ws hws hw, h]
  exact List.map_injective_iff.mpr (fun _ _ => String.toList_injective) hlists

end Unspaced

/-! ## Operands -/

namespace Operand

theorem text_injective : Function.Injective text := by
  rintro ⟨m, v⟩ ⟨n, w⟩ h
  have hchars := congrArg String.toList h
  simp only [text, String.toList_append, Char.toString, String.toList_singleton, List.cons_append,
    List.nil_append, List.cons.injEq] at hchars
  obtain ⟨hsigil, hnumber⟩ := hchars
  have hmode : m = n := by
    cases m <;> cases n <;> first | rfl | exact absurd hsigil (by decide)
  have hvalue : v.toInt = w.toInt := by
    rw [← Int.repr_inj, ← Int.toString_eq_repr, ← Int.toString_eq_repr]
    exact String.toList_injective hnumber
  rw [hmode, BitVec.eq_of_toInt_eq hvalue]

theorem unspaced_text (x : Operand) : Unspaced x.text := by
  refine Unspaced.append ?_ (Unspaced.integer _)
  cases x.mode <;> decide

/-- The words for operands in a row: each but the last has a comma after it. -/
def words : List Operand → List String
  | [] => []
  | x :: l => (x.text ++ if l = [] then "" else ",") :: words l

theorem words_injective : Function.Injective words := by
  intro k l h
  -- Whether there is a comma depends on the rest of the row, so the rest is compared first.
  induction k generalizing l with
  | nil =>
    cases l with
    | nil => rfl
    | cons y l => cases h
  | cons x k ih =>
    cases l with
    | nil => cases h
    | cons y l =>
      obtain ⟨hfirst, hrest⟩ := List.cons.inj h
      obtain rfl := ih hrest
      rw [text_injective ((String.append_left_inj _).mp hfirst)]

theorem unspaced_words (l : List Operand) : ∀ w ∈ words l, Unspaced w := by
  induction l with
  | nil => exact fun w hw => absurd hw List.not_mem_nil
  | cons x l ih =>
    intro w hw
    rcases List.mem_cons.mp hw with rfl | hw
    · refine x.unspaced_text.append ?_
      split_ifs <;> decide
    · exact ih w hw

end Operand

/-! ## Names -/

theorem Opcode.mnemonic_injective : Function.Injective mnemonic := by
  have hnodup : (all.map mnemonic).Nodup := by decide
  intro p q h
  exact List.inj_on_of_nodup_map hnodup p.mem_all q.mem_all h

/-- No mnemonic begins like the word for an unassigned code. -/
theorem Opcode.mnemonic_ne (op : Opcode) (s : String) : op.mnemonic ≠ "op" ++ s := by
  have hfirst : ∀ op ∈ all, op.mnemonic.toList.head? ≠ some 'o' := by decide
  intro h
  apply hfirst op op.mem_all
  rw [h, String.toList_append]
  rfl

namespace Instruction

/-- The word for the code: the opcode's mnemonic, or the number of an unassigned code. -/
def name (i : Instruction) : String :=
  match i.opcode? with
  | some op => op.mnemonic
  | none => "op" ++ toString i.code.toNat

/-- The operands that the text shows. -/
def shown (i : Instruction) : List Operand :=
  match i.opcode? with
  | some .nop | some .die => []
  | some .rand => [i.b]
  | some .jmp | some .spwn => [i.a]
  | _ => [i.a, i.b]

variable {i j : Instruction}

theorem text_eq (i : Instruction) : i.text = " ".intercalate (i.name :: Operand.words i.shown) := by
  have hone : ∀ n x : String, n ++ " " ++ x = " ".intercalate [n, x ++ ""] := by
    intro n x
    apply String.toList_injective
    simp
  have htwo : ∀ n x y : String,
      n ++ " " ++ x ++ ", " ++ y = " ".intercalate [n, x ++ ",", y ++ ""] := by
    intro n x y
    apply String.toList_injective
    simp
  unfold text name shown
  cases i.opcode? with
  | none => exact htwo _ _ _
  | some op =>
    cases op with
    | nop | die => rfl
    | jmp => exact hone "jmp" _
    | spwn => exact hone "spwn" _
    | rand => exact hone "rand" _
    | mov | add | sub | jz | jnz | seq | sne | sys | addf => exact htwo _ _ _

theorem unspaced_name (i : Instruction) : Unspaced i.name := by
  have hmnemonic : ∀ op ∈ Opcode.all, Unspaced op.mnemonic := by decide
  unfold name
  split
  · rename_i op hop
    exact hmnemonic op op.mem_all
  · exact Unspaced.append (by decide) (Unspaced.natural _)

theorem name_eq_iff : i.name = j.name ↔ i.code = j.code := by
  constructor
  · intro h
    unfold name at h
    cases hi : i.opcode? with
    | some p =>
      cases hj : j.opcode? with
      | some q =>
        simp only [hi, hj] at h
        rw [← Opcode.code_eq_of_ofCode? hi, ← Opcode.code_eq_of_ofCode? hj, Opcode.mnemonic_injective h]
      | none =>
        simp only [hi, hj] at h
        exact absurd h (p.mnemonic_ne _)
    | none =>
      cases hj : j.opcode? with
      | some q =>
        simp only [hi, hj] at h
        exact absurd h.symm (q.mnemonic_ne _)
      | none =>
        simp only [hi, hj] at h
        exact UInt8.toNat_inj.mp (Nat.repr_inj.mp ((String.append_right_inj _).mp h))
  · intro h
    rw [name, name, opcode?, opcode?, h]

theorem text_eq_iff : i.text = j.text ↔ i.code = j.code ∧ i.shown = j.shown := by
  rw [text_eq, text_eq]
  constructor
  · intro h
    have hunspaced : ∀ k : Instruction, ∀ w ∈ k.name :: Operand.words k.shown, Unspaced w :=
      fun k => List.forall_mem_cons.mpr ⟨k.unspaced_name, Operand.unspaced_words _⟩
    obtain ⟨hname, hwords⟩ := List.cons.inj (Unspaced.intercalate_injective (hunspaced i)
      (hunspaced j) (List.cons_ne_nil _ _) (List.cons_ne_nil _ _) h)
    exact ⟨name_eq_iff.mp hname, Operand.words_injective hwords⟩
  · rintro ⟨hcode, hshown⟩
    rw [name_eq_iff.mpr hcode, hshown]

/-! ## What is not shown -/

/-- The text shows the operands that are used, and no others unless the code is unassigned. -/
theorem used_eq : i.used = if i.opcode? = none then [] else i.shown := by
  unfold used shown
  cases i.opcode? with
  | none => rfl
  | some op => cases op <;> rfl

/-- Two instructions have the same text only if they are of one code and show the same operands, and then
they do the same: every operand that is used is shown. -/
theorem text_determines (i j : Instruction) :
    i.text = " ".intercalate (i.name :: Operand.words i.shown) ∧ i.used ⊆ i.shown ∧
    (i.text = j.text ↔ i.code = j.code ∧ i.shown = j.shown) ∧
    (i.text = j.text → ∀ o h, i.execute o h = j.execute o h) := by
  refine ⟨text_eq i, ?_, text_eq_iff, fun h o k => ?_⟩
  · rw [used_eq]
    split_ifs
    · exact List.nil_subset _
    · exact List.Subset.refl _
  · obtain ⟨hcode, hshown⟩ := text_eq_iff.mp h
    have hop : i.opcode? = j.opcode? := congrArg Opcode.ofCode? hcode
    refine execute_of_alike hop ?_ o k
    rw [used_eq, used_eq, hop, hshown]
    exact List.forall₂_same.mpr fun x _ => .refl x

/-- Instructions that differ in an operand that is neither shown nor used. -/
theorem text_determines_unshown_operand :
    let i := Instruction.new .rand ⟨.immediate, 5⟩ ⟨.register, -3⟩
    let j := Instruction.new .rand ⟨.indirect, 4095⟩ ⟨.register, -3⟩
    i ≠ j ∧ i.text = "rand %-3" ∧ j.text = "rand %-3" ∧ i.shown = [⟨.register, -3⟩] ∧
    i.shown = j.shown ∧ ∀ o h, i.execute o h = j.execute o h := by
  intro i j
  have hi : i.text = "rand %-3" := by decide +kernel
  have hj : j.text = "rand %-3" := by decide +kernel
  obtain ⟨-, -, hiff, hexecute⟩ := text_determines i j
  have hsame : i.text = j.text := hi.trans hj.symm
  exact ⟨by decide, hi, hj, by decide, (hiff.mp hsame).2, hexecute hsame⟩

end Instruction

end Vivarium
