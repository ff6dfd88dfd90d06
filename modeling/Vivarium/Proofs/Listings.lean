import Vivarium.Proofs.Batches
import Vivarium.Proofs.Legibility
import Vivarium.Proofs.Loading

/-!
# What a listing shows

A listing counts its addresses by itself, so they have to stay with the cells that its words are from,
also across the end of the ring. Its columns are of a fixed width, so the words can be read back.

* `Hex.value`, `Hex.Denotes` : the number that digits stand for, and texts that stand for a number;
* `Listing.Shows`, `Listing.entries` : the lines without their ends; `Listing.text_eq_join` : that a listing
  is made of them, and `Listing.newline_notMem_entry` : that they have no other ends in them;
* `Listing.read` : the words of a listing; `Listing.read_text`;
* `CommandLine.inspection_faithful` : what an inspection prints of a memory.
-/

namespace Vivarium

/-! ## Digits -/

namespace Hex

/-- The digits by what they stand for. -/
def alphabet : List Char := "0123456789abcdef".toList

/-- The number that digits stand for, most significant first. -/
def value (cs : List Char) : Nat := cs.foldl (fun n c => 16 * n + alphabet.idxOf c) 0

/-- A text of that many lower-case digits which stand for the number. -/
structure Denotes (s : String) (width n : Nat) : Prop where
  length : s.length = width
  digits : ∀ c ∈ s.toList, c ∈ alphabet
  value : value s.toList = n

theorem digit_mem_alphabet {n : Nat} (h : n < 16) : digit n ∈ alphabet := by
  have key : ∀ a : Fin 16, digit a ∈ alphabet := by decide
  exact key ⟨n, h⟩

theorem idxOf_digit {n : Nat} (h : n < 16) : alphabet.idxOf (digit n) = n := by
  have key : ∀ a : Fin 16, alphabet.idxOf (digit a) = a := by decide
  exact key ⟨n, h⟩

theorem digits_subset_alphabet (width n : Nat) : digits width n ⊆ alphabet := by
  induction width generalizing n with
  | zero => exact List.nil_subset _
  | succ width ih =>
    rw [digits]
    refine List.append_subset.mpr ⟨ih _, List.cons_subset.mpr ⟨?_, List.nil_subset _⟩⟩
    exact digit_mem_alphabet (Nat.mod_lt _ (by decide))

theorem value_digits (width n : Nat) : value (digits width n) = n % 16 ^ width := by
  induction width generalizing n with
  | zero => exact (Nat.mod_one n).symm
  | succ width ih =>
    have hlast : ∀ cs c, value (cs ++ [c]) = 16 * value cs + alphabet.idxOf c := by
      intro cs c
      rw [value, value, List.foldl_append, List.foldl_cons, List.foldl_nil]
    rw [digits, hlast, ih, idxOf_digit (Nat.mod_lt _ (by decide)), Nat.pow_succ', Nat.mod_mul]
    omega

theorem toList_fixed (width n : Nat) : (fixed width n).toList = digits width n := String.toList_ofList

theorem denotes_fixed {width n : Nat} (h : n < 16 ^ width) : Denotes (fixed width n) width n where
  length := by rw [fixed, String.length_ofList, length_digits]
  digits := by
    rw [toList_fixed]
    exact digits_subset_alphabet width n
  value := by rw [toList_fixed, value_digits, Nat.mod_eq_of_lt h]

end Hex

namespace Listing

variable {ws : List Word}

/-! ## Lines -/

/-- The address in four digits, the word in eight, and the text of the instruction that it reads as, with
two blanks between them. -/
def Shows (s : String) (a : Address) (w : Word) : Prop :=
  ∃ place content : String, Hex.Denotes place 4 a.toNat ∧ Hex.Denotes content 8 w.toNat ∧
    s = place ++ "  " ++ content ++ "  " ++ (Instruction.ofWord w).text

/-- A line without its end. -/
def entry (a : Address) (w : Word) : String :=
  Hex.fixed 4 a.toNat ++ "  " ++ Hex.fixed 8 w.toNat ++ "  " ++ (Instruction.ofWord w).text

def entries (a : Address) : List Word → List String
  | [] => []
  | w :: ws => entry a w :: entries (a + 1) ws

theorem shows_entry (a : Address) (w : Word) : Shows (entry a w) a w := by
  have ha := a.isLt
  have hw := w.isLt
  exact ⟨_, _, Hex.denotes_fixed (by omega), Hex.denotes_fixed (by omega), rfl⟩

@[simp] theorem length_entries (a : Address) (ws : List Word) : (entries a ws).length = ws.length := by
  induction ws generalizing a with
  | nil => rfl
  | cons w ws ih => rw [entries, List.length_cons, ih, List.length_cons]

/-- The addresses of the lines are those of consecutive cells, round the ring. -/
theorem getElem?_entries (a : Address) (ws : List Word) (i : Nat) :
    (entries a ws)[i]? = ws[i]?.map (entry (a + .ofNat 12 i)) := by
  induction ws generalizing a i with
  | nil => rfl
  | cons w ws ih =>
    cases i with
    | zero => simp [entries]
    | succ i =>
      have hnext : a + 1 + BitVec.ofNat 12 i = a + BitVec.ofNat 12 (i + 1) := by
        rw [BitVec.add_assoc, BitVec.add_comm 1, BitVec.ofNat_add]
        rfl
      rw [entries, List.getElem?_cons_succ, ih, hnext, List.getElem?_cons_succ]

theorem lines_eq_map (a : Address) (ws : List Word) : lines a ws = (entries a ws).map (· ++ "\n") := by
  induction ws generalizing a with
  | nil => rfl
  | cons w ws ih => rw [lines, ih, entries, List.map_cons, entry, line]

theorem text_eq_join (a : Address) (ws : List Word) :
    text a ws = String.join ((entries a ws).map (· ++ "\n")) := by
  rw [text, lines_eq_map]

theorem text_cons (a : Address) (w : Word) (ws : List Word) :
    text a (w :: ws) = entry a w ++ "\n" ++ text (a + 1) ws := by
  rw [text, lines, String.join_cons]
  rfl

/-- A listing goes on where it stopped. -/
theorem text_append (n : Int) (vs ws : List Word) :
    text (.ofInt n) (vs ++ ws) = text (.ofInt n) vs ++ text (.ofInt (n + vs.length)) ws := by
  induction vs generalizing n with
  | nil => simp [text, lines]
  | cons v vs ih =>
    have hnext : n + 1 + vs.length = n + (vs.length + 1 : Nat) := by omega
    rw [List.cons_append, text_cons, text_cons, Address.ofInt_add_one, ih, hnext, List.length_cons]
    simp only [String.append_assoc]

/-! ## Ends of lines -/

theorem newline_notMem_digits (width n : Nat) : '\n' ∉ Hex.digits width n := by
  intro h
  exact absurd (Hex.digits_subset_alphabet width n h) (by decide)

theorem newline_notMem_intercalate {us : List String} (h : ∀ u ∈ us, Unspaced u) :
    '\n' ∉ (" ".intercalate us).toList := by
  have hblank : " ".toList = [' '] := rfl
  rw [String.toList_intercalate, hblank]
  induction us with
  | nil => exact List.not_mem_nil
  | cons u us ih =>
    obtain ⟨hu, hus⟩ := List.forall_mem_cons.mp h
    have hfirst : '\n' ∉ u.toList := fun hc => absurd (hu _ hc) (by decide)
    cases us with
    | nil => simpa using hfirst
    | cons v us =>
      have hrest := ih hus
      rw [List.map_cons] at hrest ⊢
      rw [List.map_cons, List.intercalate_cons_cons]
      simp [hfirst, hrest]

/-- The words of an instruction's text have no blanks in them, and what stands between two of them is no
end of a line either. -/
theorem newline_notMem_text (i : Instruction) : '\n' ∉ i.text.toList := by
  rw [i.text_eq]
  exact newline_notMem_intercalate
    (List.forall_mem_cons.mpr ⟨i.unspaced_name, Operand.unspaced_words _⟩)

theorem toList_entry (a : Address) (w : Word) : (entry a w).toList =
    Hex.digits 4 a.toNat ++ [' ', ' '] ++ Hex.digits 8 w.toNat ++ [' ', ' '] ++
      (Instruction.ofWord w).text.toList := by
  simp only [entry, String.toList_append, Hex.toList_fixed]
  rfl

theorem newline_notMem_entry (a : Address) (w : Word) : '\n' ∉ (entry a w).toList := by
  simp [toList_entry, newline_notMem_digits, newline_notMem_text]

theorem newline_notMem_of_mem_entries {a : Address} {s : String} (h : s ∈ entries a ws) :
    '\n' ∉ s.toList := by
  induction ws generalizing a with
  | nil => cases h
  | cons w ws ih =>
    rcases List.mem_cons.mp h with rfl | hrest
    · exact newline_notMem_entry a w
    · exact ih hrest

/-! ## Windows -/

/-- The addresses of a listing and the words of a window go round the ring together. -/
theorem getElem?_entries_window (m : Memory) {start : UInt64} {n i : Nat} {b : Address}
    (h : i ∈ Memory.visits start n b) :
    (entries (.ofUInt64 start) (m.window (.ofUInt64 start) n))[i]? = some (entry b (m.word b)) := by
  have hcell := (Memory.mem_visits_iff.mp h).2
  rw [getElem?_entries, Memory.getElem?_window m h, Option.map_some, Address.ofUInt64_eq,
    Address.ofInt_add_ofNat, hcell]

/-! ## Reading back -/

/-- The words of a listing: eight digits of each line, behind the address and two blanks. -/
def read (s : String) : List Word :=
  (s.toList.splitOn '\n').dropLast.map fun l => .ofNat 32 (Hex.value ((l.drop 6).take 8))

theorem splitOn_text (a : Address) (ws : List Word) :
    (text a ws).toList.splitOn '\n' = (entries a ws).map String.toList ++ [[]] := by
  induction ws generalizing a with
  | nil => rfl
  | cons w ws ih =>
    have hline : (text a (w :: ws)).toList = (entry a w).toList ++ '\n' :: (text (a + 1) ws).toList := by
      rw [text_cons, String.toList_append, String.toList_append, List.append_assoc]
      rfl
    have hfree : ∀ c ∈ (entry a w).toList, (c == '\n') = false := by
      intro c hc
      rw [beq_eq_false_iff_ne]
      rintro rfl
      exact newline_notMem_entry a w hc
    rw [hline, List.splitOn, List.splitOnP_append_cons_of_forall_mem hfree _ (by rfl), ← List.splitOn, ih]
    rfl

theorem read_text (a : Address) (ws : List Word) : read (text a ws) = ws := by
  have hword : ∀ (a : Address) (w : Word),
      BitVec.ofNat 32 (Hex.value (((entry a w).toList.drop 6).take 8)) = w := by
    intro a w
    have hlt : w.toNat < 16 ^ 8 := by
      have hw := w.isLt
      omega
    have hplace : (Hex.digits 4 a.toNat ++ [' ', ' ']).length = 6 := by
      rw [List.length_append, Hex.length_digits]
      rfl
    rw [toList_entry, List.append_assoc, List.append_assoc, List.drop_left' hplace,
      List.take_left' (Hex.length_digits 8 _), Hex.value_digits, Nat.mod_eq_of_lt hlt,
      BitVec.ofNat_toNat, BitVec.setWidth_eq]
  rw [read, splitOn_text, List.dropLast_concat, List.map_map]
  induction ws generalizing a with
  | nil => rfl
  | cons w ws ih => rw [entries, List.map_cons, ih, Function.comp_apply, hword]

end Listing

/-! ## Inspections -/

namespace CommandLine

open Listing

/-- The listing of a part of the soup has a line for each of its cells and none besides, and the line of a
cell shows the address of that cell and what is stored there, also where the part goes across the end of
the ring or all round it. An inspection prints the listing of the part that was asked for. A listing of
two parts is the listings of the parts, and its words are read back from it, so there are no two of the
same text. -/
theorem inspection_faithful :
    (∀ (m : Memory) (start count : UInt64),
      let n := min count.toNat Address.count
      ∃ ls : List String, ls.length = n ∧ (∀ s ∈ ls, '\n' ∉ s.toList) ∧
        text (.ofUInt64 start) (m.window (.ofUInt64 start) n) = String.join (ls.map (· ++ "\n")) ∧
        ∀ i < n, ∃ a s, a.toNat = (start.toNat + i) % Address.count ∧ ls[i]? = some s ∧
          Shows s a (m.word a)) ∧
    (∀ (o : InspectOptions) content w, o.start.toNat < Address.count →
      loadWorld o.file content = .ok w →
      o.conclusion content = ⟨w.statistics.summary ++ "\n" ++ Report.history w.history ++ "\n" ++
        text (.ofUInt64 o.start) (w.memory.window (.ofUInt64 o.start)
          (min o.count.toNat Address.count)), .ok none⟩) ∧
    (∀ (base : UInt64) (vs ws : List Word), text (.ofUInt64 base) (vs ++ ws) =
      text (.ofUInt64 base) vs ++ text (.ofUInt64 (base + .ofNat vs.length)) ws) ∧
    (∀ (a : Address) (ws : List Word), read (text a ws) = ws) ∧
    ∀ (a b : Address) (vs ws : List Word), text a vs = text b ws → vs = ws := by
  refine ⟨fun m start count => ?_, fun o content w hstart hload => ?_, fun base vs ws => ?_,
    read_text, fun a b vs ws h => ?_⟩
  · intro n
    refine ⟨entries (.ofUInt64 start) (m.window (.ofUInt64 start) n), by simp,
      fun s hs => newline_notMem_of_mem_entries hs, text_eq_join _ _, fun i hi => ?_⟩
    have hvisit : i ∈ Memory.visits start n (.ofInt (start.toNat + i)) :=
      Memory.mem_visits_iff.mpr ⟨hi, rfl⟩
    exact ⟨_, _, hvisit.2.symm, getElem?_entries_window m hvisit, shows_entry _ _⟩
  · have hcheck : Address.check o.start = .ok (.ofUInt64 o.start) := if_pos hstart
    simp only [InspectOptions.conclusion, hcheck, hload]
  · rw [Address.ofUInt64_eq, Address.ofUInt64_add_ofNat, text_append]
  · rw [← read_text a vs, h, read_text]

/-- Two cells with the end of the ring between them. -/
theorem inspection_faithful_seam :
    let ws : List Word := [0x101EE000, 0xF0000000]
    let w := (World.ofConfig Config.default 0).load 4095 ws
    let o : InspectOptions := ⟨"soup", 4095, 2⟩
    o.start.toNat < Address.count ∧ loadWorld o.file (.ok w.snapshot.toBytes) = .ok w ∧
    o.conclusion (.ok w.snapshot.toBytes) = ⟨w.statistics.summary ++ "\n" ++ Report.history w.history ++
      "\n" ++ "0fff  101ee000  mov #123, %0\n0000  f0000000  die\n", .ok none⟩ ∧
    text 4095 ws = text 4095 [0x101EE000] ++ text 0 [0xF0000000] ∧ read (text 4095 ws) = ws := by
  intro ws w o
  have hload : loadWorld o.file (.ok w.snapshot.toBytes) = .ok w :=
    loadWorld_snapshot _ (World.sound_load (World.sound_ofConfig _ _) _ _) (by decide)
  obtain ⟨-, hconclusion, happend, hread, -⟩ := inspection_faithful
  have hprinted := hconclusion o _ w (by decide) hload
  have hwindow : w.memory.window 4095 2 = ws := Memory.window_load _ 4095 (by decide)
  have htext : text 4095 ws = "0fff  101ee000  mov #123, %0\n0000  f0000000  die\n" := by
    decide +kernel
  refine ⟨by decide, hload, ?_, happend 4095 [0x101EE000] [0xF0000000], hread 4095 ws⟩
  rw [hprinted, ← htext, ← hwindow]
  rfl

end CommandLine

end Vivarium
