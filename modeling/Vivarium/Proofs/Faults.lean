import Vivarium.Proofs.Acts
import Vivarium.Proofs.Effects
import Vivarium.Proofs.Ring

/-!
# Where a turn can fail

`Instruction.execute` makes one change and cannot fail. Here the same is done in steps: the address of an
operand is computed anew whenever it is needed, in 64-bit numbers, where a sum that leaves their range
still names the same cell; every access to the soup names a machine address and may be refused; and what
was done before a refusal stays done.

* `Access` : steps that a refused access ends; `Access.Gives` : steps that come to their end;
* `Operand.fetch`, `Operand.machineAddress?` : the two ways to resolve an operand, to read it and to write
  there, each for itself; `Operand.deposit` : reads a destination and writes a function of it back;
* `Instruction.carryOut`, `Organism.attempt` : an instruction in steps, and the reading of it before;
* `Instruction.gives_carryOut` : the steps of an instruction are never refused an access, and come to what
  `Instruction.execute` gives;
* `Organism.faults_attempt` : only the reading of an instruction is ever refused, and then nothing is done.
-/

namespace Vivarium

/-! ## Machine addresses -/

namespace Address

/-- The machine address of the cell that a signed 64-bit number names, by its residue. -/
def wrap (n : BitVec 64) : UInt64 := .ofNat (n.toInt % count).toNat

/-- The ring divides `2 ^ 64`, so a number names the same cell with and without its sign. -/
theorem wrap_eq (n : BitVec 64) : wrap n = (ofUInt64 ⟨n⟩).toUInt64 := by
  have hnonneg : 0 ≤ n.toInt % 4096 := Int.emod_nonneg _ (by decide)
  have hlt : (n.toInt % 4096).toNat < 2 ^ 64 := by omega
  have hsigned := BitVec.toInt_eq_toNat_cond n
  apply UInt64.toNat_inj.mp
  rw [toNat_toUInt64, toNat_ofUInt64]
  show (UInt64.ofNat (n.toInt % 4096).toNat).toNat = n.toNat % 4096
  rw [UInt64.toNat_ofNat_of_lt' hlt]
  split_ifs at hsigned <;> omega

@[simp] theorem wrap_toUInt64 (a : Address) : wrap a.toUInt64.toBitVec = a.toUInt64 := by
  rw [wrap_eq]
  exact congrArg toUInt64 (ofUInt64_toUInt64 a)

theorem toUInt64_injective : Function.Injective toUInt64 :=
  Function.LeftInverse.injective ofUInt64_toUInt64

theorem ofUInt64_signExtend (w : Word) : ofUInt64 ⟨w.signExtend 64⟩ = ofWord w := by
  ext i hi
  simp only [ofUInt64, ofWord, BitVec.getElem_setWidth, BitVec.getLsbD_signExtend]
  simp [show i < 64 by omega, show i < 32 by omega]

theorem ofUInt64_add (m n : BitVec 64) : ofUInt64 ⟨m + n⟩ = ofUInt64 ⟨m⟩ + ofUInt64 ⟨n⟩ :=
  BitVec.setWidth_add _ _ (by decide)

end Address

theorem Memory.read_toUInt64 (m : Memory) (a : Address) : m.read a.toUInt64 = .ok (m.word a) := by
  rw [read, if_pos a.toNat_toUInt64_lt, Address.ofUInt64_toUInt64]

/-! ## Steps -/

/-- Steps on an organism and its habitat that a refused access to the soup ends. -/
abbrev Access := ExceptT OutOfBounds (StateM Act)

namespace Access

variable {α β : Type}

/-- What the steps give or which access was refused, and the state then. -/
def result (p : Access α) (x : Act) : Except OutOfBounds α × Act := p.run.run x

/-- The steps come to their end. -/
def Gives (p : Access α) (x : Act) (a : α) (y : Act) : Prop := p.result x = (.ok a, y)

def read (n : UInt64) : Access Word := do
  ofExcept ((← get).habitat.memory.read n)

/-- Draws from the stream of chance. -/
def draw (f : Stream → α × Stream) : Access α := do
  let x ← get
  let (k, s) := f x.habitat.stream
  set { x with habitat := { x.habitat with stream := s } }
  return k

def store (n : UInt64) (w : Word) : Access Unit := do
  let x ← get
  let memory ← ofExcept (x.habitat.memory.store n ⟨w, some x.organism.hue⟩)
  set { x with habitat := { x.habitat with memory := memory } }

/-- The word that is stored for `v`: one random bit of it is flipped if the rate is above a number
drawn, and that is counted. -/
def alter (v : Word) : Access Word := do
  let k ← draw Stream.fraction
  if (← get).habitat.settings.rate.exceedsDraw k then
    let bit ← draw (Stream.below 32)
    modify fun x => { x with habitat := { x.habitat with mutations := x.habitat.mutations + 1 } }
    return v ^^^ BitVec.twoPow 32 bit
  else return v

/-- The address is taken by its residue once more. -/
def write (n : UInt64) (v : Word) : Access Unit := do
  let target := Address.wrap n.toBitVec
  store target (← alter v)

end Access

namespace Operand

/-- The word that the operand gives. -/
def fetch (x : Operand) : Access Word := do
  let o := (← get).organism
  match x.mode with
  | .immediate => return x.value
  | .relative => Access.read (Address.wrap (o.ip.toBitVec + x.value.signExtend 64))
  | .register => return o.register x.value
  | .indirect => Access.read (Address.wrap ((o.register x.value).signExtend 64))

/-- The machine address that the operand names, if it names a cell. -/
def machineAddress? (x : Operand) (o : Organism) : Option UInt64 :=
  match x.mode with
  | .immediate | .register => none
  | .relative => some (Address.wrap (o.ip.toBitVec + x.value.signExtend 64))
  | .indirect => some (Address.wrap ((o.register x.value).signExtend 64))

/-- Replaces what stands where the operand says by a function of it. -/
def deposit (x : Operand) (f : Word → Word) : Access Unit := do
  let o := (← get).organism
  if x.mode = .register then
    let r := Register.ofWord x.value
    modify fun y => { y with organism := o.setRegister r (f (o.registers.get r)) }
  else
    match x.machineAddress? o with
    | some n =>
      let current ← Access.read n
      Access.write n (f current)
    | none => return

end Operand

/-- Where the pointer goes after an instruction, by machine address. -/
inductive Course
  | next
  | skip
  | jump (n : UInt64)
deriving DecidableEq, Repr

/-- What an instruction leaves to be done: the way of the pointer, and the machine address at which a
child was asked for. -/
structure Ending where
  course : Course
  birth : Option UInt64
deriving DecidableEq, Repr

def Flow.course : Flow → Course
  | next => .next
  | skip => .skip
  | jump a => .jump a.toUInt64

namespace Outcome

def ending (out : Outcome) : Ending := ⟨out.flow.course, out.birth.map Address.toUInt64⟩

/-- The organism and the habitat that are left. -/
def state (out : Outcome) : Act := ⟨out.organism, out.habitat⟩

end Outcome

/-- A jump to the operand's machine address, if it names a cell. -/
def Operand.course (x : Operand) (o : Organism) : Course :=
  match x.machineAddress? o with
  | some n => .jump n
  | none => .next

/-- Carries out an instruction in steps. -/
def Instruction.carryOut (i : Instruction) : Access Ending :=
  match i.opcode? with
  | none => return ⟨.next, none⟩
  | some .nop => return ⟨.next, none⟩
  | some .mov => do
    let value ← i.a.fetch
    i.b.deposit fun _ => value
    return ⟨.next, none⟩
  | some .add => do
    let value ← i.a.fetch
    i.b.deposit fun current => current + value
    return ⟨.next, none⟩
  | some .sub => do
    let value ← i.a.fetch
    i.b.deposit fun current => current - value
    return ⟨.next, none⟩
  | some .jmp => return ⟨i.a.course (← get).organism, none⟩
  | some .jz => do
    if (← i.b.fetch) = 0 then return ⟨i.a.course (← get).organism, none⟩
    else return ⟨.next, none⟩
  | some .jnz => do
    if (← i.b.fetch) = 0 then return ⟨.next, none⟩
    else return ⟨i.a.course (← get).organism, none⟩
  | some .spwn => return ⟨.next, i.a.machineAddress? (← get).organism⟩
  | some .seq => do
    let a ← i.a.fetch
    let b ← i.b.fetch
    return ⟨if a = b then .skip else .next, none⟩
  | some .sne => do
    let a ← i.a.fetch
    let b ← i.b.fetch
    return ⟨if a = b then .next else .skip, none⟩
  | some .rand => do
    let value ← Access.draw (Stream.below Address.count)
    i.b.deposit fun _ => BitVec.ofNat 32 value
    return ⟨.next, none⟩
  | some .sys => do
    let command ← i.a.fetch
    let argument ← i.b.fetch
    modify fun x =>
      { x with habitat := { x.habitat with settings := x.habitat.settings.tune command argument } }
    return ⟨.next, none⟩
  | some .addf => do
    let value ← i.a.fetch
    i.b.deposit fun current => current.addValues value
    return ⟨.next, none⟩
  | some .die => do
    modify fun x => { x with organism := x.organism.kill }
    return ⟨.next, none⟩

/-- Reads the word in the organism's cell and carries it out, in steps. -/
def Organism.attempt : Access Ending := do
  let w ← Access.read (← get).organism.ip
  (Instruction.ofWord w).carryOut

/-! ## What steps give -/

namespace Access

variable {α β : Type} {x y z : Act} {a : α} {b : β}

theorem result_bind_of_eq {p : Access α} (hp : p.Gives x a y) (f : α → Access β) :
    (p >>= f).result x = (f a).result y := by
  have hrun : p.run.run x = (.ok a, y) := hp
  show (ExceptT.run (p >>= f)).run x = _
  rw [ExceptT.run_bind, StateT.run_bind, hrun]
  rfl

/-- Steps after a refused access are not taken. -/
theorem result_bind_of_error {p : Access α} {e : OutOfBounds} (hp : p.result x = (.error e, y))
    (f : α → Access β) : (p >>= f).result x = (.error e, y) := by
  have hrun : p.run.run x = (.error e, y) := hp
  show (ExceptT.run (p >>= f)).run x = _
  rw [ExceptT.run_bind, StateT.run_bind, hrun]
  rfl

theorem Gives.bind {p : Access α} {f : α → Access β} (hp : p.Gives x a y)
    (hf : (f a).Gives y b z) : (p >>= f).Gives x b z :=
  (result_bind_of_eq hp f).trans hf

theorem gives_pure (a : α) (x : Act) : Gives (pure a) x a x := rfl

theorem gives_get (x : Act) : Gives get x x x := rfl

theorem gives_modify (f : Act → Act) (x : Act) : Gives (modify f) x ⟨⟩ (f x) := rfl

theorem gives_set (x y : Act) : Gives (set y) x ⟨⟩ y := rfl

theorem gives_draw (f : Stream → α × Stream) (o : Organism) (h : Habitat) :
    (draw f).Gives ⟨o, h⟩ (f h.stream).1 ⟨o, { h with stream := (f h.stream).2 }⟩ := rfl

/-- Reading changes nothing, whether it is refused or not. -/
theorem result_read (n : UInt64) (o : Organism) (h : Habitat) :
    (read n).result ⟨o, h⟩ = (h.memory.read n, ⟨o, h⟩) := by
  refine (result_bind_of_eq (gives_get _) _).trans ?_
  cases h.memory.read n <;> rfl

/-- An access by the machine address of a cell is not refused. -/
theorem gives_read (a : Address) (o : Organism) (h : Habitat) :
    (read a.toUInt64).Gives ⟨o, h⟩ (h.memory.word a) ⟨o, h⟩ := by
  refine (result_read _ o h).trans ?_
  rw [Memory.read_toUInt64]

theorem gives_store (a : Address) (w : Word) (o : Organism) (h : Habitat) :
    (store a.toUInt64 w).Gives ⟨o, h⟩ ⟨⟩ ⟨o, { h with memory := h.memory.set a ⟨w, some o.hue⟩ }⟩ := by
  have hstore : h.memory.store a.toUInt64 ⟨w, some o.hue⟩ =
      .ok (h.memory.set a ⟨w, some o.hue⟩) := by
    rw [Memory.store, if_pos a.toNat_toUInt64_lt, Address.ofUInt64_toUInt64]
  refine (gives_get _).bind ?_
  show Gives (ofExcept (h.memory.store a.toUInt64 ⟨w, some o.hue⟩) >>= _) _ _ _
  rw [hstore]
  exact (gives_pure _ _).bind (gives_set _ _)

/-- Up to the cell that is written, `alter` does what `Habitat.write` does. -/
theorem gives_alter (v : Word) (a : Address) (o : Organism) (h : Habitat) :
    (alter v).Gives ⟨o, h⟩ (h.altered v) ⟨o, { h.write a v o.hue with memory := h.memory }⟩ := by
  refine (gives_draw _ o h).bind ((gives_get _).bind ?_)
  by_cases hk : h.settings.rate.exceedsDraw h.stream.fraction.1 = true
  · rw [Habitat.write_of_exceeds hk, Habitat.altered, if_pos hk, if_pos hk]
    exact (gives_draw _ _ _).bind ((gives_modify _ _).bind (gives_pure _ _))
  · rw [Habitat.write_of_not_exceeds hk, Habitat.altered, if_neg hk, if_neg hk]
    exact gives_pure _ _

theorem gives_write (a : Address) (v : Word) (o : Organism) (h : Habitat) :
    (write a.toUInt64 v).Gives ⟨o, h⟩ ⟨⟩ ⟨o, h.write a v o.hue⟩ := by
  refine (gives_alter v a o h).bind ?_
  rw [Address.wrap_toUInt64]
  refine (gives_store a _ o _).trans ?_
  simp only [← Habitat.memory_write]

end Access

open Access

namespace Operand

variable (x : Operand) (o : Organism) (h : Habitat)

theorem wrap_relative :
    Address.wrap (o.ip.toBitVec + x.value.signExtend 64) = (x.relativeCell o).toUInt64 := by
  rw [Address.wrap_eq, Address.ofUInt64_add, Address.ofUInt64_signExtend]
  rfl

theorem wrap_indirect :
    Address.wrap ((o.register x.value).signExtend 64) = (x.indirectCell o).toUInt64 := by
  rw [Address.wrap_eq, Address.ofUInt64_signExtend]
  rfl

theorem machineAddress?_eq :
    x.machineAddress? o = (x.place o).address?.map Address.toUInt64 := by
  unfold machineAddress? place
  cases x.mode with
  | immediate | register => rfl
  | relative => exact congrArg some (x.wrap_relative o)
  | indirect => exact congrArg some (x.wrap_indirect o)

theorem machineAddress?_eq_some_iff (n : UInt64) :
    x.machineAddress? o = some n ↔ ∃ a, x.place o = .cell a ∧ a.toUInt64 = n := by
  simp only [machineAddress?_eq, Option.map_eq_some_iff, Place.address?_eq_some_iff]

theorem gives_fetch : x.fetch.Gives ⟨o, h⟩ (x.read o h.memory) ⟨o, h⟩ := by
  refine (gives_get _).bind ?_
  simp only [wrap_relative, wrap_indirect, read]
  cases x.mode with
  | immediate | register => exact gives_pure _ _
  | relative | indirect => exact gives_read _ o h

theorem gives_deposit (f : Word → Word) : (x.deposit f).Gives ⟨o, h⟩ ⟨⟩
    (((x.place o).update o h.memory f).apply o h).state := by
  refine (gives_get _).bind ?_
  simp only [machineAddress?_eq]
  unfold place
  cases x.mode with
  | immediate => exact gives_pure _ _
  | register => exact gives_modify _ _
  | relative | indirect =>
    rw [if_neg (by decide)]
    exact (gives_read _ o h).bind (gives_write _ _ o h)

end Operand

theorem Place.ending_update (p : Place) (o : Organism) (h : Habitat) (m : Memory) (f : Word → Word) :
    ((p.update o m f).apply o h).ending = ⟨.next, none⟩ := by
  cases p <;> rfl

theorem Operand.ending_jump (x : Operand) (o : Organism) (h : Habitat) :
    ((x.jump o).apply o h).ending = ⟨x.course o, none⟩ ∧ ((x.jump o).apply o h).state = ⟨o, h⟩ := by
  unfold course jump
  rw [machineAddress?_eq]
  cases (x.place o).address? <;> exact ⟨rfl, rfl⟩

namespace Instruction

variable (i : Instruction) (o : Organism) (h : Habitat)

/-- The steps of an instruction come to what it does at once. -/
theorem gives_carryOut :
    i.carryOut.Gives ⟨o, h⟩ (i.execute o h).ending (i.execute o h).state := by
  -- Only `rand` finds the stream of chance further on when it comes to its operand.
  by_cases hrand : i.opcode? = some .rand
  · rw [execute_eq, draw_of_rand hrand]
    simp only [carryOut, effect, hrand, Place.ending_update]
    exact (gives_draw _ o h).bind ((i.b.gives_deposit o _ _).bind (gives_pure _ _))
  rw [execute_of_ne_rand hrand]
  cases hop : i.opcode? with
  | none =>
    simp only [carryOut, effect, hop]
    exact gives_pure _ _
  | some op =>
    cases op with
    | nop =>
      simp only [carryOut, effect, hop]
      exact gives_pure _ _
    | mov | add | sub | addf =>
      simp only [carryOut, effect, hop, Place.ending_update]
      exact (i.a.gives_fetch o h).bind ((i.b.gives_deposit o h _).bind (gives_pure _ _))
    | rand => exact absurd hop hrand
    | jmp =>
      obtain ⟨hending, hstate⟩ := i.a.ending_jump o h
      simp only [carryOut, effect, hop, hending, hstate]
      exact (gives_get _).bind (gives_pure _ _)
    | jz =>
      obtain ⟨hending, hstate⟩ := i.a.ending_jump o h
      simp only [carryOut, effect, hop]
      refine (i.b.gives_fetch o h).bind ?_
      split_ifs
      · rw [hending, hstate]
        exact (gives_get _).bind (gives_pure _ _)
      · exact gives_pure _ _
    | jnz =>
      obtain ⟨hending, hstate⟩ := i.a.ending_jump o h
      simp only [carryOut, effect, hop]
      refine (i.b.gives_fetch o h).bind ?_
      split_ifs
      · exact gives_pure _ _
      · rw [hending, hstate]
        exact (gives_get _).bind (gives_pure _ _)
    | spwn =>
      simp only [carryOut, effect, hop, Operand.machineAddress?_eq]
      refine (gives_get _).bind ?_
      cases (i.a.place o).address? <;> exact gives_pure _ _
    | seq | sne =>
      simp only [carryOut, effect, hop]
      refine (i.a.gives_fetch o h).bind ((i.b.gives_fetch o h).bind ?_)
      split_ifs <;> exact gives_pure _ _
    | sys =>
      simp only [carryOut, effect, hop]
      exact (i.a.gives_fetch o h).bind ((i.b.gives_fetch o h).bind
        ((gives_modify _ _).bind (gives_pure _ _)))
    | die =>
      simp only [carryOut, effect, hop]
      exact (gives_modify _ _).bind (gives_pure _ _)

end Instruction

namespace Organism

variable (o : Organism) (h : Habitat)

theorem act_eq_error_iff (e : OutOfBounds) :
    o.act h = .error e ↔ Address.count ≤ o.ip.toNat ∧ e = ⟨o.ip⟩ := by
  unfold act Memory.read
  by_cases ho : o.ip.toNat < Address.count
  · simp [ho]
  · rw [if_neg ho]
    simp only [Except.error.injEq, eq_comm (a := e), Nat.not_lt.mp ho, true_and]

/-- In steps a turn comes to what it does at once. If its reading is refused, it leaves everything as it
was. -/
theorem result_attempt : attempt.result ⟨o, h⟩ =
    match o.act h with
    | .ok out => (.ok out.ending, out.state)
    | .error e => (.error e, ⟨o, h⟩) := by
  refine (result_bind_of_eq (gives_get _) _).trans ?_
  have hread := result_read o.ip o h
  unfold act
  cases hr : h.memory.read o.ip with
  | ok w =>
    rw [hr] at hread
    exact (result_bind_of_eq hread _).trans ((Instruction.ofWord w).gives_carryOut o h)
  | error e =>
    rw [hr] at hread
    exact result_bind_of_error hread _

theorem result_attempt_eq_error_iff (e : OutOfBounds) (y : Act) :
    attempt.result ⟨o, h⟩ = (.error e, y) ↔
      Address.count ≤ o.ip.toNat ∧ e = ⟨o.ip⟩ ∧ y = ⟨o, h⟩ := by
  rw [result_attempt, ← and_assoc, ← act_eq_error_iff o h e]
  cases o.act h with
  | ok out => simp
  | error e' => simp only [Prod.mk.injEq, Except.error.injEq, eq_comm (a := y)]

/-- No instruction in steps is refused an access, wherever the organism is and whatever its registers and
operands hold, and no operand is either when it is read; an operand that names a cell to be written is
read as the word in this cell. Only the reading of the instruction is refused, exactly if the pointer is
outside the ring; what is refused is its address, and organism and habitat are left as they were. -/
theorem faults_attempt :
    (∀ i : Instruction,
      i.carryOut.Gives ⟨o, h⟩ (i.execute o h).ending (i.execute o h).state) ∧
    (∀ x : Operand, x.fetch.Gives ⟨o, h⟩ (x.read o h.memory) ⟨o, h⟩ ∧
      (∀ a, x.place o = .cell a ↔ x.machineAddress? o = some a.toUInt64) ∧
      ∀ n, x.machineAddress? o = some n →
        n.toNat < Address.count ∧ h.memory.read n = .ok (x.read o h.memory)) ∧
    (∀ e y, attempt.result ⟨o, h⟩ = (.error e, y) ↔
      Address.count ≤ o.ip.toNat ∧ e = ⟨o.ip⟩ ∧ y = ⟨o, h⟩) ∧
    (∀ e, o.act h = .error e ↔ Address.count ≤ o.ip.toNat ∧ e = ⟨o.ip⟩) ∧
    (∀ out, o.act h = .ok out → attempt.Gives ⟨o, h⟩ out.ending out.state) := by
  refine ⟨fun i => i.gives_carryOut o h, fun x => ⟨x.gives_fetch o h, ?_, ?_⟩,
    o.result_attempt_eq_error_iff h, o.act_eq_error_iff h, ?_⟩
  · intro a
    rw [Operand.machineAddress?_eq_some_iff]
    refine ⟨fun hplace => ⟨a, hplace, rfl⟩, ?_⟩
    rintro ⟨b, hplace, hb⟩
    rw [hplace, Address.toUInt64_injective hb]
  · intro n hn
    obtain ⟨a, hplace, rfl⟩ := (x.machineAddress?_eq_some_iff o n).mp hn
    have hread : x.read o h.memory = h.memory.word a := by
      rw [x.read_eq_content o h.memory (by simp [hplace]), hplace]
      rfl
    exact ⟨a.toNat_toUInt64_lt, by rw [h.memory.read_toUInt64, hread]⟩
  · intro out hact
    have hresult := o.result_attempt h
    rw [hact] at hresult
    exact hresult

/-- An organism just outside the ring reads no instruction. If it is given one, the word that it writes
goes where it has read, below its own address and by a negative number in a register. -/
theorem faults_attempt_past_end :
    let o := { (Organism.newborn 0 0 ⟨7⟩).setRegister 1 (-1) with ip := 4096 }
    let h : Habitat := ⟨Memory.empty.set 4095 ⟨9, none⟩, .ofSeed 3 0, ⟨.one, 0⟩, 0⟩
    let i := Instruction.new .add ⟨.relative, -1⟩ ⟨.indirect, 1⟩
    o.act h = .error ⟨4096⟩ ∧ Organism.attempt.result ⟨o, h⟩ = (.error ⟨4096⟩, ⟨o, h⟩) ∧
    i.a.machineAddress? o = some 4095 ∧ i.b.machineAddress? o = some 4095 ∧
    h.memory.read 4095 = .ok (i.a.read o h.memory) ∧
    i.carryOut.Gives ⟨o, h⟩ ⟨.next, none⟩ ⟨o, h.write 4095 18 ⟨7⟩⟩ := by
  intro o h i
  obtain ⟨hexecute, hoperand, hattempt, hact, -⟩ := faults_attempt o h
  have ha : i.a.machineAddress? o = some 4095 := by decide +kernel
  have hb : i.b.machineAddress? o = some 4095 := by decide +kernel
  have hout : Address.count ≤ o.ip.toNat := by decide
  have hi := hexecute i
  have heffect : i.effect o h.memory 0 = .store 4095 18 := by decide +kernel
  rw [Instruction.execute_of_ne_rand (by decide), heffect] at hi
  exact ⟨(hact _).mpr ⟨hout, rfl⟩, (hattempt _ _).mpr ⟨hout, rfl, rfl⟩, ha, hb,
    ((hoperand i.a).2.2 _ ha).2, hi⟩

end Organism

end Vivarium
