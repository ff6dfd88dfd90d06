import Vivarium.Proofs.Reachability

/-!
# Chronicles

A chronicle is what an observer writes down who watches a world from its beginning. The world does not
depend on it. It remembers what the world itself forgets, so that statements about whole lives of
worlds can be made.

* `Organism.writing` : the write that an organism makes when it acts, if it makes one;
* `Birth` : an organism's birth, with those of its ancestors; `Event` : what can happen in a world;
* `Chronicle.turn`, `Chronicle.step`, `Chronicle.perform` : how the chronicle of a world goes on;
* `World.Chronicled` : the worlds that come about without a snapshot, each with its chronicle;
* `Chronicle.cycles` : the number of cycles since the beginning or the last reset;
* `Chronicle.turn_of_notes`, `Chronicle.load_of_notes`, `Chronicle.addRoot_of_notes` : a chronicle goes on
  event by event;
* `Chronicle.Uneventful` : what goes on within a cycle, or between two, adds no cycle and no reset;
* `World.Lasting` : what each thing that can happen preserves holds for the whole life of a world
  (`World.Lasting.performAll`, `World.Lasting.of_chronicled`).
-/

namespace Vivarium

/-! ## Writes -/

/-- A write to the soup as it takes place. -/
structure Write where
  address : Address
  /-- What the instruction gives. -/
  meant : Word
  /-- The rate in force. -/
  rate : Binary64
  /-- What reaches the cell. -/
  stored : Word
deriving DecidableEq

/-- The write that an instruction makes. -/
def Instruction.writing (i : Instruction) (o : Organism) (h : Habitat) : Option Write :=
  match i.effect o h.memory (i.draw h.stream).1 with
  | .store a v => some ⟨a, v, h.settings.rate, { h with stream := (i.draw h.stream).2 }.altered v⟩
  | _ => none

/-- The write that an organism makes when it acts. -/
def Organism.writing (o : Organism) (h : Habitat) : Option Write :=
  match h.memory.read o.ip with
  | .ok w => (Instruction.ofWord w).writing o h
  | .error _ => none

/-- A write leaves the word stored and the writer's hue in its cell. -/
def Memory.receive (m : Memory) (hue : Hue) : Option Write → Memory
  | none => m
  | some x => m.set x.address ⟨x.stored, some hue⟩

theorem Instruction.memory_execute (i : Instruction) (o : Organism) (h : Habitat) :
    (i.execute o h).habitat.memory = h.memory.receive o.hue (i.writing o h) := by
  rw [execute_eq]
  unfold writing
  cases i.effect o h.memory (i.draw h.stream).1 with
  | store a v => simp only [Effect.apply, Habitat.memory_write, Memory.receive]
  | pass | assign | jump | skip | spawn | tune | die => rfl

/-- The soup changes by the organism's own write alone. -/
theorem Organism.memory_perform (o : Organism) (h : Habitat) :
    (o.perform h).habitat.memory = h.memory.receive o.hue (o.writing h) := by
  unfold perform writing
  cases h.memory.read o.ip with
  | ok w => exact Instruction.memory_execute _ o h
  | error e => rfl

/-! ## Events -/

/-- The birth of an organism. Births are numbered in the order in which they take place. -/
inductive Birth
  | root (number : Nat) (hue : Hue)
  | child (number : Nat) (hue : Hue) (parent : Birth)
deriving DecidableEq

/-- The hue that the organism is born with. -/
def Birth.hue : Birth → Hue
  | root _ hue => hue
  | child _ hue _ => hue

/-- Something that happens in a world. -/
inductive Event
  /-- A word is put into a cell from outside. -/
  | loaded (a : Address) (v : Word)
  /-- The world is reset. -/
  | cleared
  | born (b : Birth)
  | wrote (writer : Birth) (x : Write)
  /-- A cycle ends with that many organisms alive. -/
  | cycled (living : Nat)
deriving DecidableEq

namespace Event

def isBirth : Event → Bool
  | born _ => true
  | _ => false

def isCycle : Event → Bool
  | cycled _ => true
  | _ => false

/-- The event puts a word into that cell. -/
def touches (a : Address) : Event → Bool
  | loaded b _ => b == a
  | cleared => true
  | wrote _ x => x.address == a
  | born _ | cycled _ => false

end Event

/-- The births of the organisms that are listed, in the order of the list, and all that has happened,
newest first. -/
structure Chronicle where
  members : List Birth
  events : List Event
deriving DecidableEq

namespace Chronicle

def empty : Chronicle := ⟨[], []⟩

def note (c : Chronicle) (e : Event) : Chronicle := { c with events := e :: c.events }

/-- The number of the next birth. -/
def births (c : Chronicle) : Nat := c.events.countP Event.isBirth

/-- A new organism comes last in the list. -/
def welcome (c : Chronicle) (b : Birth) : Chronicle := ⟨c.members ++ [b], .born b :: c.events⟩

def noteWrite (c : Chronicle) (writer : Birth) : Option Write → Chronicle
  | none => c
  | some x => c.note (.wrote writer x)

def noteChild (c : Chronicle) (parent : Birth) : Option Organism → Chronicle
  | none => c
  | some o => c.welcome (.child c.births o.hue parent)

/-! ## Going on -/

/-- After the turn of organism `i` in the world `w`. -/
def turn (c : Chronicle) (w : World) (i : Nat) : Chronicle :=
  match w.population[i]?, c.members[i]? with
  | some o, some b => (c.noteWrite b (o.writing w.habitat)).noteChild b (w.offspring i o).1
  | _, _ => c

/-- After the turns of these organisms, one after another. -/
def turns : List Nat → World → Chronicle → Chronicle
  | [], _, c => c
  | i :: is, w, c => turns is (w.turn i) (c.turn w i)

/-- The births of those who are alive. -/
def survivors (os : List Organism) (bs : List Birth) : List Birth :=
  ((os.zip bs).filter fun (o, _) => o.alive).map Prod.snd

def reap (c : Chronicle) (w : World) : Chronicle :=
  { c with members := survivors w.population.toList c.members }

def step (c : Chronicle) (w : World) : Chronicle :=
  if w.extinct then c.reap w
  else (turns (List.range w.livingCount) w.reap (c.reap w)).note (.cycled w.step.livingCount)

def run : Nat → World → Chronicle → Chronicle
  | 0, _, c => c
  | n + 1, w, c => if w.extinct then c else run n w.step (c.step w)

def load (c : Chronicle) (a : Address) : List Word → Chronicle
  | [] => c
  | v :: vs => (c.note (.loaded a v)).load (a + 1) vs

def addRoot (c : Chronicle) (w : World) (a : Address) : Chronicle :=
  if w.hasRoom then c.welcome (.root c.births (Organism.root a w.lineage).1.hue) else c

def reset (c : Chronicle) : Chronicle := ⟨[], .cleared :: c.events⟩

/-- After a request. Worlds from snapshots have no chronicle, so nothing is said of them. -/
def perform (c : Chronicle) (w : World) : Request → Chronicle
  | .load start vs => c.load (.ofUInt64 start) vs
  | .plant start vs =>
    (c.load (.ofUInt64 start) vs).addRoot (w.load (.ofUInt64 start) vs) (.ofUInt64 start)
  | .addRoot ip => c.addRoot w (.ofUInt64 ip)
  | .step => c.step w
  | .run n => run n.toNat w c
  | .setRate _ => c
  | .setMaxAge _ => c
  | .reset => c.reset
  | .replace _ => c

/-- After a list of requests. -/
def performAll (c : Chronicle) (w : World) : List Request → Chronicle
  | [] => c
  | r :: rs => (c.perform w r).performAll (w.perform r).1 rs

/-- The number of cycles since the beginning or the last reset. -/
def cycles (c : Chronicle) : Nat := (c.events.takeWhile (· ≠ .cleared)).countP Event.isCycle

/-- The last event that put a word into the cell. -/
def lastAt (c : Chronicle) (a : Address) : Option Event := c.events.find? (Event.touches a)

/-! ## Notes -/

section Notes

variable {Q : Chronicle → Prop} {c : Chronicle}

/-- A turn adds a write and a birth at most. -/
theorem turn_of_notes (hwrote : ∀ {c}, Q c → ∀ b x, Q (c.note (.wrote b x)))
    (hborn : ∀ {c}, Q c → ∀ b, Q (c.welcome b)) (h : Q c) (w : World) (i : Nat) : Q (c.turn w i) := by
  unfold turn
  split
  · rename_i o b _ _
    have hwrite : Q (c.noteWrite b (o.writing w.habitat)) := by
      cases o.writing w.habitat with
      | none => exact h
      | some x => exact hwrote h b x
    cases (w.offspring i o).1 with
    | none => exact hwrite
    | some p => exact hborn hwrite _
  · exact h

theorem load_of_notes (hloaded : ∀ {c}, Q c → ∀ a v, Q (c.note (.loaded a v))) (h : Q c) (a : Address)
    (vs : List Word) : Q (c.load a vs) := by
  induction vs generalizing c a with
  | nil => exact h
  | cons v vs ih => exact ih (hloaded h a v) (a + 1)

theorem addRoot_of_notes (hborn : ∀ {c}, Q c → ∀ b, Q (c.welcome b)) (h : Q c) (w : World)
    (a : Address) : Q (c.addRoot w a) := by
  unfold addRoot
  split_ifs
  · exact hborn h _
  · exact h

end Notes

/-! ## Between cycles -/

/-- From `c` to `d` no cycle ends and nothing is reset. -/
def Uneventful (c d : Chronicle) : Prop :=
  ∃ es, d.events = es ++ c.events ∧ ∀ e ∈ es, e ≠ .cleared ∧ e.isCycle = false

theorem Uneventful.of_events_eq {c d : Chronicle} (h : d.events = c.events) : c.Uneventful d :=
  ⟨[], h, fun _ he => absurd he List.not_mem_nil⟩

theorem Uneventful.refl (c : Chronicle) : c.Uneventful c := .of_events_eq rfl

theorem Uneventful.trans {b c d : Chronicle} (hbc : b.Uneventful c) (hcd : c.Uneventful d) :
    b.Uneventful d := by
  obtain ⟨es, hes, hquiet⟩ := hbc
  obtain ⟨fs, hfs, hquiet'⟩ := hcd
  refine ⟨fs ++ es, by rw [hfs, hes, List.append_assoc], fun e he => ?_⟩
  rcases List.mem_append.mp he with he | he
  · exact hquiet' e he
  · exact hquiet e he

theorem Uneventful.note {c d : Chronicle} (h : c.Uneventful d) {e : Event} (hcleared : e ≠ .cleared)
    (hcycle : e.isCycle = false) : c.Uneventful (d.note e) := by
  refine h.trans ⟨[e], rfl, fun f hf => ?_⟩
  rw [List.mem_singleton.mp hf]
  exact ⟨hcleared, hcycle⟩

theorem Uneventful.welcome {c d : Chronicle} (h : c.Uneventful d) (b : Birth) :
    c.Uneventful (d.welcome b) :=
  h.note (e := .born b) (by simp) rfl

variable (c : Chronicle)

theorem uneventful_turn (w : World) (i : Nat) : c.Uneventful (c.turn w i) :=
  turn_of_notes (fun h _ _ => h.note (by simp) rfl) .welcome (.refl c) w i

theorem uneventful_turns (is : List Nat) (w : World) : c.Uneventful (turns is w c) := by
  induction is generalizing w c with
  | nil => exact .refl c
  | cons i is ih => exact (c.uneventful_turn w i).trans (ih (c.turn w i) (w.turn i))

theorem uneventful_reap (w : World) : c.Uneventful (c.reap w) := .of_events_eq rfl

theorem uneventful_load (a : Address) (vs : List Word) : c.Uneventful (c.load a vs) :=
  load_of_notes (fun h _ _ => h.note (by simp) rfl) (.refl c) a vs

theorem uneventful_addRoot (w : World) (a : Address) : c.Uneventful (c.addRoot w a) :=
  addRoot_of_notes .welcome (.refl c) w a

end Chronicle

/-- The worlds that come about without a snapshot, each with its chronicle. -/
inductive World.Chronicled : World → Chronicle → Prop
  | fresh (config : Config) (seed : UInt64) : Chronicled (ofConfig config seed) .empty
  | after {w : World} {c : Chronicle} (h : Chronicled w c) (r : Request) (hr : ∀ s, r ≠ .replace s) :
    Chronicled (w.perform r).1 (c.perform w r)

theorem World.Chronicled.performAll {w : World} {c : Chronicle} (h : w.Chronicled c)
    {rs : List Request} (hrs : ∀ s, .replace s ∉ rs) :
    (w.performAll rs).Chronicled (c.performAll w rs) := by
  induction rs generalizing w c with
  | nil => exact h
  | cons r rs ih =>
    refine ih (h.after r fun s hs => ?_) fun s hs => ?_
    · exact hrs s (hs ▸ List.mem_cons_self)
    · exact hrs s (List.mem_cons_of_mem r hs)

theorem World.Chronicled.sound {w : World} {c : Chronicle} (h : w.Chronicled c) : w.Sound := by
  induction h with
  | fresh config seed => exact sound_ofConfig config seed
  | after _ r _ ih => exact sound_perform ih r

/-! ## What lasts -/

namespace World

/-- What stays true of a world and its chronicle, whatever is asked for but another world. -/
structure Lasting (P : World → Chronicle → Prop) : Prop where
  load : ∀ {w c}, P w c → ∀ a vs, P (w.load a vs) (c.load a vs)
  addRoot : ∀ {w c}, P w c → ∀ a, P (w.addRoot a).1 (c.addRoot w a)
  setRate : ∀ {w c}, P w c → ∀ rate, P (w.setRate rate) c
  setMaxAge : ∀ {w c}, P w c → ∀ maxAge, P (w.setMaxAge maxAge) c
  step : ∀ {w c}, P w c → P w.step (c.step w)
  reset : ∀ {w c}, P w c → P w.reset c.reset

variable {P : World → Chronicle → Prop} {w : World} {c : Chronicle}

/-- A cycle preserves what its parts preserve: the removal of the dead, the turns, and its count. -/
theorem step_of_turns (hreap : ∀ {w c}, P w c → P w.reap (c.reap w))
    (hturn : ∀ {w c}, P w c → ∀ i, P (w.turn i) (c.turn w i))
    (hrecord : ∀ {w c}, P w c → ∀ n, P w.record (c.note (.cycled n))) (h : P w c) :
    P w.step (c.step w) := by
  have hturns : ∀ (is : List Nat) {w c}, P w c → P (is.foldl turn w) (Chronicle.turns is w c) := by
    intro is
    induction is with
    | nil => exact id
    | cons i is ih => exact fun h => ih (hturn h i)
  unfold Chronicle.step
  cases hl : w.extinct with
  | true =>
    rw [step_of_extinct hl]
    exact hreap h
  | false =>
    rw [if_neg Bool.false_ne_true, step_of_living hl]
    exact hrecord (hturns (List.range w.livingCount) (hreap h)) _

namespace Lasting

theorem run (hP : Lasting P) (n : Nat) (h : P w c) : P (w.run n) (c.run n w) := by
  induction n generalizing w c with
  | zero => exact h
  | succ n ih =>
    rw [World.run, Chronicle.run]
    split
    · exact h
    · exact ih (hP.step h)

theorem perform (hP : Lasting P) (h : P w c) {r : Request} (hr : ∀ s, r ≠ .replace s) :
    P (w.perform r).1 (c.perform w r) := by
  cases r with
  | load start vs => exact hP.load h _ vs
  | plant start vs => exact hP.addRoot (hP.load h _ vs) _
  | addRoot ip => exact hP.addRoot h _
  | step => exact hP.step h
  | run n => exact hP.run n.toNat h
  | setRate rate => exact hP.setRate h rate
  | setMaxAge maxAge => exact hP.setMaxAge h maxAge
  | reset => exact hP.reset h
  | replace s => exact absurd rfl (hr s)

theorem performAll (hP : Lasting P) (h : P w c) {rs : List Request} (hrs : ∀ s, .replace s ∉ rs) :
    P (w.performAll rs) (c.performAll w rs) := by
  induction rs generalizing w c with
  | nil => exact h
  | cons r rs ih =>
    refine ih (hP.perform h fun s hs => ?_) fun s hs => ?_
    · exact hrs s (hs ▸ List.mem_cons_self)
    · exact hrs s (List.mem_cons_of_mem r hs)

/-- What is true of fresh worlds and lasts is true of every world that no snapshot has entered. -/
theorem of_chronicled (hP : Lasting P) (hfresh : ∀ config seed, P (ofConfig config seed) .empty)
    (h : w.Chronicled c) : P w c := by
  induction h with
  | fresh config seed => exact hfresh config seed
  | after _ r hr ih => exact hP.perform ih hr

end Lasting

end World

end Vivarium
