import Vivarium.Proofs.Chronicle
import Vivarium.Proofs.Schedule

/-!
# Who wrote what is in the soup

* `Chronicle.cell` : the content of a cell as far as the chronicle tells;
* `Chronicle.Faithful` : a chronicle that knows the hues of the listed organisms, their births, and the
  content of every cell;
* `World.faithful_turn`, `World.lasting_faithful`, `World.Chronicled.faithful` : the chronicle stays so;
* `World.cell_of_chronicled` : each cell is what the last event at it has left there, with the hue that
  its writer was born with.
-/

namespace Vivarium

/-! ## What the chronicle tells -/

/-- What the event leaves in a cell, if it puts a word into it. -/
def Event.leaves (a : Address) : Event → Option Cell
  | loaded b v => if b = a then some ⟨v, none⟩ else none
  | cleared => some ⟨0, none⟩
  | wrote writer x => if x.address = a then some ⟨x.stored, some writer.hue⟩ else none
  | born _ | cycled _ => none

/-- The event puts a word into that cell, and no organism does it. -/
def Event.fills (a : Address) : Event → Bool
  | loaded b _ => b == a
  | cleared => true
  | born _ | wrote _ _ | cycled _ => false

namespace Chronicle

/-- What has happened since the cell was last filled from outside. -/
def sinceFilled (c : Chronicle) (a : Address) : List Event :=
  c.events.takeWhile fun e => !e.fills a

/-- The content of a cell as the last event at it has left it. -/
def cell (c : Chronicle) (a : Address) : Cell :=
  (c.events.findSome? (Event.leaves a)).getD ⟨0, none⟩

/-- The chronicle of a world whose organisms have these hues and whose soup is `m`. -/
structure Faithful (c : Chronicle) (hues : List Hue) (m : Memory) : Prop where
  hues : c.members.map Birth.hue = hues
  members : ∀ b ∈ c.members, .born b ∈ c.events
  writers : ∀ b x, .wrote b x ∈ c.events → .born b ∈ c.events
  cells : ∀ a, m.cell a = c.cell a

variable {c : Chronicle} {hues : List Hue} {m : Memory}

theorem cell_note (c : Chronicle) (e : Event) (a : Address) :
    (c.note e).cell a = (e.leaves a).getD (c.cell a) := by
  unfold cell note
  rw [List.findSome?_cons]
  cases e.leaves a <;> rfl

/-- Where nothing has put a word, there is an empty cell; elsewhere the last event says what is there. -/
theorem cell_eq (c : Chronicle) (a : Address) :
    c.cell a = ((c.lastAt a).bind (Event.leaves a)).getD ⟨0, none⟩ := by
  -- The events that touch the cell are those that leave something in it.
  have htouches : ∀ e : Event, e.touches a = (e.leaves a).isSome := by
    intro e
    cases e with
    | loaded b v => by_cases h : b = a <;> simp [Event.touches, Event.leaves, h]
    | wrote b x => by_cases h : x.address = a <;> simp [Event.touches, Event.leaves, h]
    | cleared | born | cycled => rfl
  unfold cell lastAt
  congr 1
  induction c.events with
  | nil => rfl
  | cons e es ih =>
    rw [List.findSome?_cons, List.find?_cons, htouches]
    cases h : e.leaves a with
    | none => exact ih
    | some x => simp [h]

/-- A cell without an owner is one that no organism has written since it was last filled. -/
theorem owner_cell_eq_none_iff (c : Chronicle) (a : Address) :
    (c.cell a).owner = none ↔ ∀ b x, .wrote b x ∈ c.sinceFilled a → x.address ≠ a := by
  unfold cell sinceFilled
  induction c.events with
  | nil => simp
  | cons e es ih =>
    rw [List.findSome?_cons, List.takeWhile_cons]
    cases e with
    | loaded b v => by_cases hb : b = a <;> grind [Event.leaves, Event.fills]
    | cleared => grind [Event.leaves, Event.fills]
    | wrote b x => by_cases hx : x.address = a <;> grind [Event.leaves, Event.fills]
    | born | cycled => grind [Event.leaves, Event.fills]

/-! ## Events one by one -/

theorem faithful_empty : empty.Faithful [] .empty where
  hues := rfl
  members b hb := absurd hb List.not_mem_nil
  writers b x hx := absurd hx List.not_mem_nil
  cells a := by simp [Memory.cell, Memory.empty, cell, empty]

/-- An event that is neither a birth nor a write of an organism. -/
theorem Faithful.note (h : c.Faithful hues m) {e : Event} (he : ∀ b x, e ≠ .wrote b x) {n : Memory}
    (hn : ∀ a, n.cell a = (e.leaves a).getD (m.cell a)) : (c.note e).Faithful hues n where
  hues := h.hues
  members b hb := List.mem_cons_of_mem e (h.members b hb)
  writers b x hx := by
    rcases List.mem_cons.mp hx with heq | hx
    · exact absurd heq.symm (he b x)
    · exact List.mem_cons_of_mem e (h.writers b x hx)
  cells a := by rw [hn, h.cells, cell_note]

theorem Faithful.noteWrite (h : c.Faithful hues m) {b : Birth} (hb : b ∈ c.members)
    (x : Option Write) : (c.noteWrite b x).Faithful hues (m.receive b.hue x) := by
  cases x with
  | none => exact h
  | some x =>
    refine ⟨h.hues, fun b' hb' => List.mem_cons_of_mem _ (h.members b' hb'), ?_, ?_⟩
    · intro b' x' hx
      apply List.mem_cons_of_mem
      rcases List.mem_cons.mp hx with heq | hx
      · cases heq
        exact h.members b hb
      · exact h.writers b' x' hx
    · intro a
      show (m.set _ _).cell a = (c.note _).cell a
      rw [cell_note, Memory.cell_set, h.cells]
      simp only [Event.leaves]
      split_ifs <;> rfl

theorem Faithful.welcome (h : c.Faithful hues m) (b : Birth) :
    (c.welcome b).Faithful (hues ++ [b.hue]) m where
  hues := by
    rw [← h.hues]
    exact List.map_append
  members b' hb' := by
    rcases List.mem_append.mp hb' with hb' | hb'
    · exact List.mem_cons_of_mem _ (h.members b' hb')
    · rw [List.mem_singleton.mp hb']
      exact List.mem_cons_self
  writers b' x hx := by
    rcases List.mem_cons.mp hx with heq | hx
    · cases heq
    · exact List.mem_cons_of_mem _ (h.writers b' x hx)
  cells := h.cells

theorem Faithful.load (h : c.Faithful hues m) (a : Address) (vs : List Word) :
    (c.load a vs).Faithful hues (m.load a vs) := by
  induction vs generalizing c m a with
  | nil => exact h
  | cons v vs ih =>
    refine ih (h.note (fun b x => by simp) fun b => ?_) (a + 1)
    rw [Memory.cell_set]
    simp only [Event.leaves]
    split_ifs <;> rfl

theorem survivors_sublist (os : List Organism) (bs : List Birth) : (survivors os bs).Sublist bs := by
  induction os generalizing bs with
  | nil => exact List.nil_sublist bs
  | cons o os ih =>
    cases bs with
    | nil => exact List.nil_sublist []
    | cons b bs =>
      rw [survivors, List.zip_cons_cons, List.filter_cons]
      split_ifs
      · exact (ih bs).cons_cons b
      · exact (ih bs).cons b

/-- What the births tell of the organisms in order, they tell of those who are alive. -/
theorem map_survivors {α : Type} {f : Birth → α} {g : Organism → α} {os : List Organism}
    {bs : List Birth} (h : bs.map f = os.map g) :
    (survivors os bs).map f = (os.filter (·.alive)).map g := by
  induction os generalizing bs with
  | nil => rfl
  | cons o os ih =>
    obtain ⟨b, bs, rfl, hb, hbs⟩ := List.map_eq_cons_iff.mp h
    rw [survivors, List.zip_cons_cons, List.filter_cons, List.filter_cons]
    split_ifs
    · exact congrArg₂ List.cons hb (ih hbs)
    · exact ih hbs

end Chronicle

/-! ## Worlds -/

namespace World

open Chronicle

def hues (w : World) : List Hue := w.population.toList.map (·.hue)

/-- The chronicle knows the world. -/
abbrev Faithful (w : World) (c : Chronicle) : Prop := c.Faithful w.hues w.memory

variable {w : World} {c : Chronicle}

/-- What no organism's own turn changes stays as it is in every turn, and the child's comes last. -/
theorem map_population_turn {α : Type} {f : Organism → α} (hf : ∀ o h, f (o.afterTurn h) = f o)
    {i : Nat} {o : Organism} (h : w.population[i]? = some o) :
    (w.turn i).population.toList.map f =
      w.population.toList.map f ++ (w.offspring i o).1.toList.map f := by
  obtain ⟨hi, rfl⟩ := List.getElem?_eq_some_iff.mp (Array.getElem?_toList ▸ h)
  rw [population_turn h, List.map_append, List.map_set, hf]
  congr 1
  rw [← List.getElem_map f, List.set_getElem_self]
  rwa [List.length_map]

/-- Nobody's hue changes in a turn. -/
theorem hues_turn {i : Nat} {o : Organism} (h : w.population[i]? = some o) :
    (w.turn i).hues = w.hues ++ (w.offspring i o).1.toList.map (·.hue) :=
  map_population_turn Organism.hue_afterTurn h

/-- The births stand in the order of the organisms, so the one at `i` is that of the organism at `i`. -/
theorem exists_member (h : w.Faithful c) {i : Nat} {o : Organism} (ho : w.population[i]? = some o) :
    ∃ b, c.members[i]? = some b ∧ b.hue = o.hue := by
  have hhue : (c.members.map Birth.hue)[i]? = some o.hue := by
    rw [h.hues, hues, List.getElem?_map, Array.getElem?_toList, ho]
    rfl
  exact Option.map_eq_some_iff.mp (List.getElem?_map ▸ hhue)

theorem faithful_turn (h : w.Faithful c) (i : Nat) : (w.turn i).Faithful (c.turn w i) := by
  unfold Chronicle.turn
  cases ho : w.population[i]? with
  | none =>
    rw [turn_eq_self ho]
    exact h
  | some o =>
    obtain ⟨b, hb, hbo⟩ := exists_member h ho
    have hmemory : (w.turn i).memory = w.memory.receive b.hue (o.writing w.habitat) := by
      rw [hbo, memory, turn_eq_parts ho]
      exact o.memory_perform w.habitat
    have hwrite := h.noteWrite (List.mem_of_getElem? hb) (o.writing w.habitat)
    rw [Faithful, hues_turn ho, hmemory]
    simp only [hb]
    cases (w.offspring i o).1 with
    | none =>
      rw [Option.toList_none, List.map_nil, List.append_nil]
      exact hwrite
    | some p => exact hwrite.welcome (.child _ p.hue b)

theorem faithful_reap (h : w.Faithful c) : w.reap.Faithful (c.reap w) where
  hues := by
    rw [hues, toList_reap]
    exact map_survivors h.hues
  members b hb := h.members b ((survivors_sublist _ _).subset hb)
  writers := h.writers
  cells := h.cells

theorem faithful_addRoot (h : w.Faithful c) (a : Address) :
    (w.addRoot a).1.Faithful (c.addRoot w a) := by
  unfold addRoot Chronicle.addRoot
  split_ifs
  · have hroot := h.welcome (.root c.births (Organism.root a w.lineage).1.hue)
    rw [Faithful, hues, Array.toList_push, List.map_append]
    exact hroot
  · exact h

theorem faithful_reset (h : w.Faithful c) : w.reset.Faithful c.reset where
  hues := rfl
  members b hb := absurd hb List.not_mem_nil
  writers b x hx := by
    rcases List.mem_cons.mp hx with heq | hx
    · cases heq
    · exact List.mem_cons_of_mem _ (h.writers b x hx)
  cells a := faithful_empty.cells a

/-- Whatever is asked of a world, its chronicle goes on to know it. -/
theorem lasting_faithful : Lasting Faithful where
  load h a vs := h.load a vs
  addRoot := faithful_addRoot
  setRate h _ := h
  setMaxAge h _ := h
  step := step_of_turns faithful_reap faithful_turn fun h _ => h.note (fun b x => by simp) fun _ => rfl
  reset := faithful_reset

/-! ## Attribution -/

theorem Chronicled.faithful (h : w.Chronicled c) : w.Faithful c :=
  lasting_faithful.of_chronicled (fun _ _ => faithful_empty) h

/-- In a world that no snapshot has entered, a cell holds what the last event at it has left there. If
that was a load, it is the word loaded, without an owner; if it was an organism's write, it is the
word stored, with the hue that this organism was born with. All other cells are empty. -/
theorem cell_of_chronicled (h : w.Chronicled c) (a : Address) :
    (match c.lastAt a with
      | some (.loaded _ v) => w.memory.word a = v ∧ w.memory.owner a = none
      | some (.wrote b x) =>
        .born b ∈ c.events ∧ w.memory.word a = x.stored ∧ w.memory.owner a = some b.hue
      | _ => w.memory.word a = 0 ∧ w.memory.owner a = none) ∧
    (w.memory.owner a = none ↔ ∀ b x, .wrote b x ∈ c.sinceFilled a → x.address ≠ a) := by
  have hcell : w.memory.cell a = c.cell a := h.faithful.cells a
  refine ⟨?_, ?_⟩
  · rw [Memory.word, Memory.owner, hcell, cell_eq]
    cases hlast : c.lastAt a with
    | none => exact ⟨rfl, rfl⟩
    | some e =>
      have htouch : e.touches a = true := List.find?_some hlast
      cases e with
      | loaded b v =>
        simp only [Event.touches, beq_iff_eq] at htouch
        simp [Event.leaves, htouch]
      | cleared => exact ⟨rfl, rfl⟩
      | wrote b x =>
        simp only [Event.touches, beq_iff_eq] at htouch
        have hborn := h.faithful.writers b x (List.mem_of_find?_eq_some hlast)
        simp [Event.leaves, htouch, hborn]
      | born | cycled => cases htouch
  · rw [Memory.owner, hcell]
    exact owner_cell_eq_none_iff c a

/-- A copying program across the end of the ring, at a rate of one. Its first copy is altered on its
way to cell 2. -/
theorem cell_of_chronicled_altered :
    let w := ofConfig ⟨.one, 9, 3, 2, some 7⟩ 0
    let v := w.performAll [.plant 4094 (Ancestor.program 3 4), .step]
    let c := Chronicle.empty.performAll w [.plant 4094 (Ancestor.program 3 4), .step]
    c.lastAt 2 = some (.wrote (.root 0 ⟨237⟩) ⟨2, 0x14001004, .one, 0x14001024⟩) ∧
      .born (.root 0 ⟨237⟩) ∈ c.events ∧ v.memory.word 2 = 0x14001024 ∧
      v.memory.owner 2 = some ⟨237⟩ := by
  intro w v c
  have hlast :
      c.lastAt 2 = some (.wrote (.root 0 ⟨237⟩) ⟨2, 0x14001004, .one, 0x14001024⟩) := by
    decide +kernel
  have hv : v.Chronicled c := (Chronicled.fresh _ _).performAll (by simp)
  have hcell := (cell_of_chronicled hv 2).1
  rw [hlast] at hcell
  exact ⟨hlast, hcell⟩

end World

end Vivarium
