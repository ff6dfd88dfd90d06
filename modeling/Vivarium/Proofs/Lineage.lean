import Vivarium.Proofs.Attribution

/-!
# Lines of descent

An organism keeps the hue that it is born with, so all that can be said of hues is said of births. A line
begins with a root and goes on from parent to child, also after the root has died and is listed no more;
from one birth to the next the hue moves by ten degrees at most.

* `Hue.distance` : the angle between two hues; `Hue.distance_le_iff` : it is the least shift from the one to
  the other, from which `Hue.distance_triangle` and `Hue.distance_drift_le` follow;
* `Birth.founder`, `Birth.generation` : where a line begins, and how long ago;
* `Birth.Follows`, `Event.Orderly` : how a birth stands to those before it;
* `Organism.Descends`, `Event.Orderly.line` : how an organism stands to its founder;
* `World.Genealogy`, `World.genealogy_turn`, `World.lasting_genealogy` : the chronicle knows the line of
  everybody who is listed;
* `Chronicle.ByBirth`, `World.lasting_byBirth` : nobody comes to be listed but by birth;
* `World.drift_of_chronicled` : how far hues drift.
-/

namespace Vivarium

/-! ## The colour wheel -/

namespace Hue

/-- The angle between two hues in degrees, the shorter way round the wheel. -/
def distance (g h : Hue) : Nat :=
  let forward := ((h.degrees.toNat : Int) - g.degrees.toNat) % 360
  (min forward (360 - forward)).toNat

variable {f g h : Hue}

/-- Two hues are that close iff a shift of no more degrees, either way, takes the one to the other. -/
theorem distance_le_iff {n : Nat} : g.distance h ≤ n ↔
    ∃ shift : Int, shift.natAbs ≤ n ∧ h.degrees.toNat ≡ g.degrees.toNat + shift [ZMOD 360] := by
  simp only [distance, Int.ModEq]
  constructor
  · intro hle
    by_cases hforward : ((h.degrees.toNat : Int) - g.degrees.toNat) % 360 ≤ 180
    · exact ⟨((h.degrees.toNat : Int) - g.degrees.toNat) % 360, by omega, by omega⟩
    · exact ⟨((h.degrees.toNat : Int) - g.degrees.toNat) % 360 - 360, by omega, by omega⟩
  · rintro ⟨shift, hshift, hmod⟩
    omega

theorem distance_self (h : Hue) : h.distance h = 0 := by
  simp [distance]

theorem distance_le_half (g h : Hue) : g.distance h ≤ 180 := by
  simp only [distance]
  omega

theorem distance_triangle (f g h : Hue) : f.distance h ≤ f.distance g + g.distance h := by
  obtain ⟨first, hfirst, hg⟩ := distance_le_iff.mp (Nat.le_refl (f.distance g))
  obtain ⟨second, hsecond, hh⟩ := distance_le_iff.mp (Nat.le_refl (g.distance h))
  refine distance_le_iff.mpr ⟨first + second, by omega, ?_⟩
  rw [← Int.add_assoc]
  exact hh.trans (hg.add_right second)

theorem toNat_degrees_wrap (angle : Nat) : (wrap angle).degrees.toNat = angle % 360 := by
  simp only [wrap, count, UInt16.toNat_ofNat']
  omega

/-- The draw is one of twenty-one shifts, from ten degrees back to ten degrees on. -/
theorem distance_drift_le (h : Hue) (s : Stream) : h.distance (h.drift s).1 ≤ 10 := by
  have hdraw : (s.below 21).1 < 21 := Stream.below_lt (by decide) s
  have hdegrees : (h.drift s).1.degrees.toNat = (h.degrees.toNat + (s.below 21).1 + 350) % 360 :=
    toNat_degrees_wrap _
  refine distance_le_iff.mpr ⟨(s.below 21).1 - 10, by omega, ?_⟩
  rw [hdegrees, Int.ModEq]
  push_cast
  omega

end Hue

/-! ## Births -/

namespace Birth

def number : Birth → Nat
  | root number _ => number
  | child number _ _ => number

def parent? : Birth → Option Birth
  | root _ _ => none
  | child _ _ parent => some parent

/-- The birth with which the line begins. -/
def founder : Birth → Birth
  | root number hue => root number hue
  | child _ _ parent => parent.founder

/-- The number of births in the line after the founder's. -/
def generation : Birth → Nat
  | root _ _ => 0
  | child _ _ parent => parent.generation + 1

/-- The generation as far as thirty-two bits count it. -/
def depth (b : Birth) : Nat := min b.generation (2 ^ 32 - 1)

/-- How a birth stands to what has happened before, newest first: its number is that of the births until
then, its hue is on the wheel, and a parent was born before it and had a hue close to its own. -/
structure Follows (b : Birth) (past : List Event) : Prop where
  number : b.number = past.countP Event.isBirth
  hue : b.hue.Valid
  parent : ∀ p ∈ b.parent?, .born p ∈ past ∧ p.hue.distance b.hue ≤ 10

end Birth

/-- How an organism stands to the birth that a record has of it. It has kept the hue that it was born with,
and its depth counts the births since a root, which came earlier by as many births at least. From the hue
of that root its own is not farther away than ten degrees for each of them. -/
structure Organism.Descends (o : Organism) (b : Birth) (es : List Event) : Prop where
  born : .born b ∈ es
  hue : o.hue = b.hue
  depth : o.depth.toNat = min b.generation (2 ^ 32 - 1)
  root : ∃ number hue, b.founder = .root number hue ∧ .born (.root number hue) ∈ es ∧
    number + b.generation ≤ b.number ∧ hue.distance o.hue ≤ 10 * o.depth.toNat

namespace Event

/-- Every birth among events, newest first, stands to those before it as it should. -/
def Orderly (es : List Event) : Prop := ∀ b past, .born b :: past <:+ es → b.Follows past

/-- The birth that the event is, if it is one. -/
def birth? : Event → Option Birth
  | born b => some b
  | loaded _ _ | cleared | wrote _ _ | cycled _ => none

variable {es past : List Event}

theorem orderly_nil : Orderly [] := by
  intro b past h
  cases List.suffix_nil.mp h

theorem Orderly.cons (h : Orderly es) {e : Event} (he : ∀ b, e = .born b → b.Follows es) :
    Orderly (e :: es) := by
  intro b past hsuffix
  rcases List.suffix_cons_iff.mp hsuffix with heq | hsuffix
  · obtain ⟨hb, rfl⟩ := List.cons.inj heq
    exact he b hb.symm
  · exact h b past hsuffix

theorem exists_past {b : Birth} (hb : .born b ∈ es) : ∃ past, .born b :: past <:+ es := by
  obtain ⟨since, past, rfl⟩ := List.append_of_mem hb
  exact ⟨past, List.suffix_append since _⟩

/-- The earlier of two births has the smaller number. -/
theorem Orderly.number_lt (h : Orderly es) {b p : Birth} (hb : .born b :: past <:+ es)
    (hp : .born p ∈ past) : p.number < b.number := by
  obtain ⟨before, hbefore⟩ := exists_past hp
  have hpast : past <:+ es := (List.suffix_cons _ _).trans hb
  rw [(h p before (hbefore.trans hpast)).number, (h b past hb).number]
  calc before.countP isBirth < (.born p :: before).countP isBirth := by
        rw [List.countP_cons_of_pos rfl]
        exact Nat.lt_succ_self _
    _ ≤ past.countP isBirth := hbefore.sublist.countP_le

/-- A line goes back to a root, through births that are all on record, and each of them moves the hue a
little. -/
theorem Orderly.line (h : Orderly es) {b : Birth} (hb : .born b ∈ es) :
    ∃ number hue, b.founder = .root number hue ∧ .born (.root number hue) ∈ es ∧
      number + b.generation ≤ b.number ∧ hue.distance b.hue ≤ 10 * b.generation := by
  induction b with
  | root number hue => exact ⟨number, hue, rfl, hb, Nat.le_refl _, (Hue.distance_self hue).le⟩
  | child number hue parent ih =>
    obtain ⟨past, hpast⟩ := exists_past hb
    obtain ⟨hparent, hclose⟩ := (h _ past hpast).parent parent rfl
    have hlt := h.number_lt hpast hparent
    obtain ⟨n, g, hroot, hborn, hnumber, hfar⟩ :=
      ih (((List.suffix_cons _ _).trans hpast).subset hparent)
    have htriangle := Hue.distance_triangle g parent.hue hue
    refine ⟨n, g, hroot, hborn, ?_, ?_⟩
    · rw [Birth.generation]
      omega
    · show g.distance hue ≤ 10 * (parent.generation + 1)
      change parent.hue.distance hue ≤ 10 at hclose
      omega

end Event

/-! ## Going on -/

namespace Chronicle

variable {c d : Chronicle}

theorem members_noteWrite (c : Chronicle) (writer : Birth) (x : Option Write) :
    (c.noteWrite writer x).members = c.members := by
  cases x <;> rfl

theorem members_load (c : Chronicle) (a : Address) (vs : List Word) :
    (c.load a vs).members = c.members :=
  load_of_notes (Q := fun d => d.members = c.members) (fun h _ _ => h) rfl a vs

theorem orderly_noteWrite (h : Event.Orderly c.events) (writer : Birth) (x : Option Write) :
    Event.Orderly (c.noteWrite writer x).events := by
  cases x with
  | none => exact h
  | some x => exact h.cons fun b hb => by cases hb

theorem orderly_load (h : Event.Orderly c.events) (a : Address) (vs : List Word) :
    Event.Orderly (c.load a vs).events :=
  load_of_notes (Q := fun d => Event.Orderly d.events) (fun h _ _ => h.cons fun b hb => by cases hb) h
    a vs

/-- From `c` to `d` nobody has come to be listed but by birth: first are some of those who were listed before,
in the same order, then some of those who were born since. -/
def ByBirth (c d : Chronicle) : Prop :=
  ∃ es, d.events = es ++ c.events ∧
    d.members.Sublist (c.members ++ (es.filterMap Event.birth?).reverse)

namespace ByBirth

theorem refl (c : Chronicle) : c.ByBirth c := ⟨[], rfl, by simp⟩

theorem note (h : c.ByBirth d) {e : Event} (he : e.birth? = none) : c.ByBirth (d.note e) := by
  obtain ⟨es, hes, hmembers⟩ := h
  refine ⟨e :: es, congrArg (List.cons e) hes, ?_⟩
  rw [List.filterMap_cons_none he]
  exact hmembers

theorem welcome (h : c.ByBirth d) (b : Birth) : c.ByBirth (d.welcome b) := by
  obtain ⟨es, hes, hmembers⟩ := h
  have hbirth : (Event.born b).birth? = some b := rfl
  refine ⟨.born b :: es, congrArg (Event.born b :: ·) hes, ?_⟩
  rw [List.filterMap_cons_some hbirth, List.reverse_cons, ← List.append_assoc]
  exact hmembers.append_right [b]

theorem turn (h : c.ByBirth d) (w : World) (i : Nat) : c.ByBirth (d.turn w i) :=
  turn_of_notes (fun h _ _ => h.note rfl) welcome h w i

theorem reap (h : c.ByBirth d) (w : World) : c.ByBirth (d.reap w) := by
  obtain ⟨es, hes, hmembers⟩ := h
  exact ⟨es, hes, (survivors_sublist _ _).trans hmembers⟩

theorem load (h : c.ByBirth d) (a : Address) (vs : List Word) : c.ByBirth (d.load a vs) :=
  load_of_notes (fun h _ _ => h.note rfl) h a vs

theorem addRoot (h : c.ByBirth d) (w : World) (a : Address) : c.ByBirth (d.addRoot w a) :=
  addRoot_of_notes welcome h w a

theorem reset (h : c.ByBirth d) : c.ByBirth d.reset := by
  obtain ⟨es, hes, -⟩ := h
  exact ⟨.cleared :: es, congrArg (Event.cleared :: ·) hes, List.nil_sublist _⟩

end ByBirth

end Chronicle

/-! ## Worlds -/

namespace World

open Chronicle

/-- The chronicle knows of everybody who is listed how long the line is, and has all births in order. -/
structure Genealogy (w : World) (c : Chronicle) : Prop where
  faithful : w.Faithful c
  depths : c.members.map Birth.depth = w.population.toList.map (·.depth.toNat)
  orderly : Event.Orderly c.events

variable {w : World} {c : Chronicle} {i : Nat} {o p : Organism}

theorem distance_offspring_le (h : (w.offspring i o).1 = some p) : o.hue.distance p.hue ≤ 10 := by
  obtain ⟨-, a, -, rfl⟩ := childOf_eq_some h
  rw [← (o.keeps_perform w.habitat).hue]
  exact Hue.distance_drift_le _ _

/-- The birth of a child that is born now. -/
theorem follows_child {b : Birth} (hb : .born b ∈ c.events) (hhue : b.hue = o.hue)
    (hp : (w.offspring i o).1 = some p) : (Birth.child c.births p.hue b).Follows c.events where
  number := rfl
  hue := (sound_offspring hp).hue
  parent := by
    rintro q ⟨rfl⟩
    refine ⟨hb, ?_⟩
    rw [hhue]
    exact distance_offspring_le hp

theorem depth_child {b : Birth} (hdepth : b.depth = o.depth.toNat) (hp : (w.offspring i o).1 = some p)
    (n : Nat) : (Birth.child n p.hue b).depth = p.depth.toNat := by
  obtain ⟨a, -, hchild⟩ := isChild_offspring hp
  rw [hchild.depth, ← hdepth]
  simp only [Birth.depth, Birth.generation]
  omega

theorem Genealogy.exists_birth (h : w.Genealogy c) (ho : w.population[i]? = some o) :
    ∃ b, c.members[i]? = some b ∧ b.hue = o.hue ∧ b.depth = o.depth.toNat := by
  obtain ⟨b, hb, hhue⟩ := exists_member h.faithful ho
  have hdepth := congrArg (·[i]?) h.depths
  simp only [List.getElem?_map, hb, Array.getElem?_toList, ho, Option.map_some, Option.some.injEq]
    at hdepth
  exact ⟨b, hb, hhue, hdepth⟩

theorem genealogy_turn (h : w.Genealogy c) (i : Nat) : (w.turn i).Genealogy (c.turn w i) := by
  cases ho : w.population[i]? with
  | none =>
    have hsame : c.turn w i = c := by simp only [Chronicle.turn, ho]
    rw [turn_eq_self ho, hsame]
    exact h
  | some o =>
    obtain ⟨b, hb, hhue, hdepth⟩ := h.exists_birth ho
    have hmember : b ∈ c.members := List.mem_of_getElem? hb
    have hturn : c.turn w i =
        (c.noteWrite b (o.writing w.habitat)).noteChild b (w.offspring i o).1 := by
      simp only [Chronicle.turn, ho, hb]
    refine ⟨faithful_turn h.faithful i, ?_, ?_⟩ <;> rw [hturn]
    · rw [map_population_turn (fun o h => congrArg UInt32.toNat (o.depth_afterTurn h)) ho, ← h.depths]
      cases hp : (w.offspring i o).1 with
      | none => simp [noteChild, members_noteWrite]
      | some p => simp [noteChild, welcome, members_noteWrite, depth_child hdepth hp]
    · -- The organism's write comes before the birth, and leaves its own birth on record.
      have hwrite := orderly_noteWrite h.orderly b (o.writing w.habitat)
      have hborn : .born b ∈ (c.noteWrite b (o.writing w.habitat)).events :=
        (h.faithful.noteWrite hmember (o.writing w.habitat)).members b (by rwa [members_noteWrite])
      cases hp : (w.offspring i o).1 with
      | none => exact hwrite
      | some p =>
        refine hwrite.cons fun x hx => ?_
        obtain rfl := Event.born.inj hx
        exact follows_child hborn hhue hp

theorem genealogy_reap (h : w.Genealogy c) : w.reap.Genealogy (c.reap w) where
  faithful := faithful_reap h.faithful
  depths := by
    rw [toList_reap]
    exact map_survivors h.depths
  orderly := h.orderly

theorem genealogy_record (h : w.Genealogy c) (n : Nat) : w.record.Genealogy (c.note (.cycled n)) where
  faithful := h.faithful.note (fun b x => by simp) fun _ => rfl
  depths := h.depths
  orderly := h.orderly.cons fun b hb => by cases hb

theorem genealogy_load (h : w.Genealogy c) (a : Address) (vs : List Word) :
    (w.load a vs).Genealogy (c.load a vs) where
  faithful := h.faithful.load a vs
  depths := by
    rw [members_load]
    exact h.depths
  orderly := orderly_load h.orderly a vs

theorem genealogy_addRoot (h : w.Genealogy c) (a : Address) :
    (w.addRoot a).1.Genealogy (c.addRoot w a) := by
  refine ⟨faithful_addRoot h.faithful a, ?_, ?_⟩ <;> unfold Chronicle.addRoot
  · unfold addRoot
    split_ifs
    · simp [welcome, h.depths, Birth.depth, Birth.generation, Organism.root, Organism.newborn]
    · exact h.depths
  · split_ifs
    · refine h.orderly.cons fun b hb => ?_
      obtain rfl := Event.born.inj hb
      exact ⟨rfl, Hue.valid_random w.lineage, by rintro p ⟨⟩⟩
    · exact h.orderly

theorem genealogy_reset (h : w.Genealogy c) : w.reset.Genealogy c.reset where
  faithful := faithful_reset h.faithful
  depths := rfl
  orderly := h.orderly.cons fun b hb => by cases hb

/-- Whatever is asked of a world, its chronicle goes on to know the lines. -/
theorem lasting_genealogy : Lasting Genealogy where
  load := genealogy_load
  addRoot := genealogy_addRoot
  setRate h _ := ⟨h.faithful, h.depths, h.orderly⟩
  setMaxAge h _ := ⟨h.faithful, h.depths, h.orderly⟩
  step := step_of_turns genealogy_reap genealogy_turn genealogy_record
  reset := genealogy_reset

theorem Chronicled.genealogy (h : w.Chronicled c) : w.Genealogy c :=
  lasting_genealogy.of_chronicled (fun _ _ => ⟨faithful_empty, rfl, Event.orderly_nil⟩) h

/-- Whatever is asked of a world, nobody comes to be listed but by birth. -/
theorem lasting_byBirth (c : Chronicle) : Lasting fun _ d => c.ByBirth d where
  load := ByBirth.load
  addRoot {w _} h := h.addRoot w
  setRate h _ := h
  setMaxAge h _ := h
  step := step_of_turns (P := fun _ d => c.ByBirth d) (fun {w _} h => h.reap w)
    (fun {w _} h => h.turn w) fun h _ => h.note rfl
  reset := ByBirth.reset

theorem descends_of_genealogy (h : w.Genealogy c) (ho : w.population[i]? = some o) :
    ∃ b, c.members[i]? = some b ∧ o.Descends b c.events := by
  obtain ⟨b, hb, hhue, hdepth⟩ := h.exists_birth ho
  have hborn : .born b ∈ c.events := h.faithful.members b (List.mem_of_getElem? hb)
  obtain ⟨number, hue, hroot, hrecord, hnumber, hfar⟩ := h.orderly.line hborn
  refine ⟨b, hb, hborn, hhue.symm, hdepth.symm, number, hue, hroot, hrecord, hnumber, ?_⟩
  -- Half the wheel is all the way there is, so a depth that has stopped counting says enough.
  have hhalf := hue.distance_le_half o.hue
  rw [hhue] at hfar
  rw [← hdepth, Birth.depth]
  omega

/-- A cell has the hue that somebody was born with, who wrote it. -/
theorem exists_birth_of_owner (h : w.Faithful c) {a : Address} {hue : Hue}
    (ha : w.memory.owner a = some hue) : ∃ b, .born b ∈ c.events ∧ b.hue = hue := by
  rw [Memory.owner, h.cells, Chronicle.cell] at ha
  cases hlast : c.events.findSome? (Event.leaves a) with
  | none =>
    rw [hlast] at ha
    cases ha
  | some x =>
    rw [hlast] at ha
    obtain ⟨e, he, hleaves⟩ := List.exists_of_findSome?_eq_some hlast
    cases e with
    | loaded b v =>
      obtain ⟨-, ⟨⟩⟩ := Option.ite_none_right_eq_some.mp hleaves
      cases ha
    | cleared =>
      obtain rfl := Option.some.inj hleaves
      cases ha
    | wrote b y =>
      obtain ⟨-, ⟨⟩⟩ := Option.ite_none_right_eq_some.mp hleaves
      exact ⟨b, h.writers b y he, Option.some.inj ha⟩
    | born | cycled => cases hleaves

/-! ## Drift -/

/-- In a world that no snapshot has entered, everybody who is listed, dead or alive, descends from a root that
was placed before, and has a hue within ten degrees of that root's for each generation between them. Every
child that was ever born had a hue on the wheel and within ten degrees of its parent's, which was born before
it. Births alone make hues: whatever is asked of the world, those who are listed have the hues they were born
with, and have been listed before or been born since; a cell has no hue that nobody was born with. In any
world at all a turn changes no hue and adds that of a child at most, and a child has a hue on the wheel, close
to its parent's, also where the parent's is not on the wheel. -/
theorem drift_of_chronicled (h : w.Chronicled c) :
    (∀ (i : Nat) (o : Organism), w.population[i]? = some o →
      ∃ b, c.members[i]? = some b ∧ o.Descends b c.events) ∧
    Event.Orderly c.events ∧
    (∀ rs, (∀ s, .replace s ∉ rs) →
      (w.performAll rs).population.toList.map (·.hue) = (c.performAll w rs).members.map Birth.hue ∧
      c.ByBirth (c.performAll w rs)) ∧
    (∀ a hue, w.memory.owner a = some hue → ∃ b, .born b ∈ c.events ∧ b.hue = hue) ∧
    (∀ (v : World) (i : Nat) (o : Organism), v.population[i]? = some o →
      ∃ (p : Organism) (child : Option Organism),
        (v.turn i).population.toList = v.population.toList.set i p ++ child.toList ∧ p.hue = o.hue ∧
        ∀ x ∈ child, x.hue.degrees.toNat < 360 ∧ o.hue.distance x.hue ≤ 10) ∧
    ∀ (parent : Organism) a lineage,
      (parent.child a lineage).1.hue.degrees.toNat < 360 ∧
      parent.hue.distance (parent.child a lineage).1.hue ≤ 10 := by
  refine ⟨fun i o ho => descends_of_genealogy h.genealogy ho, h.genealogy.orderly, fun rs hrs => ?_,
    fun a hue ha => exists_birth_of_owner h.faithful ha, fun v i o ho => ?_, fun parent a lineage => ?_⟩
  · exact ⟨(h.performAll hrs).faithful.hues.symm, (lasting_byBirth c).performAll (.refl c) hrs⟩
  · exact ⟨_, _, population_turn ho, o.hue_afterTurn v.habitat, fun x hx =>
      ⟨(sound_offspring hx).hue, distance_offspring_le hx⟩⟩
  · exact ⟨Hue.valid_drift _ _, Hue.distance_drift_le _ _⟩

/-- Under an age limit of one, an organism that asks for a child at its own cell and writes to another begins
a line. After three cycles the root is gone, and the hue has gone down past zero, up again and down again. -/
theorem drift_of_chronicled_past_zero :
    let w := ofConfig ⟨.zero, 1, 9, 2, some 235⟩ 0
    let rs := [.load 0 [(Instruction.new .spwn ⟨.relative, 0⟩ ⟨.immediate, 0⟩).toWord,
      (Instruction.new .mov ⟨.immediate, 7⟩ ⟨.relative, 99⟩).toWord], .addRoot 0, .run 3]
    let v := w.performAll rs
    let c := Chronicle.empty.performAll w rs
    let first := Birth.child 1 ⟨355⟩ (.root 0 ⟨4⟩)
    let second := Birth.child 2 ⟨1⟩ first
    let third := Birth.child 3 ⟨351⟩ second
    v.Chronicled c ∧ c.members = [first, second, third] ∧
    (∃ (o p : Organism) (child : Option Organism), v.population[2]? = some o ∧ o.depth = 3 ∧
      o.Descends third c.events ∧
      (v.turn 2).population.toList = v.population.toList.set 2 p ++ child.toList ∧ p.hue = o.hue) ∧
    c.ByBirth (c.performAll v [.step]) ∧
    (v.memory.owner 100 = some first.hue ∧ ∃ b, .born b ∈ c.events ∧ b.hue = first.hue) ∧
    ((Organism.newborn 0 0 ⟨65535⟩).child 5 v.lineage).1.hue.degrees.toNat < 360 := by
  intro w rs v c first second third
  have hv : v.Chronicled c := (Chronicled.fresh _ _).performAll (by simp [rs])
  obtain ⟨hlisted, -, hkept, howned, hturn, hchild⟩ := drift_of_chronicled hv
  have hmembers : c.members = [first, second, third] := by decide +kernel
  have hdepth : ∀ o ∈ v.population[2]?, o.depth = 3 := by decide +kernel
  have howner : v.memory.owner 100 = some first.hue := by decide +kernel
  obtain ⟨o, ho⟩ : ∃ o, v.population[2]? = some o := Option.isSome_iff_exists.mp (by decide +kernel)
  obtain ⟨b, hb, hdescends⟩ := hlisted 2 o ho
  rw [hmembers] at hb
  obtain rfl : third = b := Option.some.inj hb
  obtain ⟨p, child, hpopulation, hhue, -⟩ := hturn v 2 o ho
  exact ⟨hv, hmembers, ⟨o, p, child, ho, hdepth o ho, hdescends, hpopulation, hhue⟩,
    (hkept [.step] (by simp)).2, ⟨howner, howned 100 _ howner⟩, (hchild _ _ _).1⟩

end World

end Vivarium
