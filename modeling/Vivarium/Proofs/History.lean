import Vivarium.Proofs.Bookkeeping

/-!
# The history is the recent past

A world keeps a bounded number of counts. The chronicle keeps all of them, so it can be said which ones
the world has kept.

* `Chronicle.census` : how many were alive at the end of each cycle since the last reset;
* `Chronicle.recordAfter` : the same, behind the counts that a world has brought with it;
* `World.keepNewest_concat` : what is kept of counts does not depend on those dropped before;
* `World.Recent`, `World.recent_step`, `World.lasting_recent` : the history is what is kept of the
  record, and stays so;
* `World.history_recent` : the history is the end of the record, as long as the capacity allows.
-/

namespace Vivarium

/-- The number of the living at the end of a cycle. -/
def Event.count? : Event → Option Nat
  | cycled living => some living
  | loaded _ _ | cleared | born _ | wrote _ _ => none

/-- A count as a history holds it. A larger one counts as the largest of thirty-two bits. -/
def World.counted (living : Nat) : UInt32 := UInt32.ofNat (min living (2 ^ 32 - 1))

/-- Requests that take no time, and that neither empty a world nor put another in its place. -/
def Request.timeless : Request → Bool
  | load _ _ | plant _ _ | addRoot _ | setRate _ | setMaxAge _ => true
  | step | run _ | reset | replace _ => false

/-! ## The record -/

namespace Chronicle

/-- How many were alive at the end of each cycle since the beginning or the last reset, oldest first. -/
def census (c : Chronicle) : List Nat :=
  ((c.events.takeWhile (· ≠ .cleared)).filterMap Event.count?).reverse

/-- The counts of a world that began with those of `past`, oldest first. -/
def recordAfter (past : List UInt32) (c : Chronicle) : List UInt32 :=
  (if .cleared ∈ c.events then [] else past) ++ c.census.map World.counted

variable (past : List UInt32) (c : Chronicle)

/-- There is one count for each cycle. -/
theorem length_census : c.census.length = c.cycles := by
  have hcount : ∀ e : Event, (Event.count? e).isSome = e.isCycle := by
    intro e
    cases e <;> rfl
  rw [census, List.length_reverse, List.length_filterMap_eq_countP, cycles]
  simp only [hcount]

theorem recordAfter_empty : empty.recordAfter past = past := by
  simp [recordAfter, census, empty]

theorem recordAfter_reset : c.reset.recordAfter past = [] := by
  simp [recordAfter, census, reset]

theorem recordAfter_note_cycled (living : Nat) :
    (c.note (.cycled living)).recordAfter past = c.recordAfter past ++ [World.counted living] := by
  have hcensus : (c.note (.cycled living)).census = c.census ++ [living] := by
    rw [census, note, List.takeWhile_cons_of_pos (by simp), List.filterMap_cons]
    simp only [Event.count?, List.reverse_cons]
    rfl
  have hcleared : .cleared ∈ (c.note (.cycled living)).events ↔ .cleared ∈ c.events := by
    simp [note]
  rw [recordAfter, hcensus, List.map_append, ← List.append_assoc, recordAfter]
  simp only [hcleared, List.map_singleton]

variable {past c}

theorem Uneventful.census {d : Chronicle} (h : c.Uneventful d) : d.census = c.census := by
  obtain ⟨es, hes, hquiet⟩ := h
  have hcleared : ∀ e ∈ es, decide (e ≠ .cleared) = true := fun e he =>
    decide_eq_true (hquiet e he).1
  have hnone : es.filterMap Event.count? = [] := by
    refine List.filterMap_eq_nil_iff.mpr fun e he => ?_
    have hcycle := (hquiet e he).2
    cases e with
    | cycled living => cases hcycle
    | loaded | cleared | born | wrote => rfl
  rw [Chronicle.census, hes, List.takeWhile_append_of_pos hcleared, List.filterMap_append, hnone,
    List.nil_append]
  rfl

theorem Uneventful.recordAfter {d : Chronicle} (h : c.Uneventful d) :
    d.recordAfter past = c.recordAfter past := by
  have hcleared : .cleared ∈ d.events ↔ .cleared ∈ c.events := by
    obtain ⟨es, hes, hquiet⟩ := h
    rw [hes, List.mem_append]
    refine ⟨fun hmem => ?_, Or.inr⟩
    rcases hmem with hmem | hmem
    · exact absurd rfl (hquiet _ hmem).1
    · exact hmem
  rw [Chronicle.recordAfter, h.census, Chronicle.recordAfter]
  simp only [hcleared]

end Chronicle

/-! ## What a world keeps of it -/

namespace World

theorem keepNewest_of_length_le {capacity : UInt64} {counts : List UInt32}
    (h : counts.length ≤ capacity.toNat) : keepNewest capacity counts = counts := by
  rw [keepNewest, Nat.sub_eq_zero_of_le h, List.drop_zero]

theorem keepNewest_suffix (capacity : UInt64) (counts : List UInt32) :
    keepNewest capacity counts <:+ counts :=
  List.drop_suffix _ _

/-- Counts that have been dropped would be dropped again once another is added. -/
theorem keepNewest_concat (capacity : UInt64) (counts : List UInt32) (n : UInt32) :
    keepNewest capacity (keepNewest capacity counts ++ [n]) = keepNewest capacity (counts ++ [n]) := by
  have hdrop : counts.length - capacity.toNat ≤ counts.length := Nat.sub_le _ _
  simp only [keepNewest]
  rw [← List.drop_append_of_le_length hdrop, List.drop_drop, List.length_drop, List.length_append,
    List.length_singleton]
  congr 1
  omega

/-- The history is what is kept of the record. -/
def Recent (past : List UInt32) (w : World) (c : Chronicle) : Prop :=
  w.history = keepNewest w.historyCapacity (c.recordAfter past)

variable {past : List UInt32} {w : World} {c : Chronicle}

theorem historyCapacity_step (w : World) : w.step.historyCapacity = w.historyCapacity := by
  cases hl : w.extinct with
  | true =>
    rw [step_of_extinct hl]
    rfl
  | false =>
    rw [step_eq_midway hl]
    exact (midway_record w w.livingCount).2.2.2

/-- A cycle adds the number of those who are alive at its end. -/
theorem history_step (hl : w.extinct = false) :
    w.step.history = keepNewest w.historyCapacity (w.history ++ [counted w.step.livingCount]) := by
  obtain ⟨-, -, hhistory, hcapacity⟩ := midway_record w w.livingCount
  rw [step_eq_midway hl]
  show keepNewest (w.midway w.livingCount).historyCapacity
    ((w.midway w.livingCount).history ++ [counted (w.midway w.livingCount).livingCount]) = _
  rw [hhistory, hcapacity]
  rfl

theorem history_step_of_extinct (hl : w.extinct = true) : w.step.history = w.history := by
  rw [step_of_extinct hl]
  rfl

theorem recent_of_uneventful {v : World} {d : Chronicle} (h : w.Recent past c) (hcd : c.Uneventful d)
    (hhistory : v.history = w.history) (hcapacity : v.historyCapacity = w.historyCapacity) :
    v.Recent past d := by
  rw [Recent, hhistory, hcapacity, hcd.recordAfter]
  exact h

theorem recent_step (h : w.Recent past c) : w.step.Recent past (c.step w) := by
  unfold Chronicle.step
  cases hl : w.extinct with
  | true =>
    exact recent_of_uneventful h (c.uneventful_reap w) (history_step_of_extinct hl)
      (historyCapacity_step w)
  | false =>
    have hturns : c.Uneventful (Chronicle.turns (List.range w.livingCount) w.reap (c.reap w)) :=
      (c.uneventful_reap w).trans (Chronicle.uneventful_turns _ _ _)
    have hkept : keepNewest w.historyCapacity (c.recordAfter past) = w.history := h.symm
    rw [if_neg Bool.false_ne_true, Recent, history_step hl, historyCapacity_step,
      Chronicle.recordAfter_note_cycled, hturns.recordAfter,
      ← keepNewest_concat w.historyCapacity (c.recordAfter past), hkept]

theorem history_addRoot (w : World) (a : Address) :
    (w.addRoot a).1.history = w.history ∧ (w.addRoot a).1.historyCapacity = w.historyCapacity := by
  unfold addRoot
  split_ifs <;> exact ⟨rfl, rfl⟩

/-- Only time, a reset and a snapshot change a history. -/
theorem history_perform_of_timeless {r : Request} (hr : r.timeless = true) :
    (w.perform r).1.history = w.history ∧
      (w.perform r).1.historyCapacity = w.historyCapacity := by
  cases r with
  | load start vs => exact ⟨rfl, rfl⟩
  | plant start vs => exact history_addRoot (w.load (.ofUInt64 start) vs) _
  | addRoot ip => exact history_addRoot w _
  | setRate rate => exact ⟨rfl, rfl⟩
  | setMaxAge maxAge => exact ⟨rfl, rfl⟩
  | step | run | reset | replace => cases hr

/-- Whatever is asked of a world, its history goes on to be what is kept of the record. -/
theorem lasting_recent (past : List UInt32) : Lasting (Recent past) where
  load {_ c} h a vs := recent_of_uneventful h (c.uneventful_load a vs) rfl rfl
  addRoot {w c} h a :=
    recent_of_uneventful h (c.uneventful_addRoot w a) (history_addRoot w a).1 (history_addRoot w a).2
  setRate h _ := h
  setMaxAge h _ := h
  step := recent_step
  reset {_ c} _ := by
    rw [Recent, Chronicle.recordAfter_reset]
    exact (keepNewest_of_length_le (Nat.zero_le _)).symm

theorem recent_performAll (h : w.Recent past c) {rs : List Request} (hrs : ∀ s, .replace s ∉ rs) :
    (w.performAll rs).Recent past (c.performAll w rs) :=
  (lasting_recent past).performAll h hrs

/-- A world brings its own history with it, and keeps all of it to begin with. -/
theorem recent_of_sound (hw : w.Sound) : w.Recent w.history .empty := by
  rw [Recent, Chronicle.recordAfter_empty, keepNewest_of_length_le hw.history]

/-- Whatever is asked of a world, its history is the end of the record, and as long as the capacity
allows. The record of a fresh world has one count for each cycle since the beginning or the last reset;
a world that comes from elsewhere has its own history in front of these. A cycle adds the number of
those who are alive at its end; a step in which nobody lives adds nothing, nor does anything else that
takes no time. -/
theorem history_recent {v : World} (hv : v.Sound) {rs : List Request} (hrs : ∀ s, .replace s ∉ rs) :
    let w := v.performAll rs
    let c := Chronicle.empty.performAll v rs
    let counts := c.recordAfter v.history
    w.history <:+ counts ∧ w.history.length = min counts.length w.historyCapacity.toNat ∧
    (∀ config seed, v = ofConfig config seed →
      counts = c.census.map counted ∧ counts.length = c.cycles ∧ w.cycles = .ofNat c.cycles) ∧
    (w.extinct = false →
      w.step.history <:+ w.history ++ [counted w.step.livingCount] ∧
      w.step.history.length = min (w.history.length + 1) w.historyCapacity.toNat) ∧
    (w.extinct = true → w.step.history = w.history) ∧
    ∀ r : Request, r.timeless = true → (w.perform r).1.history = w.history := by
  intro w c counts
  have hrecent : w.history = keepNewest w.historyCapacity counts :=
    recent_performAll (recent_of_sound hv) hrs
  refine ⟨?_, ?_, ?_, ?_, history_step_of_extinct, fun r hr => (history_perform_of_timeless hr).1⟩
  · rw [hrecent]
    exact keepNewest_suffix _ _
  · rw [hrecent, length_keepNewest]
  · rintro config seed rfl
    have hcounts : counts = c.census.map counted := by
      show (if _ then [] else []) ++ _ = _
      rw [ite_self, List.nil_append]
    refine ⟨hcounts, ?_, ((Chronicled.fresh config seed).performAll hrs).bookkept.cycles⟩
    rw [hcounts, List.length_map, Chronicle.length_census]
  · intro hl
    rw [history_step hl]
    refine ⟨keepNewest_suffix _ _, ?_⟩
    rw [length_keepNewest, List.length_append, List.length_singleton]

/-- A copying program under a capacity of two that has lived three cycles and is watched for two more,
in which a child is born and the parent dies. -/
theorem history_recent_two_more :
    let v := (ofConfig ⟨.zero, 9, 3, 2, some 7⟩ 0).performAll [.plant 4094 (Ancestor.program 3 5), .run 3]
    let w := v.performAll [.setMaxAge 0, .run 2]
    let c := Chronicle.empty.performAll v [.setMaxAge 0, .run 2]
    v.history = [1, 1] ∧ c.census = [2, 1] ∧
    w.history <:+ c.recordAfter v.history ∧
    w.history.length = min (c.recordAfter v.history).length w.historyCapacity.toNat := by
  intro v w c
  have hv : v.Sound := ((Reachable.fresh _ _).performAll _).sound
  have hrs : ∀ s, Request.replace s ∉ [.setMaxAge 0, .run 2] := by simp
  obtain ⟨hsuffix, hlength, -⟩ := history_recent hv hrs
  exact ⟨by decide +kernel, by decide +kernel, hsuffix, hlength⟩

end World

end Vivarium
