import Foreman.Proofs.Store.Roll
import Mathlib.Algebra.BigOperators.Group.List.Lemmas
import Mathlib.Algebra.Order.Field.Basic
import Mathlib.Data.List.DropRight
import Mathlib.Data.Rat.Cast.Order
/-!
# The balance of a store

How many instances steps hold at a time follows from what was given to steps, what they gave back
and what was removed while a step held it, since all instances were last removed at once. The
instances that are allocated are also those that steps hold, step by step, and together with those
that steps may have and those out of rotation they are all there are.

## Main definitions

* `Foreman.Store.sinceCleared`: the part of a history since all instances were last removed.
* `Foreman.Store.Event.given`, `Foreman.Store.Event.givenBack`, `Foreman.Store.Event.lost`: the
  figures of an event.
* `Foreman.Store.Balanced`: what is allocated is what was given, less what was given back and lost.
* `Foreman.Store.holders`: the steps that hold something.

## Main results

* `Foreman.Store.balanced_performAll`: the books balance throughout a history.
* `Foreman.Store.Sound.sum_length_heldBy`: what is allocated is what all holders hold.
* `Foreman.Store.count_add_count_add_count`: every instance is in one of the three states.
-/

namespace Foreman

namespace Store

variable {s : Store} {history : List Event}

/-! ### The figures of a history -/

/-- Whether all instances were removed at once. -/
def Event.isCleared : Event → Bool
  | cleared => true
  | _ => false

/-- How many instances an event gave to a step. -/
def Event.given : Event → ℕ
  | allocated _ ids => ids.length
  | _ => 0

/-- How many instances a step gave back in an event. -/
def Event.givenBack : Event → ℕ
  | released _ ids => ids.length
  | _ => 0

/-- How many instances were removed in an event, by themselves, while a step held them. -/
def Event.lost : Event → ℕ
  | removed i => if i.status = .allocated then 1 else 0
  | _ => 0

/-- The part of a history since all instances were last removed at once. -/
def sinceCleared (history : List Event) : List Event :=
  history.rtakeWhile fun e => !e.isCleared

/-- The sum of a figure over the part of a history since all instances were last removed at once. -/
def tally (figure : Event → ℕ) (history : List Event) : ℕ :=
  ((sinceCleared history).map figure).sum

@[simp] theorem tally_append_cleared (figure : Event → ℕ) (history : List Event) :
    tally figure (history ++ [.cleared]) = 0 := by
  rw [tally, sinceCleared, List.rtakeWhile_concat_neg _ _ _ (by simp [Event.isCleared])]
  rfl

theorem tally_append (figure : Event → ℕ) (history : List Event) {e : Event}
    (he : e.isCleared = false) :
    tally figure (history ++ [e]) = tally figure history + figure e := by
  rw [tally, sinceCleared, List.rtakeWhile_concat_pos _ _ _ (by simp [he])]
  simp [tally, sinceCleared]

/-! ### Instances by state -/

/-- Counting by two conditions of which exactly one holds wherever a third holds, and none
elsewhere. -/
theorem countP_add_countP {α : Type} {p q r : α → Bool} {l : List α}
    (h : ∀ a ∈ l, (p a).toNat + (q a).toNat = (r a).toNat) :
    l.countP p + l.countP q = l.countP r := by
  induction l with
  | nil => rfl
  | cons a rest ih =>
    obtain ⟨hhead, hrest⟩ := List.forall_mem_cons.1 h
    simp only [List.countP_cons, ← ih hrest]
    revert hhead
    cases p a <;> cases q a <;> cases r a <;> simp <;> omega

/-- Every instance is in one of the three states. -/
theorem count_add_count_add_count (s : Store) :
    s.count .allocated + s.count .available + s.count .unavailable = s.instances.length := by
  have hinUse : s.count .allocated + s.count .available =
      s.instances.countP fun i => i.status ≠ .unavailable :=
    countP_add_countP fun i _ => by cases h : i.status <;> rfl
  rw [hinUse, ← List.countP_true]
  exact countP_add_countP fun i _ => by cases h : i.status <;> rfl

/-- What is allocated is a part of all instances, or nothing if there are none. -/
theorem utilization_ratio (s : Store) :
    0 ≤ (s.utilization.allocated / s.utilization.total : ℚ) ∧
      (s.utilization.allocated / s.utilization.total : ℚ) ≤ 1 := by
  have hle : (s.utilization.allocated : ℚ) ≤ s.utilization.total :=
    Nat.cast_le.2 List.countP_le_length
  exact ⟨div_nonneg (Nat.cast_nonneg _) (Nat.cast_nonneg _),
    div_le_one_of_le₀ hle (Nat.cast_nonneg _)⟩

theorem utilization_rate (s : Store) :
    s.utilization.rate =
      if s.utilization.total = 0 then 0
      else Float.ofNat s.utilization.allocated / Float.ofNat s.utilization.total := by
  simp [utilization, List.isEmpty_iff]

theorem count_each (s : Store) (f : Instance → Instance) (status : Status) :
    (s.each f).count status = s.instances.countP fun i => (f i).status = status :=
  List.countP_map

/-- The instances of a sound store that have one of some ids, each named once. -/
theorem Sound.countP_mem (hs : s.Sound) {ids : List String} (hnodup : ids.Nodup)
    (hmem : ∀ id ∈ ids, id ∈ s.ids) : s.instances.countP (fun i => i.id ∈ ids) = ids.length := by
  have hperm : (s.ids.filter (· ∈ ids)).Perm ids := by
    refine (List.perm_ext_iff_of_nodup (hs.nodup.filter _) hnodup).2 fun id => ?_
    simpa using hmem id
  rw [← hperm.length_eq, Store.ids, List.filter_map, List.length_map, List.countP_eq_length_filter]
  rfl

/-- Available instances of some ids, each named once, are given to a step. -/
theorem Sound.count_grantAll (hs : s.Sound) {step : String} {ids : List String}
    (hnodup : ids.Nodup) (hfree : s.AllAvailable ids) (hmem : ∀ id ∈ ids, id ∈ s.ids) :
    (s.grantAll step ids).count .allocated = s.count .allocated + ids.length := by
  rw [← hs.countP_mem hnodup hmem, Store.grantAll, count_each]
  refine (countP_add_countP fun i hi => ?_).symm
  by_cases hid : i.id ∈ ids
  · have hstatus : i.status = .available := by simpa [Instance.isAvailable] using hfree i hi hid
    simp [hid, hstatus, Instance.grant]
  · simp [hid]

/-- What a step gives back is no longer allocated. -/
theorem count_release (s : Store) (step : String) :
    (s.release step).2.count .allocated + (s.release step).1.length = s.count .allocated := by
  rw [release_eq_each, count_each, release, List.length_map, ← List.countP_eq_length_filter]
  refine countP_add_countP fun i _ => ?_
  by_cases hheld : i.isHeldBy step <;> by_cases hbusy : i.status = .allocated <;>
    simp [hheld, hbusy, Instance.release]

/-- Setting a state that no step may be in to one that no step may be in. -/
theorem count_allocated_setStatus (s : Store) (id : String) {admits : Status → Prop}
    [DecidablePred admits] {status : Status} (hadmits : ¬ admits .allocated)
    (hstatus : status ≠ .allocated) :
    (s.setStatus id admits status).count .allocated = s.count .allocated := by
  rw [setStatus, count_each]
  refine List.countP_congr fun i _ => ?_
  split_ifs with h
  · have : i.status ≠ .allocated := fun heq => hadmits (heq ▸ h.2)
    simp [this, hstatus]
  · rfl

/-- An instance that is removed is no longer allocated, if it was. -/
theorem Sound.count_remove (hs : s.Sound) {id : String} {i : Instance}
    (hid : s.instance? id = some i) :
    (s.remove id).2.1.count .allocated + (Event.removed i).lost = s.count .allocated := by
  obtain ⟨hi, rfl⟩ := mem_of_instance?_eq_some hid
  obtain ⟨before, after, hsplit⟩ := List.append_of_mem hi
  have hothers : ∀ j ∈ before ++ after, j.id ≠ i.id := by
    have hnodup := hs.nodup
    rw [Store.ids, hsplit, List.map_append, List.map_cons, List.nodup_middle] at hnodup
    intro j hj heq
    rw [List.nodup_cons, ← List.map_append] at hnodup
    exact hnodup.1 (List.mem_map.2 ⟨j, hj, heq⟩)
  have hkept : (s.remove i.id).2.1.instances = before ++ after := by
    rw [List.forall_mem_append] at hothers
    rw [Store.remove, hid]
    dsimp only
    rw [hsplit, List.filter_append, List.filter_cons_of_neg (by simp),
      List.filter_eq_self.2 fun j hj => by simpa using hothers.1 j hj,
      List.filter_eq_self.2 fun j hj => by simpa using hothers.2 j hj]
  simp only [count, hkept, hsplit, List.countP_append, List.countP_cons, Event.lost]
  simp only [decide_eq_true_eq]
  omega

/-! ### The books -/

/-- Since all instances were last removed at once, what is allocated is what was given to steps,
less what steps gave back and what was removed while a step held it. -/
def Balanced (history : List Event) (s : Store) : Prop :=
  s.count .allocated + tally Event.givenBack history + tally Event.lost history =
    tally Event.given history

theorem balanced_nil : Balanced [] {} := rfl

/-- The step that is given instances by an allocation is given each of them once. -/
theorem nodup_of_perform_allocate (hs : s.Sound) {step : String}
    {requirements : List Requirement} {ids : List String}
    (h : (s.perform (.allocate step requirements)).1 = [.allocated step ids]) : ids.Nodup := by
  rcases ha : s.allocate step requirements with ⟨f | given, after, notices⟩
  · simp [perform, ha] at h
  · obtain ⟨choices, hwalk, rfl⟩ := allocate_ok hs (congrArg Prod.fst ha)
    obtain rfl : chosenIds choices = ids := by simpa [perform, ha, instanceIds_extend] using h
    exact (walk_eq_none hwalk).2.1

/-- The books balance after an event whose figures account for what is allocated then. -/
theorem Balanced.append {s' : Store} {e : Event} (h : Balanced history s)
    (he : e.isCleared = false)
    (hcount : s'.count .allocated + e.givenBack + e.lost = s.count .allocated + e.given) :
    Balanced (history ++ [e]) s' := by
  rw [Balanced] at h
  rw [Balanced, tally_append _ _ he, tally_append _ _ he, tally_append _ _ he]
  omega

/-- The books balance if nothing happens and as much is allocated as before. -/
theorem Balanced.congr {s' : Store} (h : Balanced history s)
    (hcount : s'.count .allocated = s.count .allocated) : Balanced (history ++ []) s' := by
  rwa [List.append_nil, Balanced, hcount]

/-- The books still balance after a deed. -/
theorem Balanced.perform (h : Balanced history s) (hs : s.Sound) (d : Deed) :
    Balanced (history ++ (s.perform d).1) (s.perform d).2 := by
  cases d with
  | define k => exact h.congr rfl
  | register id kind attributes now =>
    simp only [Store.perform, Store.register]
    by_cases hhas : s.has id
    · simp only [if_pos hhas]
      exact h.congr rfl
    · simp only [if_neg hhas]
      exact h.append rfl (by simp [count, Event.given, Event.givenBack, Event.lost, Instance.fresh])
  | remove id =>
    simp only [Store.perform]
    cases hid : s.instance? id with
    | none =>
      rw [Store.remove, hid]
      exact h.congr rfl
    | some i => exact h.append rfl (hs.count_remove hid)
  | retire id =>
    simp only [Store.perform, hs.retire_eq]
    exact h.congr (count_allocated_setStatus s id (by simp) (by simp))
  | reinstate id =>
    simp only [Store.perform, hs.reinstate_eq]
    exact h.congr (count_allocated_setStatus s id (by simp) (by simp))
  | allocate step requirements =>
    rcases perform_allocate hs step requirements with ha | ⟨ids, ha, hfree, hmem⟩
    · rw [ha]
      exact h.congr rfl
    · have hnodup := nodup_of_perform_allocate hs (congrArg Prod.fst ha)
      rw [ha]
      exact h.append rfl (hs.count_grantAll hnodup hfree hmem)
  | release step => exact h.append rfl (count_release s step)
  | clear => simp [Store.perform, Balanced, Store.clear, count]

theorem Balanced.performAll (h : Balanced history s) (hs : s.Sound) (deeds : List Deed) :
    Balanced (history ++ (s.performAll deeds).1) (s.performAll deeds).2 := by
  induction deeds generalizing history s with
  | nil => simpa [Store.performAll] using h
  | cons d rest ih =>
    rw [Store.performAll, ← List.append_assoc]
    exact ih (h.perform hs d) (hs.perform d)

/-- The books balance throughout the history of a store that was empty in the beginning. -/
theorem balanced_performAll (deeds : List Deed) :
    Balanced (performAll {} deeds).1 (performAll {} deeds).2 :=
  balanced_nil.performAll sound_empty deeds

/-! ### Holders -/

/-- The steps that hold something, each once. -/
def holders (s : Store) : List String :=
  (s.instances.filterMap Instance.holder).dedup

theorem nodup_holders (s : Store) : s.holders.Nodup :=
  List.nodup_dedup _

theorem mem_holders {step : String} : step ∈ s.holders ↔ s.heldBy step ≠ [] := by
  simp [holders, heldBy, Instance.isHeldBy]

/-- How many instances a step holds, from the list of all holders. -/
theorem length_heldBy (s : Store) (step : String) :
    (s.heldBy step).length = (s.instances.filterMap Instance.holder).count step := by
  rw [heldBy, List.length_map, ← List.countP_eq_length_filter, List.count, List.countP_filterMap]
  refine List.countP_congr fun i _ => ?_
  cases h : i.holder <;> simp [Instance.isHeldBy, h]

/-- What is allocated is what all holders hold, taken together. -/
theorem Sound.sum_length_heldBy (hs : s.Sound) :
    (s.holders.map fun step => (s.heldBy step).length).sum = s.count .allocated := by
  simp only [length_heldBy, holders, List.sum_map_count_dedup_eq_length, count]
  rw [List.length_filterMap_eq_countP]
  exact List.countP_congr fun i hi => by simpa using (hs.coherent i hi).symm

end Store

end Foreman
