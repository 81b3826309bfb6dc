import Foreman.Proofs.Store.Allotment
import Foreman.Proofs.Store.Roll
import Mathlib.Data.List.Perm.Lattice
/-!
# What giving back comes to

When a step gives back what it holds, exactly the instances it holds become available, and nothing
else changes. What counts is who holds an instance, not which instance it is. So giving back twice
is giving back once, two steps may give back in either order, and what a step was given it gives
back, whatever other steps and the owner of the store have done in the meantime, as long as none of
it is removed.

## Main definitions

* `Foreman.Instance.freed`: an instance that nobody holds.
* `Foreman.Store.Deed.Spares`: a deed leaves a step what it holds.

## Main results

* `Foreman.Store.Sound.release_fst`, `Foreman.Store.Sound.release_snd`: what giving back comes to.
* `Foreman.Store.release_comm`: two steps may give back in either order.
* `Foreman.Store.Sound.heldBy_performAll`: what a step holds after deeds that leave it that.
* `Foreman.Store.release_exact`: all this of reachable stores.
-/

namespace Foreman

/-- An instance that nobody holds and that a step may have. -/
def Instance.freed (i : Instance) : Instance :=
  { i with status := .available, holder := none }

theorem Instance.release_of_allocated {i : Instance} (h : i.status = .allocated) :
    i.release = i.freed :=
  if_pos h

namespace Store

variable {s : Store} {step other : String}

/-! ### What steps hold -/

/-- A change of every instance by itself that leaves its id and whether a step holds it leaves the
step what it holds. -/
theorem heldBy_each {f : Instance → Instance} (hid : ∀ i, (f i).id = i.id)
    (hheld : ∀ i ∈ s.instances, (f i).isHeldBy step = i.isHeldBy step) :
    (s.each f).heldBy step = s.heldBy step := by
  simp only [heldBy, each, List.filter_map, List.map_map, Function.comp_def, hid]
  rw [List.filter_congr hheld]

theorem heldBy_eq_nil_iff : s.heldBy step = [] ↔ s.HoldsNothing step := by
  simp [heldBy, holdsNothing_iff]

theorem mem_heldBy {i : Instance} (hi : i ∈ s.instances) (h : i.isHeldBy step = true) :
    i.id ∈ s.heldBy step :=
  List.mem_map_of_mem (List.mem_filter.2 ⟨hi, h⟩)

/-- A step that held nothing holds what it is given, in the order of registration. -/
theorem HoldsNothing.heldBy_grantAll (h : s.HoldsNothing step) (given : List String) :
    (s.grantAll step given).heldBy step = s.ids.filter (· ∈ given) := by
  simp only [heldBy, grantAll, each, ids, List.filter_map, List.map_map, Function.comp_def]
  have hheld : ∀ i ∈ s.instances, (if i.id ∈ given then i.grant step else i).isHeldBy step =
      decide (i.id ∈ given) := by
    intro i hi
    by_cases hgiven : i.id ∈ given <;> simp [hgiven, holdsNothing_iff.1 h i hi]
  rw [List.filter_congr hheld]
  exact List.map_congr_left fun i _ => by split_ifs <;> rfl

/-! ### Giving back -/

/-- What a step gives back is what it holds. -/
theorem Sound.release_fst (hs : s.Sound) (step : String) : (s.release step).1 = s.heldBy step := by
  rw [Store.release, heldBy]
  refine congrArg _ (List.filter_congr fun i hi => ?_)
  cases hheld : i.isHeldBy step with
  | true => simp [(hs.coherent i hi).status_of_isHeldBy hheld]
  | false => rfl

/-- Exactly what a step holds becomes available when it gives that back. -/
theorem Sound.release_snd (hs : s.Sound) (step : String) :
    (s.release step).2 = s.each fun i => if i.holder = some step then i.freed else i := by
  rw [release_eq_each]
  refine each_congr fun i hi => ?_
  by_cases hheld : i.holder = some step
  · have hstatus := (hs.coherent i hi).2 (by simp [hheld])
    simp [Instance.isHeldBy, hheld, Instance.release_of_allocated hstatus]
  · simp [Instance.isHeldBy, hheld]

/-- What a step holds that gives nothing back stays with it. -/
theorem heldBy_release_of_ne (hne : other ≠ step) :
    (s.release step).2.heldBy other = s.heldBy other := by
  rw [release_eq_each]
  refine heldBy_each (fun i => by split_ifs <;> simp) fun i _ => ?_
  split_ifs with hheld
  · have hholder : i.holder = some step := of_decide_eq_true hheld
    unfold Instance.release
    split_ifs <;> simp [Instance.isHeldBy, hholder, Ne.symm hne]
  · rfl

/-- Two steps may give back what they hold in either order. -/
theorem release_comm (s : Store) (step other : String) :
    ((s.release step).2.release other).2 = ((s.release other).2.release step).2 := by
  simp only [release_eq_each, each_each]
  refine each_congr fun i _ => ?_
  rcases eq_or_ne step other with rfl | hne
  · rfl
  · -- an instance has one holder, and what one of the two gives back the other does not hold
    have hboth : i.isHeldBy step = true → i.isHeldBy other = false := fun h => by
      simp [Instance.isHeldBy, of_decide_eq_true h, hne]
    have hafter (a b : String) (h : i.isHeldBy b = false) : i.release.isHeldBy b = false := by
      unfold Instance.release
      split_ifs
      · simp [Instance.isHeldBy]
      · exact h
    cases hstep : i.isHeldBy step with
    | true => simp [hstep, hboth hstep, hafter step other (hboth hstep)]
    | false =>
      cases hother : i.isHeldBy other with
      | true => simp [hother, hafter other step hstep]
      | false => simp [hstep, hother]

/-! ### What others do in the meantime -/

/-- A deed leaves a step instances of some ids and gives it no others: it is another step that asks
for something or gives something back, none of these instances is removed, and whatever else the
owner of the store does, not all instances are. -/
def Deed.Spares (step : String) (ids : List String) : Deed → Prop
  | .allocate other _ | .release other => other ≠ step
  | .remove id => id ∉ ids
  | .clear => False
  | .define _ | .register _ _ _ _ | .retire _ | .reinstate _ => True

theorem Deed.Spares.anti {ids others : List String} {d : Deed} (h : d.Spares step ids)
    (hsubset : others ⊆ ids) : d.Spares step others := by
  cases d with
  | remove id => exact fun hmem => h (hsubset hmem)
  | _ => exact h

theorem heldBy_setStatus (id : String) (admits : Status → Prop) [DecidablePred admits]
    (status : Status) : (s.setStatus id admits status).heldBy step = s.heldBy step :=
  heldBy_each (fun i => by split_ifs <;> rfl) fun i _ => by split_ifs <;> rfl

theorem heldBy_register (id kind : String) (attributes : Bindings) (now : Timestamp) :
    (s.register id kind attributes now).2.1.heldBy step = s.heldBy step := by
  by_cases h : id ∈ s.ids
  · rw [(register_of_mem h).2]
  · rw [(register_of_notMem h).2]
    simp [heldBy, Instance.fresh, Instance.isHeldBy]

theorem heldBy_remove {id : String} (h : id ∉ s.heldBy step) :
    (s.remove id).2.1.heldBy step = s.heldBy step := by
  unfold remove
  split
  · rfl
  · rw [heldBy, heldBy, List.filter_filter]
    refine congrArg _ (List.filter_congr fun i hi => ?_)
    cases hheld : i.isHeldBy step with
    | true =>
      have hne : i.id ≠ id := fun hid => h (hid ▸ mem_heldBy hi hheld)
      simp [hne]
    | false => rfl

theorem Sound.heldBy_allocate (hs : s.Sound) (hne : other ≠ step)
    (requirements : List Requirement) :
    (s.perform (.allocate other requirements)).2.heldBy step = s.heldBy step := by
  rcases perform_allocate hs other requirements with h | ⟨ids, h, hfree, -⟩
  · rw [h]
  · rw [h]
    refine heldBy_each (fun i => by split_ifs <;> rfl) fun i hi => ?_
    split_ifs with hgiven
    · have hnone := (hs.coherent i hi).holder_eq_none (hfree i hi hgiven)
      rw [Instance.isHeldBy_grant]
      simp [hne, Instance.isHeldBy, hnone]
    · rfl

/-- What a step holds it still holds after a deed that leaves it that, and nothing else. -/
theorem Sound.heldBy_perform (hs : s.Sound) {d : Deed} (hd : d.Spares step (s.heldBy step)) :
    (s.perform d).2.heldBy step = s.heldBy step := by
  cases d with
  | define k => rfl
  | register id kind attributes now =>
    rw [perform_register]
    exact heldBy_register id kind attributes now
  | remove id => exact heldBy_remove hd
  | retire id => simp only [Store.perform, hs.retire_eq, heldBy_setStatus]
  | reinstate id => simp only [Store.perform, hs.reinstate_eq, heldBy_setStatus]
  | allocate other requirements => exact hs.heldBy_allocate hd requirements
  | release other => exact heldBy_release_of_ne (Ne.symm hd)
  | clear => exact hd.elim

theorem Sound.heldBy_performAll (hs : s.Sound) {deeds : List Deed}
    (hdeeds : ∀ d ∈ deeds, d.Spares step (s.heldBy step)) :
    (s.performAll deeds).2.heldBy step = s.heldBy step := by
  induction deeds generalizing s with
  | nil => rfl
  | cons d rest ih =>
    have hfirst := hs.heldBy_perform (hdeeds d List.mem_cons_self)
    calc ((s.perform d).2.performAll rest).2.heldBy step
      _ = (s.perform d).2.heldBy step :=
        ih (hs.perform d) (by
          rw [hfirst]
          exact fun e he => hdeeds e (List.mem_cons_of_mem d he))
      _ = s.heldBy step := hfirst

/-- A step that held nothing and was given what it requires holds that, in the order of
registration. -/
theorem Sound.heldBy_allocate_self (hs : s.Sound) (hnone : s.heldBy step = [])
    {requirements : List Requirement} {given : Allotment}
    (hgiven : (s.allocate step requirements).1 = .ok given) :
    (s.allocate step requirements).2.1.heldBy step = s.ids.filter (· ∈ given.instanceIds) ∧
      (s.ids.filter (· ∈ given.instanceIds)).Perm given.instanceIds := by
  obtain ⟨choices, hwalk, rfl⟩ := allocate_ok hs hgiven
  obtain ⟨hall, hnodup, hafter⟩ := walk_eq_none hwalk
  rw [instanceIds_extend, hafter]
  refine ⟨(heldBy_eq_nil_iff.1 hnone).heldBy_grantAll _, ?_⟩
  rw [List.perm_ext_iff_of_nodup (hs.nodup.filter _) hnodup]
  intro id
  simpa using chosenIds_subset hall id

/-- Giving back is exact, twice is once, and the order does not matter. In a reachable store a step
gives back exactly what it holds, in the order of registration. Just these instances become
available, and nothing else changes: the step holds nothing then and gives nothing back a second
time, and every other step holds what it held. It makes no difference which of two steps gives back
first. And a step that held nothing and was given what it requires gives back exactly that, in the
order of registration, whatever is done to the store in the meantime that leaves it the instances it
was given and gives it no others. -/
theorem release_exact (hs : s.Reachable) (step : String) :
    (s.release step).1 = s.heldBy step ∧
    (s.release step).2 = (s.each fun i => if i.holder = some step then i.freed else i) ∧
    (s.release step).2.heldBy step = [] ∧
    (s.release step).2.release step = ([], (s.release step).2) ∧
    (∀ other ≠ step, (s.release step).2.heldBy other = s.heldBy other) ∧
    (∀ other, ((s.release step).2.release other).2 = ((s.release other).2.release step).2) ∧
    ∀ requirements given deeds, s.heldBy step = [] →
      (s.allocate step requirements).1 = .ok given →
      (∀ d ∈ deeds, d.Spares step given.instanceIds) →
      let later := ((s.allocate step requirements).2.1.performAll deeds).2
      (later.release step).1 = s.ids.filter (· ∈ given.instanceIds) ∧
        (later.release step).1.Perm given.instanceIds := by
  have hsound := hs.sound
  have hnothing := hsound.holdsNothing_release step
  have hagain : (s.release step).2.release step = ([], (s.release step).2) := by
    refine Prod.ext ?_ hnothing.release_eq_self
    rw [(hsound.release step).release_fst, heldBy_eq_nil_iff.2 hnothing]
  refine ⟨hsound.release_fst step, hsound.release_snd step, heldBy_eq_nil_iff.2 hnothing, hagain,
    fun other hne => heldBy_release_of_ne hne, s.release_comm step, ?_⟩
  intro requirements given deeds hnone hgiven hspares later
  obtain ⟨hheld, hperm⟩ := hsound.heldBy_allocate_self hnone hgiven
  have hafter := hsound.allocate step requirements
  have hlater : (later.release step).1 = s.ids.filter (· ∈ given.instanceIds) := by
    rw [(hafter.performAll deeds).release_fst, hafter.heldBy_performAll, hheld]
    intro d hd
    rw [hheld]
    exact (hspares d hd).anti hperm.subset
  exact ⟨hlater, hlater ▸ hperm⟩

/-- What goes on in the kitchen while a step is at work there. -/
def kitchenTraffic : List Deed :=
  [.release "first-step", .reinstate "mario", .retire "luigi",
    .allocate "third-step" [{ name := "baker", preferences := [.specific "chef"] }],
    .register "daisy" "chef" .empty default, .remove "toad"]

/-- A step is given peach and then luigi, and gives them back in the order in which they were
registered. In between luigi was to be taken out of rotation, and others came and went. -/
theorem release_exact_kitchen :
    let requirements : List Requirement :=
      [{ name := "helper", preferences := [.specific "peach"] },
        { name := "baker", preferences := [.specific "luigi"] }]
    let given : Allotment :=
      ⟨"second-step", [⟨"helper", "peach", "staff", .specific⟩,
        ⟨"baker", "luigi", "chef", .specific⟩], []⟩
    let later := ((kitchen.allocate "second-step" requirements).2.1.performAll kitchenTraffic).2
    kitchen.Reachable ∧ kitchen.heldBy "second-step" = [] ∧
      (kitchen.allocate "second-step" requirements).1 = .ok given ∧
      (∀ d ∈ kitchenTraffic, d.Spares "second-step" given.instanceIds) ∧
      later.ids = ["mario", "luigi", "peach", "daisy"] ∧
      (later.release "second-step").1 = ["luigi", "peach"] := by
  intro requirements given later
  have hgiven : (kitchen.allocate "second-step" requirements).1 = .ok given := by rfl
  have hspares : ∀ d ∈ kitchenTraffic, d.Spares "second-step" given.instanceIds := by
    simp [kitchenTraffic, Deed.Spares, given, Allotment.instanceIds]
  obtain ⟨-, -, -, -, -, -, hback⟩ := release_exact reachable_kitchen "second-step"
  obtain ⟨hlater, -⟩ := hback requirements given kitchenTraffic rfl hgiven hspares
  exact ⟨reachable_kitchen, rfl, hgiven, hspares, by rfl, hlater⟩

end Store

end Foreman
