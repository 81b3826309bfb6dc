import Foreman.Proofs.Store.Walk
/-!
# The history of a store

What is done to a store, one deed after another, and what comes of each deed: instances are
registered, removed, given to a step or given back. The events in order are the history of the
store. An instance that was given to a step stays with it until an event of the history takes it
away from the step, and only then can it be given again.

## Main definitions

* `Foreman.Store.Deed`, `Foreman.Store.perform`, `Foreman.Store.performAll`: what is done to a
  store.
* `Foreman.Store.Event`, `Foreman.Store.Event.ends`: what comes of it, and whether that takes an
  instance away from a step.
* `Foreman.Store.Reachable`: the stores that come about from the empty store.
* `Foreman.Store.Honoured`, `Foreman.Store.BookedOnce`: every instance given is still held or was
  taken away, and no instance is given twice without being taken away in between.

## Main results

* `Foreman.Store.Reachable.sound`: reachable stores are sound.
* `Foreman.Store.holds_of_perform`, `Foreman.Store.holds_perform`: whom an instance is held by after
  a deed, and what becomes of an instance that is held.
* `Foreman.Store.honoured_performAll`: bookings are honoured throughout a history.
-/

namespace Foreman

namespace Store

/-- What may be done to a store. -/
inductive Deed where
  /-- A kind of resource is described. -/
  | define (k : ResourceKind)
  /-- An instance is registered. -/
  | register (id kind : String) (attributes : Bindings) (now : Timestamp)
  /-- An instance is removed. -/
  | remove (id : String)
  /-- An instance is taken out of rotation. -/
  | retire (id : String)
  /-- An instance is put back into rotation. -/
  | reinstate (id : String)
  /-- A step is to be given what it requires. -/
  | allocate (step : String) (requirements : List Requirement)
  /-- A step gives back what it holds. -/
  | release (step : String)
  /-- All instances are removed. -/
  | clear

/-- What comes of a deed. -/
inductive Event where
  /-- An instance was registered. -/
  | registered (i : Instance)
  /-- An instance was removed, in the state it was in. -/
  | removed (i : Instance)
  /-- A step was given instances. -/
  | allocated (step : String) (ids : List String)
  /-- A step was told to give back what it held, which was these instances. -/
  | released (step : String) (ids : List String)
  /-- All instances were removed. -/
  | cleared

/-- Whether an event takes an instance away from a step, if the step holds it. -/
def Event.ends (step id : String) : Event → Prop
  | registered _ | allocated _ _ => False
  | removed i => i.id = id
  | released other _ => other = step
  | cleared => True

/-- One deed: what comes of it, and the store afterwards. -/
def perform (s : Store) : Deed → List Event × Store
  | .define k => ([], s.define k)
  | .register id kind attributes now =>
    match s.register id kind attributes now with
    | (.ok id, after, _) => ([.registered (.fresh id kind attributes now)], after)
    | (.error _, after, _) => ([], after)
  | .remove id => (((s.instance? id).map .removed).toList, (s.remove id).2.1)
  | .retire id => ([], (s.retire id).2)
  | .reinstate id => ([], (s.reinstate id).2)
  | .allocate step requirements =>
    match s.allocate step requirements with
    | (.ok given, after, _) => ([.allocated step given.instanceIds], after)
    | (.error _, after, _) => ([], after)
  | .release step => ([.released step (s.release step).1], (s.release step).2)
  | .clear => ([.cleared], s.clear)

/-- One deed after another. -/
def performAll (s : Store) : List Deed → List Event × Store
  | [] => ([], s)
  | d :: rest =>
    let later := (s.perform d).2.performAll rest
    ((s.perform d).1 ++ later.1, later.2)

/-- The stores that come about from the empty store by whatever is done to it. -/
def Reachable (s : Store) : Prop :=
  ∃ deeds, (performAll {} deeds).2 = s

theorem performAll_append (s : Store) (deeds others : List Deed) :
    s.performAll (deeds ++ others) =
      ((s.performAll deeds).1 ++ ((s.performAll deeds).2.performAll others).1,
        ((s.performAll deeds).2.performAll others).2) := by
  induction deeds generalizing s with
  | nil => rfl
  | cons d rest ih => simp [performAll, ih, List.append_assoc]

theorem performAll_singleton (s : Store) (d : Deed) : s.performAll [d] = s.perform d := by
  simp [performAll]

/-! ### What single deeds do -/

theorem perform_register (s : Store) (id kind : String) (attributes : Bindings)
    (now : Timestamp) : (s.perform (.register id kind attributes now)).2 =
      (s.register id kind attributes now).2.1 := by
  rcases h : s.register id kind attributes now with ⟨_ | _, after, notices⟩ <;> simp [perform, h]

theorem perform_allocate_snd (s : Store) (step : String) (requirements : List Requirement) :
    (s.perform (.allocate step requirements)).2 = (s.allocate step requirements).2.1 := by
  rcases h : s.allocate step requirements with ⟨_ | _, after, notices⟩ <;> simp [perform, h]

theorem perform_allocate_of_ok {s : Store} {step : String} {requirements : List Requirement}
    {given : Allotment} (h : (s.allocate step requirements).1 = .ok given) :
    (s.perform (.allocate step requirements)).1 = [.allocated step given.instanceIds] := by
  rcases ha : s.allocate step requirements with ⟨f | given', after, notices⟩
  · simp [ha] at h
  · obtain rfl : given' = given := by simpa [ha] using h
    simp [perform, ha]

/-- A step is refused and nothing changes, or it is given available instances. -/
theorem perform_allocate {s : Store} (hs : s.Sound) (step : String)
    (requirements : List Requirement) :
    s.perform (.allocate step requirements) = ([], s) ∨
      ∃ ids,
        s.perform (.allocate step requirements) = ([.allocated step ids], s.grantAll step ids) ∧
        s.AllAvailable ids ∧ ∀ id ∈ ids, id ∈ s.ids := by
  rcases h : s.allocate step requirements with ⟨f | given, after, notices⟩
  · left
    have hafter := (allocate_error hs (congrArg Prod.fst h)).1
    rw [h] at hafter
    simpa [perform, h] using hafter
  · right
    obtain ⟨choices, hwalk, rfl⟩ := allocate_ok hs (congrArg Prod.fst h)
    obtain ⟨hall, -, hafter⟩ := walk_eq_none hwalk
    rw [h] at hafter
    refine ⟨chosenIds choices, ?_, allAvailable_chosenIds hs hall, chosenIds_subset hall⟩
    simpa [perform, h, instanceIds_extend] using hafter

/-- Whether or not a step that held nothing is given what it requires, when it gives back what it
holds everything is as it was before. -/
theorem Sound.release_allocate {s : Store} (hs : s.Sound) {step : String}
    (hnone : s.HoldsNothing step) (requirements : List Requirement) :
    ((s.allocate step requirements).2.1.release step).2 = s := by
  rw [← perform_allocate_snd]
  rcases perform_allocate hs step requirements with h | ⟨ids, h, hfree, -⟩
  · rw [h]
    exact hnone.release_eq_self
  · rw [h]
    exact hs.release_grantAll hfree hnone

/-! ### Soundness -/

theorem Sound.perform {s : Store} (hs : s.Sound) (d : Deed) : (s.perform d).2.Sound := by
  cases d with
  | define k => exact hs.define k
  | register id kind attributes now =>
    rw [perform_register]
    exact hs.register id kind attributes now
  | remove id => exact hs.remove id
  | retire id => exact hs.retire id
  | reinstate id => exact hs.reinstate id
  | allocate step requirements =>
    rw [perform_allocate_snd]
    exact hs.allocate step requirements
  | release step => exact hs.release step
  | clear => exact sound_clear s

theorem Sound.performAll {s : Store} (hs : s.Sound) (deeds : List Deed) :
    (s.performAll deeds).2.Sound := by
  induction deeds generalizing s with
  | nil => exact hs
  | cons d rest ih => exact ih (hs.perform d)

/-- Reachable stores are sound. -/
theorem Reachable.sound {s : Store} (h : s.Reachable) : s.Sound := by
  obtain ⟨deeds, rfl⟩ := h
  exact sound_empty.performAll deeds

/-- Whatever is done to a reachable store, it is reachable. -/
theorem Reachable.performAll {s : Store} (h : s.Reachable) (deeds : List Deed) :
    (s.performAll deeds).2.Reachable := by
  obtain ⟨before, rfl⟩ := h
  exact ⟨before ++ deeds, by rw [performAll_append]⟩

/-- Kinds change only when one is described. -/
theorem Sound.kinds_perform {s : Store} (hs : s.Sound) {d : Deed} (hd : ∀ k, d ≠ .define k) :
    (s.perform d).2.kinds = s.kinds := by
  cases d with
  | define k => exact absurd rfl (hd k)
  | register id kind attributes now =>
    rw [perform_register, Store.register]
    split <;> rfl
  | remove id =>
    simp only [Store.perform, Store.remove]
    split <;> rfl
  | retire id =>
    simp only [Store.perform, Store.retire]
    split
    · split <;> rfl
    · rfl
  | reinstate id =>
    simp only [Store.perform, Store.reinstate]
    split
    · split <;> rfl
    · rfl
  | allocate step requirements =>
    rcases perform_allocate hs step requirements with h | ⟨ids, h, -, -⟩
    · rw [h]
    · rw [h]
      rfl
  | release step => rfl
  | clear => rfl

theorem Sound.kinds_performAll {s : Store} (hs : s.Sound) {deeds : List Deed}
    (hdeeds : ∀ k, .define k ∉ deeds) : (s.performAll deeds).2.kinds = s.kinds := by
  induction deeds generalizing s with
  | nil => rfl
  | cons d rest ih =>
    have hfirst := hs.kinds_perform fun k h => hdeeds k (h ▸ List.mem_cons_self)
    exact (ih (hs.perform d) fun k h => hdeeds k (List.mem_cons_of_mem d h)).trans hfirst

/-! ### Who holds what -/

/-- A step holds the instance of an id. -/
def Holds (s : Store) (step id : String) : Prop :=
  ∃ i ∈ s.instances, i.id = id ∧ i.holder = some step

/-- What a step was given, it holds, and it was available. -/
theorem allocated_mem_perform {s : Store} (hs : s.Sound) {d : Deed} {step : String}
    {ids : List String} (h : .allocated step ids ∈ (s.perform d).1) :
    (s.perform d).1 = [.allocated step ids] ∧ (s.perform d).2 = s.grantAll step ids ∧
      s.AllAvailable ids ∧ ∀ id ∈ ids, id ∈ s.ids := by
  cases d with
  | register id kind attributes now =>
    rcases hr : s.register id kind attributes now with ⟨_ | _, after, notices⟩ <;>
      simp [perform, hr] at h
  | remove id => simp [perform] at h
  | allocate other requirements =>
    rcases perform_allocate hs other requirements with ha | ⟨given, ha, hfree, hmem⟩
    · simp [ha] at h
    · rw [ha] at h ⊢
      obtain ⟨rfl, rfl⟩ : step = other ∧ ids = given := by simpa using h
      exact ⟨rfl, rfl, hfree, hmem⟩
  | _ => simp [perform] at h

theorem Holds.each {s : Store} {f : Instance → Instance} {step id : String}
    (hid : ∀ i, (f i).id = i.id) (hf : ∀ i ∈ s.instances, i.holder = some step → i.id = id →
      (f i).holder = some step) (h : s.Holds step id) : (s.each f).Holds step id := by
  obtain ⟨i, hi, rfl, hholder⟩ := h
  exact ⟨f i, mem_each.2 ⟨i, hi, rfl⟩, hid i, hf i hi hholder rfl⟩

theorem Holds.of_each {s : Store} {f : Instance → Instance} {step id : String}
    (hid : ∀ i, (f i).id = i.id) (hf : ∀ i, (f i).holder = some step → i.holder = some step)
    (h : (s.each f).Holds step id) : s.Holds step id := by
  obtain ⟨j, hj, rfl, hholder⟩ := h
  obtain ⟨i, hi, rfl⟩ := mem_each.1 hj
  exact ⟨i, hi, (hid i).symm, hf i hholder⟩

/-- Taking an instance out of rotation changes no holder. -/
theorem holds_retire {s : Store} {retired step id : String} :
    (s.retire retired).2.Holds step id ↔ s.Holds step id := by
  unfold retire
  split
  · split_ifs
    · rfl
    · rw [modify_eq_each]
      exact ⟨Holds.of_each (fun i => by split_ifs <;> rfl) fun i h => by split_ifs at h <;> exact h,
        Holds.each (fun i => by split_ifs <;> rfl) fun i _ h _ => by split_ifs <;> exact h⟩
  · rfl

/-- Putting an instance back into rotation changes no holder. -/
theorem holds_reinstate {s : Store} {reinstated step id : String} :
    (s.reinstate reinstated).2.Holds step id ↔ s.Holds step id := by
  unfold reinstate
  split
  · split_ifs
    · rw [modify_eq_each]
      exact ⟨Holds.of_each (fun i => by split_ifs <;> rfl) fun i h => by split_ifs at h <;> exact h,
        Holds.each (fun i => by split_ifs <;> rfl) fun i _ h _ => by split_ifs <;> exact h⟩
    · rfl
  · rfl

/-- A newly registered instance is held by no step. -/
theorem holds_register {s : Store} {new kind step id : String} {attributes : Bindings}
    {now : Timestamp} :
    (s.register new kind attributes now).2.1.Holds step id ↔ s.Holds step id := by
  unfold register
  by_cases h : s.has new
  · rw [if_pos h]
  · rw [if_neg h]
    simp [Holds, Instance.fresh]

/-- What a step holds after a deed, it held before or was given. -/
theorem holds_of_perform {s : Store} (hs : s.Sound) {d : Deed} {step id : String}
    (h : (s.perform d).2.Holds step id) :
    s.Holds step id ∨ ∃ ids, .allocated step ids ∈ (s.perform d).1 ∧ id ∈ ids := by
  cases d with
  | define k => exact .inl h
  | register new kind attributes now =>
    rw [perform_register, holds_register] at h
    exact .inl h
  | remove removed =>
    left
    obtain ⟨i, hi, hid, hholder⟩ := h
    refine ⟨i, ?_, hid, hholder⟩
    simp only [perform, remove] at hi
    split at hi
    · exact hi
    · exact List.mem_of_mem_filter hi
  | retire retired => exact .inl (holds_retire.1 h)
  | reinstate reinstated => exact .inl (holds_reinstate.1 h)
  | allocate other requirements =>
    rcases perform_allocate hs other requirements with ha | ⟨ids, ha, -, -⟩
    · rw [ha] at h
      exact .inl h
    · rw [ha] at h ⊢
      obtain ⟨j, hj, rfl, hholder⟩ := h
      obtain ⟨i, hi, rfl⟩ := mem_each.1 hj
      split_ifs at hholder ⊢ with hmem
      · obtain rfl : other = step := by simpa [Instance.grant] using hholder
        exact .inr ⟨ids, List.mem_singleton_self _, hmem⟩
      · exact .inl ⟨i, hi, rfl, hholder⟩
  | release other =>
    refine .inl (Holds.of_each (fun i => by split_ifs <;> simp) (fun i hi => ?_) h)
    split_ifs at hi with hheld
    · unfold Instance.release at hi
      split_ifs at hi
      exact hi
    · exact hi
  | clear =>
    obtain ⟨i, hi, -⟩ := h
    exact absurd hi List.not_mem_nil

/-- What a step holds after some deeds, it held before or was given by one of them. -/
theorem holds_of_performAll {s : Store} (hs : s.Sound) {deeds : List Deed} {step id : String}
    (h : (s.performAll deeds).2.Holds step id) :
    s.Holds step id ∨ ∃ ids, .allocated step ids ∈ (s.performAll deeds).1 ∧ id ∈ ids := by
  induction deeds generalizing s with
  | nil => exact .inl h
  | cons d rest ih =>
    rcases ih (hs.perform d) h with hheld | ⟨ids, hevent, hid⟩
    · rcases holds_of_perform hs hheld with hheld | ⟨ids, hevent, hid⟩
      · exact .inl hheld
      · exact .inr ⟨ids, List.mem_append_left _ hevent, hid⟩
    · exact .inr ⟨ids, List.mem_append_right _ hevent, hid⟩

theorem holdsNothing_iff_forall_not_holds {s : Store} {step : String} :
    s.HoldsNothing step ↔ ∀ id, ¬ s.Holds step id := by
  constructor
  · rintro h id ⟨i, hi, -, hholder⟩
    exact h i hi hholder
  · intro h i hi hholder
    exact h i.id ⟨i, hi, rfl, hholder⟩

/-- A step that holds nothing, and is not given anything, holds nothing. -/
theorem HoldsNothing.performAll {s : Store} {step : String} (h : s.HoldsNothing step)
    (hs : s.Sound) {deeds : List Deed}
    (hnone : ∀ ids, .allocated step ids ∉ (s.performAll deeds).1) :
    (s.performAll deeds).2.HoldsNothing step := by
  rw [holdsNothing_iff_forall_not_holds] at h ⊢
  intro id hheld
  rcases holds_of_performAll hs hheld with hbefore | ⟨ids, hevent, -⟩
  · exact h id hbefore
  · exact hnone ids hevent

/-- A step that holds nothing still holds nothing after another step was given what it requires. -/
theorem HoldsNothing.allocate {s : Store} {step other : String} (h : s.HoldsNothing step)
    (hs : s.Sound) (hne : other ≠ step) (requirements : List Requirement) :
    (s.performAll [.allocate other requirements]).2.HoldsNothing step := by
  refine h.performAll hs fun ids hevent => ?_
  rw [performAll_singleton] at hevent
  rcases perform_allocate hs other requirements with ha | ⟨given, ha, -, -⟩
  · simp [ha] at hevent
  · rw [ha] at hevent
    exact hne (Event.allocated.inj (List.mem_singleton.1 hevent)).1.symm

/-- Steps that give back what they hold are given nothing. -/
theorem allocated_not_mem_performAll_release (s : Store) (steps : List String) (step : String)
    (ids : List String) : .allocated step ids ∉ (s.performAll (steps.map .release)).1 := by
  induction steps generalizing s with
  | nil => exact List.not_mem_nil
  | cons other rest ih =>
    rw [List.map_cons, performAll, List.mem_append, not_or]
    exact ⟨by simp [perform], ih _⟩

/-- A step that holds nothing still holds nothing after some steps gave back what they held. -/
theorem HoldsNothing.performAll_release {s : Store} {step : String} (h : s.HoldsNothing step)
    (hs : s.Sound) (steps : List String) :
    (s.performAll (steps.map .release)).2.HoldsNothing step :=
  h.performAll hs fun ids => allocated_not_mem_performAll_release s steps step ids

/-- Steps that hold nothing give nothing back. -/
theorem performAll_release_eq_self {s : Store} {steps : List String}
    (h : ∀ step ∈ steps, s.HoldsNothing step) : (s.performAll (steps.map .release)).2 = s := by
  induction steps with
  | nil => rfl
  | cons step rest ih =>
    have hfirst : (s.perform (.release step)).2 = s :=
      (h step List.mem_cons_self).release_eq_self
    have hrest := ih fun other hother => h other (List.mem_cons_of_mem _ hother)
    rw [List.map_cons, performAll, hfirst, hrest]

/-- What a step holds, it still holds after a deed, unless what came of the deed took it away. -/
theorem holds_perform {s : Store} (hs : s.Sound) (d : Deed) {step id : String}
    (h : s.Holds step id) :
    (s.perform d).2.Holds step id ∨ ∃ e ∈ (s.perform d).1, e.ends step id := by
  cases d with
  | define k => exact .inl h
  | register new kind attributes now =>
    rw [perform_register, holds_register]
    exact .inl h
  | remove removed =>
    obtain ⟨i, hi, rfl, hholder⟩ := h
    by_cases hid : i.id = removed
    · subst hid
      exact .inr ⟨.removed i, by simp [perform, hs.instance? hi], rfl⟩
    · left
      refine ⟨i, ?_, rfl, hholder⟩
      simp only [perform, remove]
      split
      · exact hi
      · exact List.mem_filter.2 ⟨hi, by simpa using hid⟩
  | retire retired => exact .inl (holds_retire.2 h)
  | reinstate reinstated => exact .inl (holds_reinstate.2 h)
  | allocate other requirements =>
    left
    rcases perform_allocate hs other requirements with ha | ⟨ids, ha, hfree, -⟩
    · rw [ha]
      exact h
    · rw [ha]
      refine h.each (fun i => by split_ifs <;> rfl) fun i hi hholder _ => ?_
      have hnot : i.id ∉ ids := fun hmem => by
        have hnone := (hs.coherent i hi).holder_eq_none (hfree i hi hmem)
        simp [hnone] at hholder
      rw [if_neg hnot]
      exact hholder
  | release other =>
    by_cases hother : other = step
    · exact .inr ⟨_, List.mem_singleton_self _, hother⟩
    · refine .inl (h.each (fun i => by split_ifs <;> simp) fun i _ hholder _ => ?_)
      have hnot : ¬ i.isHeldBy other = true := by simp [Instance.isHeldBy, hholder, Ne.symm hother]
      rw [if_neg hnot]
      exact hholder
  | clear => exact .inr ⟨.cleared, List.mem_singleton_self _, trivial⟩

/-! ### Bookings -/

/-- Whatever a history says a step was given, the step holds or was taken away from it since. -/
def Honoured (history : List Event) (s : Store) : Prop :=
  ∀ before step ids after, history = before ++ .allocated step ids :: after →
    ∀ id ∈ ids, s.Holds step id ∨ ∃ e ∈ after, e.ends step id

/-- No history gives an instance to a step twice, or to two steps, unless it was taken away from the
first in between. -/
def BookedOnce (history : List Event) : Prop :=
  ∀ before step ids between other again after,
    history = before ++ .allocated step ids :: (between ++ .allocated other again :: after) →
    ∀ id ∈ ids, id ∈ again → ∃ e ∈ between, e.ends step id

/-- Where an entry of two lists in a row stands. -/
private theorem append_eq_append_cons {α : Type} {l m before after : List α} {a : α}
    (h : l ++ m = before ++ a :: after) :
    (∃ rest, l = before ++ a :: rest ∧ after = rest ++ m) ∨
      ∃ rest, m = rest ++ a :: after ∧ before = l ++ rest := by
  rcases List.append_eq_append_iff.1 h with ⟨rest, hbefore, hm⟩ | ⟨rest, hl, hrest⟩
  · exact .inr ⟨rest, hm, hbefore⟩
  · cases rest with
    | nil => exact .inr ⟨[], by simpa using hrest.symm, by simpa using hl.symm⟩
    | cons b rest =>
      obtain ⟨rfl, rfl⟩ : a = b ∧ after = rest ++ m := by simpa using hrest
      exact .inl ⟨rest, hl, rfl⟩

/-- Bookings are honoured after a deed if they were before. -/
theorem Honoured.perform {history : List Event} {s : Store} (h : Honoured history s)
    (hs : s.Sound) (d : Deed) : Honoured (history ++ (s.perform d).1) (s.perform d).2 := by
  intro before step ids after heq id hid
  rcases append_eq_append_cons heq with ⟨rest, hhistory, rfl⟩ | ⟨rest, hnew, rfl⟩
  · rcases h before step ids rest hhistory id hid with hholds | ⟨e, he, hends⟩
    · rcases holds_perform hs d hholds with hstill | ⟨e, he, hends⟩
      · exact .inl hstill
      · exact .inr ⟨e, List.mem_append_right _ he, hends⟩
    · exact .inr ⟨e, List.mem_append_left _ he, hends⟩
  · left
    obtain ⟨-, hafter, -, hmem⟩ := allocated_mem_perform hs (hnew ▸ List.mem_append_right _
      List.mem_cons_self)
    obtain ⟨i, hi, rfl⟩ := List.mem_map.1 (hmem id hid)
    rw [hafter]
    exact ⟨i.grant step, mem_each.2 ⟨i, hi, if_pos hid⟩, rfl, rfl⟩

/-- A deed gives no instance that some step has been given and that was not taken away from it. -/
theorem BookedOnce.perform {history : List Event} {s : Store} (h : BookedOnce history)
    (hh : Honoured history s) (hs : s.Sound) (d : Deed) :
    BookedOnce (history ++ (s.perform d).1) := by
  intro before step ids between other again after heq id hid hid'
  rw [show before ++ .allocated step ids :: (between ++ .allocated other again :: after) =
    (before ++ .allocated step ids :: between) ++ .allocated other again :: after by simp] at heq
  rcases append_eq_append_cons heq with ⟨rest, hhistory, -⟩ | ⟨rest, hnew, hbefore⟩
  · exact h before step ids between other again rest (by simpa using hhistory) id hid hid'
  · -- the instance is given by the deed itself, so it was available until now
    obtain ⟨hsingle, -, hfree, -⟩ := allocated_mem_perform hs (hnew ▸ List.mem_append_right _
      List.mem_cons_self)
    have hrest : rest = [] := by
      rw [hsingle] at hnew
      cases rest with
      | nil => rfl
      | cons e rest => simp at hnew
    subst hrest
    rcases hh before step ids between (by simpa using hbefore.symm) id hid with hholds | hends
    · obtain ⟨i, hi, rfl, hholder⟩ := hholds
      have hnone := (hs.coherent i hi).holder_eq_none (hfree i hi hid')
      simp [hnone] at hholder
    · exact hends

/-- Throughout a history bookings are honoured and nothing is booked twice. -/
theorem honoured_performAll {history : List Event} {s : Store} (hs : s.Sound)
    (hh : Honoured history s) (h : BookedOnce history) (deeds : List Deed) :
    Honoured (history ++ (s.performAll deeds).1) (s.performAll deeds).2 ∧
      BookedOnce (history ++ (s.performAll deeds).1) := by
  induction deeds generalizing history s with
  | nil => simpa [performAll] using ⟨hh, h⟩
  | cons d rest ih =>
    simpa [performAll, List.append_assoc] using
      ih (hs.perform d) (hh.perform hs d) (h.perform hh hs d)

theorem honoured_nil (s : Store) : Honoured [] s := by
  intro before step ids after h
  simp at h

theorem bookedOnce_nil : BookedOnce [] := by
  intro before step ids between other again after h
  simp at h

end Store

end Foreman
