import Foreman.Proofs.Workshop.Floor
/-!
# Bookings

No instance is booked twice. However the floor of a workshop moves, an instance that a step was
given is given to a step again only after it was taken away from the first, and a step that is on
record as running holds whatever it is on record to have been given, unless that was taken away from
it.

## Main definitions

* `Foreman.RunRecord.Backed`: what the running steps of a record are said to have been given, they
  were given.
* `Foreman.Floor.Booked`: the invariant of the floor.

## Main results

* `Foreman.Floor.Moves.booked`: the invariant holds however the floor moves.
* `Foreman.Floor.no_double_booking`: no instance is booked twice.
-/

namespace Foreman

open Store (Deed Event)

/-- If a step is on record as running, and as having been given something, a history says that it
was given this. -/
def StepRecord.Backed (history : List Event) (s : StepRecord) : Prop :=
  s.status = .running → s.resourceIds = [] ∨ .allocated s.id s.resourceIds ∈ history

namespace RunRecord

/-- What the running steps of a record are said to have been given, they were given. -/
def Backed (history : List Event) (r : RunRecord) : Prop :=
  ∀ s ∈ r.steps, s.Backed history

variable {history : List Event} {r : RunRecord}

theorem Backed.mono (h : r.Backed history) (events : List Event) : r.Backed (history ++ events) :=
  fun s hs hrunning => (h s hs hrunning).imp_right (List.mem_append_left events)

/-- A step that begins has not been given anything. -/
theorem Backed.begin (h : r.Backed history) (s : Step) (id : String) (now : Timestamp) :
    (r.begin s id now).Backed history := by
  intro t ht
  rcases List.mem_append.1 ht with ht | ht
  · exact h t ht
  · rw [List.mem_singleton.1 ht]
    exact fun _ => .inl rfl

theorem Backed.modifyLast (h : r.Backed history) {earlier : List StepRecord} {last : StepRecord}
    (hsteps : r.steps = earlier ++ [last]) {f : StepRecord → StepRecord}
    (hlast : (f last).Backed history) : (r.modifyLast f).Backed history := by
  intro t ht
  rw [steps_modifyLast hsteps, List.mem_append, List.mem_singleton] at ht
  rcases ht with ht | rfl
  · exact h t (hsteps ▸ List.mem_append_left _ ht)
  · exact hlast

theorem Backed.last (h : r.Backed history) {earlier : List StepRecord} {last : StepRecord}
    (hsteps : r.steps = earlier ++ [last]) : last.Backed history :=
  h last (hsteps ▸ List.mem_append_right _ (List.mem_singleton_self last))

end RunRecord

namespace Ledger

variable {l : Ledger} {r : RunRecord} {P : RunRecord → Prop}

theorem forall_active_start (h : ∀ run ∈ l.active, P run) (hr : P r) :
    ∀ run ∈ (l.start r).active, P run := by
  intro run hrun
  rcases List.mem_append.1 hrun with hrun | hrun
  · exact h run hrun
  · rwa [List.mem_singleton.1 hrun]

theorem forall_active_publish (h : ∀ run ∈ l.active, P run) (hr : P r) :
    ∀ run ∈ (l.publish r).active, P run := by
  intro run hrun
  obtain ⟨run', hrun', rfl⟩ := List.mem_map.1 hrun
  split
  · exact hr
  · exact h run' hrun'

theorem active_drop_subset (l : Ledger) (id : String) : (l.drop id).active ⊆ l.active :=
  List.filter_subset_self _

theorem active_finish_subset (l : Ledger) (r : RunRecord) : (l.finish r).active ⊆ l.active := by
  unfold finish
  split
  · exact l.active_drop_subset r.id
  · exact List.Subset.refl _

end Ledger

namespace Errand

variable {e e' : Errand} {w w' : Workshop} {deeds : List Deed} {history : List Event}

/-- A run that ends is not on record as being under way any more, and no other record changes. -/
theorem Returns.active_subset {run : RunRecord} {failure : Option Failure}
    (h : e.Returns w deeds run failure w') : w'.ledger.active ⊆ w.ledger.active := by
  cases h with
  | abandoned hclosed hidle =>
    have hnoted := Workshop.does_note (.runAbandoned e.run.id e.run.steps.length) w
    have hreleased := (hnoted.trans (Workshop.does_releaseAll e.run.ids _)).ledger
    rw [RunRecord.ids, List.foldl_map] at hreleased
    intro run hrun
    have hactive := Ledger.active_drop_subset _ _ hrun
    rwa [hreleased] at hactive
  | completed hopen => exact Ledger.active_finish_subset _ _
  | failed hopen => exact Ledger.active_finish_subset _ _

/-- What a run puts on record in a turn, and what it publishes of it, is backed by the history, the
events of the turn included. -/
theorem Turn.backed (h : e.Turn w deeds e' w') (he : e.OnRecord) (hrun : e.run.Backed history)
    (hactive : ∀ run ∈ w.ledger.active, run.Backed history) :
    e'.run.Backed (history ++ (w.store.performAll deeds).1) ∧
      ∀ run ∈ w'.ledger.active, run.Backed (history ++ (w.store.performAll deeds).1) := by
  have hrun' := hrun.mono (w.store.performAll deeds).1
  have hactive' := fun run hmem => (hactive run hmem).mono (w.store.performAll deeds).1
  cases h with
  | @begin run s rest w hopen =>
    have hnew := hrun'.begin s (Workshop.beginStep run s w).1 w.now
    exact ⟨hnew, Ledger.forall_active_publish hactive' hnew⟩
  | @supply run left s id w given hgiven =>
    obtain ⟨earlier, last, hsteps, rfl⟩ := he id rfl
    have hnew : (run.supply given (run.inputsFor s)).Backed
        (history ++ (w.store.performAll [.allocate last.id s.requirements]).1) := by
      rw [Workshop.allocate_fst] at hgiven
      refine hrun'.modifyLast hsteps fun _ => .inr (List.mem_append_right _ ?_)
      rw [Store.performAll_singleton, Store.perform_allocate_of_ok hgiven]
      exact List.mem_singleton_self _
    exact ⟨hnew, Ledger.forall_active_publish hactive' hnew⟩
  | refuse hrefused => exact ⟨hrun', hactive'⟩
  | @deliver run left s id w result =>
    obtain ⟨earlier, last, hsteps, rfl⟩ := he id rfl
    have hlast := hrun'.last hsteps
    exact ⟨hrun'.modifyLast hsteps hlast, hactive'⟩
  | giveUp f => exact ⟨hrun', hactive'⟩
  | @settle run left s id failure w =>
    obtain ⟨earlier, last, hsteps, rfl⟩ := he id rfl
    have hnew : (Workshop.endStep run last.id failure w).1.Backed
        (history ++ (w.store.performAll [.release last.id]).1) := by
      refine hrun'.modifyLast hsteps fun hrunning => ?_
      cases failure <;> simp [StepRecord.become] at hrunning
    exact ⟨hnew, Ledger.forall_active_publish hactive' hnew⟩

end Errand

namespace Store

/-- A step holds the instance of an id, which is the only one of that id, and allocated. -/
def HoldsExactly (s : Store) (step id : String) : Prop :=
  ∃ i ∈ s.instances, i.id = id ∧ i.status = .allocated ∧ i.holder = some step ∧
    ∀ j ∈ s.instances, j.id = id → j = i

theorem Sound.holdsExactly {s : Store} (hs : s.Sound) {step id : String} (h : s.Holds step id) :
    s.HoldsExactly step id := by
  obtain ⟨i, hi, rfl, hholder⟩ := h
  exact ⟨i, hi, rfl, (hs.coherent i hi).2 (by simp [hholder]), hholder,
    fun j hj hid => hs.eq_of_id_eq hj hi hid⟩

end Store

namespace Floor

variable {σ τ : Floor} {deeds : List Deed} {history : List Event}

/-- Bookings are honoured and nothing is booked twice; the records of the runs under way are backed
by the history, both the published ones and those that the runs keep for themselves. -/
structure Booked (history : List Event) (σ : Floor) : Prop where
  /-- The store is sound. -/
  sound : σ.shop.store.Sound
  /-- Bookings are honoured. -/
  honoured : Store.Honoured history σ.shop.store
  /-- Nothing is booked twice. -/
  bookedOnce : Store.BookedOnce history
  /-- The published records are backed. -/
  active : ∀ run ∈ σ.shop.ledger.active, run.Backed history
  /-- The records that runs keep are backed. -/
  errands : ∀ e ∈ σ.errands, e.OnRecord ∧ e.run.Backed history

/-- In a workshop in which nothing has happened nothing is booked. -/
theorem booked_new (config : Config) (library : Library) (wiring : Wiring) :
    Booked [] ⟨.new config library wiring, []⟩ :=
  ⟨Store.sound_empty, Store.honoured_nil _, Store.bookedOnce_nil,
    fun _ hrun => absurd hrun List.not_mem_nil, fun _ he => absurd he List.not_mem_nil⟩

/-- What a move leaves on record is backed by the history, the events of the move included. -/
theorem Move.backed (h : Move σ deeds τ) (hb : Booked history σ) :
    (∀ run ∈ τ.shop.ledger.active,
      run.Backed (history ++ (σ.shop.store.performAll deeds).1)) ∧
    ∀ e ∈ τ.errands, e.OnRecord ∧ e.run.Backed (history ++ (σ.shop.store.performAll deeds).1) := by
  have hactive := fun run hrun => (hb.active run hrun).mono (σ.shop.store.performAll deeds).1
  have herrands (e : Errand) (he : e ∈ σ.errands) :
      e.OnRecord ∧ e.run.Backed (history ++ (σ.shop.store.performAll deeds).1) :=
    (hb.errands e he).imp_right fun hrun => hrun.mono _
  cases h with
  | act hdoes =>
    refine ⟨?_, herrands⟩
    rw [hdoes.ledger]
    exact hactive
  | @shutdown w errands =>
    refine ⟨fun run hrun => ?_, herrands⟩
    rw [w.does_shutdown.ledger] at hrun
    exact absurd hrun List.not_mem_nil
  | enter errands input hopen hload =>
    refine ⟨Ledger.forall_active_start hactive fun s hs => absurd hs List.not_mem_nil, ?_⟩
    intro e he
    rcases List.mem_cons.1 he with rfl | he
    · exact ⟨Errand.onRecord_ofRun _ _, fun s hs => absurd hs List.not_mem_nil⟩
    · exact herrands e he
  | @turn w w' e e' deeds before after hturn =>
    obtain ⟨honRecord, hrun⟩ := hb.errands e (by simp)
    obtain ⟨hrun', hactive'⟩ := hturn.backed honRecord hrun hb.active
    refine ⟨hactive', fun f hf => ?_⟩
    rcases List.mem_append.1 hf with hf | hf
    · exact herrands f (List.mem_append_left _ hf)
    · rcases List.mem_cons.1 hf with rfl | hf
      · exact ⟨hturn.onRecord honRecord, hrun'⟩
      · exact herrands f (List.mem_append_right _ (List.mem_cons_of_mem _ hf))
  | @leave w w' e deeds run failure before after hreturns =>
    refine ⟨fun run hrun => hactive run (hreturns.active_subset hrun), fun f hf => ?_⟩
    rcases List.mem_append.1 hf with hf | hf
    · exact herrands f (List.mem_append_left _ hf)
    · exact herrands f (List.mem_append_right _ (List.mem_cons_of_mem _ hf))
  | drop before after hwork =>
    refine ⟨hactive, fun f hf => herrands f ?_⟩
    exact List.perm_middle.mem_iff.2 (List.mem_cons_of_mem _ hf)

/-- A move keeps the bookings. -/
theorem Move.booked (h : Move σ deeds τ) (hb : Booked history σ) :
    Booked (history ++ (σ.shop.store.performAll deeds).1) τ := by
  obtain ⟨hactive, herrands⟩ := h.backed hb
  obtain ⟨hhonoured, honce⟩ :=
    Store.honoured_performAll hb.sound hb.honoured hb.bookedOnce deeds
  refine ⟨?_, ?_, honce, hactive, herrands⟩
  · rw [h.store]
    exact hb.sound.performAll deeds
  · rw [h.store]
    exact hhonoured

/-- However the floor moves, the bookings are kept. -/
theorem Moves.booked (h : Moves σ deeds τ) (hb : Booked history σ) :
    Booked (history ++ (σ.shop.store.performAll deeds).1) τ := by
  induction h with
  | refl => simpa [Store.performAll] using hb
  | @tail deeds τ more υ hmoves hmove ih =>
    rw [Store.performAll_append, ← List.append_assoc, ← hmoves.store]
    exact hmove.booked ih

/-- No instance is booked twice. However the floor of a new workshop has moved, whenever its history
says that a step was given an instance and that later on a step was given the same instance again,
the instance was taken away from the first step in between. And whatever a step that is on record as
running is on record to have been given, the history says it was given, and the step, and no other,
still holds it unless it was taken away since.

Every command moves the floor, whoever attends to the executors in its course, if what is done for
them moves every floor that can be reached from here. So do all the commands of a session, whatever
executors ask for in their course. -/
theorem no_double_booking {config : Config} {library : Library} {wiring : Wiring}
    (h : Moves ⟨.new config library wiring, []⟩ deeds σ) :
    σ.shop.store = (Store.performAll {} deeds).2 ∧
    Store.BookedOnce (Store.performAll {} deeds).1 ∧
    (∀ run ∈ σ.shop.ledger.active, ∀ s ∈ run.steps, s.status = .running → ∀ id ∈ s.resourceIds,
      .allocated s.id s.resourceIds ∈ (Store.performAll {} deeds).1 ∧
      ∀ before after,
        (Store.performAll {} deeds).1 = before ++ .allocated s.id s.resourceIds :: after →
        σ.shop.store.HoldsExactly s.id id ∨ ∃ e ∈ after, e.ends s.id id) ∧
    (∀ attendant, (∀ commands v, Workshop.Leads σ v (attendant commands v).2) →
      ∀ c, ∃ others, Moves σ others ⟨(Workshop.answer attendant c σ.shop).2, σ.errands⟩) ∧
    ∀ levels commands, ∃ others, Moves σ others
      ⟨(Workshop.replies (Workshop.perform levels) commands σ.shop).2, σ.errands⟩ := by
  have hb := h.booked (booked_new config library wiring)
  refine ⟨h.store, hb.bookedOnce, fun run hrun s hs hrunning id hid => ⟨?_, ?_⟩, ?_, ?_⟩
  · -- a step that was given nothing is on record without ids
    rcases hb.active run hrun s hs hrunning with hnone | hevent
    · rw [hnone] at hid
      exact absurd hid List.not_mem_nil
    · exact hevent
  · intro before after hhistory
    have hheld := hb.honoured before s.id s.resourceIds after hhistory id hid
    exact hheld.imp_left hb.sound.holdsExactly
  · intro attendant hattend c
    exact Workshop.answer_leads hattend c σ.shop σ.errands [] .refl
  · intro levels commands
    exact Workshop.replies_leads levels commands σ.shop σ.errands [] .refl

/-- A step that needs an oven. -/
def baking : Step :=
  { name := "bake", requirements := [{ name := "heat", preferences := [.specific "oven"] }] }

/-- A playbook of this one step. -/
def bread : Playbook :=
  { name := "bread", steps := [baking] }

/-- A new workshop, with the playbook on the shelf. -/
def opened : Workshop :=
  .new {} (.ofPlaybooks [bread]) .own

/-- The workshop after an oven was registered. -/
def equipped : Workshop :=
  (opened.register "oven" (.ofList [("id", .text "oven")])).2

/-- The run of the playbook, and the workshop, after the step has begun. -/
def begun : String × RunRecord × Workshop :=
  Workshop.beginStep (equipped.beginRun bread .empty).1 baking (equipped.beginRun bread .empty).2

/-- What the step is given. -/
def oven : Allotment :=
  ⟨begun.1, [⟨"heat", "oven", "oven", .specific⟩], []⟩

/-- The record of the run while the oven is in use. -/
def baker : RunRecord :=
  begun.2.1.supply oven (begun.2.1.inputsFor baking)

/-- The floor while the oven is in use. -/
def atWork : Floor :=
  ⟨(begun.2.2.allocate begun.1 baking.requirements).2.publish baker,
    [⟨baker, [], .atWork baking begun.1⟩]⟩

/-- While the oven is in use, the step that is on record as running, and as having been given the
oven, holds it. -/
theorem no_double_booking_bakery :
    ∃ deeds, Moves ⟨opened, []⟩ deeds atWork ∧
      (atWork.shop.ledger.active.flatMap fun run =>
        run.steps.map fun s => (s.id, s.status, s.resourceIds)) =
          [(begun.1, .running, ["oven"])] ∧
      atWork.shop.store.HoldsExactly begun.1 "oven" := by
  have hload : equipped.library.load "bread" = .ok bread := by rfl
  have hgiven : (begun.2.2.allocate begun.1 baking.requirements).1 = .ok oven := by rfl
  have hentered := (Move.act (Workshop.does_register "oven" (.ofList [("id", .text "oven")])
    opened)).single.tail (.enter [] .empty rfl hload)
  have hmoves : Moves ⟨opened, []⟩ _ atWork :=
    (hentered.tail (.turn [] [] (.begin rfl))).tail (.turn [] [] (.supply hgiven))
  refine ⟨_, hmoves, by rfl, ?_⟩
  obtain ⟨-, -, hrecords, -, -⟩ := no_double_booking hmoves
  have hactive : atWork.shop.ledger.active = [baker] := by rfl
  have hrun : baker ∈ atWork.shop.ledger.active := by
    rw [hactive]
    exact List.mem_singleton_self baker
  obtain ⟨s, hs, hid, hrunning, hids⟩ :
      ∃ s ∈ baker.steps, s.id = begun.1 ∧ s.status = .running ∧ s.resourceIds = ["oven"] :=
    ⟨_, List.mem_singleton_self _, rfl, rfl, rfl⟩
  obtain ⟨-, hheld⟩ := hrecords baker hrun s hs hrunning "oven" (by simp [hids])
  rw [hid, hids] at hheld
  rcases hheld [_] [] rfl with hholds | ⟨e, he, -⟩
  · exact hholds
  · exact absurd he List.not_mem_nil

end Floor

end Foreman
