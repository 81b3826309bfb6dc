import Foreman.Proofs.Workshop.Errand
/-!
# Runs give back what they hold

However a run of a playbook returns, none of its steps holds anything any more. Executors may do
what they like to the store in the meantime, other runs and shutting down included, as long as
nothing is given to a step of the run that has come to its end. If they leave the store alone, it is
in the end as it was in the beginning. Only a run that is dropped on the way leaves its last step
with what it holds.

## Main definitions

* `Foreman.Errand.Spares`: what happens besides gives nothing to a step that has come to its end.
* `Foreman.Errand.Tidy`: no step of a run but the one under way holds anything.
* `Foreman.Errand.Restorable`: once the step under way gives back what it holds, the store is as it
  was.

## Main results

* `Foreman.Workshop.executePlaybook_gives_back`: runs leave nothing behind.
-/

namespace Foreman

open Store (Deed)

namespace Errand

/-- The ids of the steps of a run that have come to their end. -/
def ended (e : Errand) : List String :=
  match e.stage.current? with
  | none => e.run.ids
  | some _ => e.run.ids.dropLast

/-- Something happens besides a run: some deeds are done to the store, none of which gives anything
to a step of the run that has come to its end. -/
def Spares (e : Errand) (w w' : Workshop) : Prop :=
  ∃ deeds, w'.store = (w.store.performAll deeds).2 ∧
    ∀ step ids, .allocated step ids ∈ (w.store.performAll deeds).1 → step ∉ e.ended

/-- Doing nothing to the store spares every step. -/
theorem spares_of_store_eq (e : Errand) {w w' : Workshop} (h : w'.store = w.store) :
    e.Spares w w' :=
  ⟨[], h, fun _ _ hevent => absurd hevent List.not_mem_nil⟩

/-- Shutting everything down spares every step. -/
theorem spares_shutdown (e : Errand) (w : Workshop) : e.Spares w w.shutdown := by
  refine ⟨_, w.does_shutdown.store, fun step ids hevent => ?_⟩
  rw [Store.performAll_append, List.mem_append] at hevent
  rcases hevent with hreleased | hcleared
  · exact absurd hreleased (Store.allocated_not_mem_performAll_release _ _ step ids)
  · simp [Store.performAll, Store.perform] at hcleared

theorem ended_eq_ids {e : Errand} (h : e.stage.current? = none) : e.ended = e.run.ids := by
  simp only [ended, h]

/-- With the step under way, the steps that have come to their end are all there are. -/
theorem OnRecord.ids_eq {e : Errand} (he : e.OnRecord) {id : String}
    (h : e.stage.current? = some id) : e.run.ids = e.ended ++ [id] := by
  obtain ⟨earlier, last, hsteps, rfl⟩ := he id h
  simp [ended, h, RunRecord.ids, hsteps]

theorem OnRecord.mem_ids {e : Errand} (he : e.OnRecord) {id : String}
    (h : e.stage.current? = some id) : id ∈ e.run.ids := by
  rw [he.ids_eq h]
  exact List.mem_append_right _ (List.mem_singleton_self id)

/-! ### Nothing is left behind -/

/-- The store is sound, and no step of a run that has come to its end holds anything, unless it has
the id of the step under way. Nothing is assumed of the ids, so the exception cannot be left out. -/
structure Tidy (e : Errand) (w : Workshop) : Prop where
  /-- The store is sound. -/
  sound : w.store.Sound
  /-- The step under way is the last one on the record. -/
  onRecord : e.OnRecord
  /-- Steps that have come to their end hold nothing. -/
  ended : ∀ id ∈ e.ended, e.stage.current? ≠ some id → w.store.HoldsNothing id

/-- A turn of a run gives nothing to the steps that have come to their end. -/
theorem Turn.tidy {e e' : Errand} {w w' : Workshop} {deeds : List Deed} (h : e.Turn w deeds e' w')
    (he : e.Tidy w) : e'.Tidy w' := by
  refine ⟨?_, h.onRecord he.onRecord, ?_⟩
  · rw [h.store]
    exact he.sound.performAll deeds
  · intro id hid hcurrent
    rw [h.store]
    cases h with
    | begin hopen =>
      refine he.ended id ?_ (by simp [Stage.current?])
      simpa [Errand.ended, Stage.current?, Workshop.beginStep] using hid
    | supply hgiven =>
      refine (he.ended id ?_ hcurrent).allocate he.sound (fun h => hcurrent (congrArg some h)) _
      simpa [Errand.ended, Stage.current?] using hid
    | refuse hrefused =>
      exact (he.ended id hid hcurrent).allocate he.sound (fun h => hcurrent (congrArg some h)) _
    | deliver result =>
      refine he.ended id ?_ hcurrent
      simpa [Errand.ended, Stage.current?] using hid
    | giveUp f => exact he.ended id hid hcurrent
    | @settle run left s current failure w =>
      have hids : id ∈ run.ids := by
        simpa [Errand.ended, Workshop.endStep] using hid
      -- the step that ends gives back what it holds; the others held nothing before
      rw [he.onRecord.ids_eq rfl, List.mem_append, List.mem_singleton] at hids
      by_cases heq : id = current
      · subst heq
        exact he.sound.holdsNothing_release id
      · have hbefore := hids.resolve_right heq
        have hnothing := he.ended id hbefore fun h => heq (Option.some.inj h).symm
        exact hnothing.performAll_release he.sound [current]

/-- Neither does anything that spares them. -/
theorem Spares.tidy {e : Errand} {w w' : Workshop} (h : e.Spares w w') (he : e.Tidy w) :
    e.Tidy w' := by
  obtain ⟨deeds, hstore, hspared⟩ := h
  refine ⟨?_, he.onRecord, fun id hid hcurrent => ?_⟩
  · rw [hstore]
    exact he.sound.performAll deeds
  · rw [hstore]
    exact (he.ended id hid hcurrent).performAll he.sound fun ids hevent => hspared id ids hevent hid

theorem Course.onRecord {besides : Errand → Workshop → Workshop → Prop} {e₀ e : Errand}
    {w₀ w : Workshop} (h : Course besides e₀ w₀ e w) (h₀ : e₀.OnRecord) : e.OnRecord := by
  induction h with
  | start => exact h₀
  | turn _ hturn ih => exact hturn.onRecord ih
  | meanwhile _ _ ih => exact ih

theorem Course.tidy {besides : Errand → Workshop → Workshop → Prop} {e₀ e : Errand}
    {w₀ w : Workshop} (hspares : ∀ e v v', besides e v v' → e.Spares v v')
    (h : Course besides e₀ w₀ e w) (h₀ : e₀.Tidy w₀) : e.Tidy w := by
  induction h with
  | start => exact h₀
  | turn _ hturn ih => exact hturn.tidy ih
  | meanwhile _ hbesides ih => exact (hspares _ _ _ hbesides).tidy ih

/-- When a run ends, none of its steps holds anything. -/
theorem Returns.holdsNothing {e : Errand} {w w' : Workshop} {deeds : List Deed}
    {run : RunRecord} {failure : Option Failure} (h : e.Returns w deeds run failure w')
    (he : e.Tidy w) : ∀ id ∈ run.ids, w'.store.HoldsNothing id := by
  intro id hid
  rw [h.ids_eq] at hid
  have hidle := h.current?_eq_none
  have hbefore : w.store.HoldsNothing id :=
    he.ended id (by rwa [ended_eq_ids hidle]) (by simp [hidle])
  rw [h.store]
  rcases h.deeds_eq with rfl | rfl
  · exact hbefore
  · exact hbefore.performAll_release he.sound e.run.ids

/-! ### The store is as it was -/

/-- Once the step under way gives back what it holds, the store is as it was in the beginning. -/
def Restorable (s₀ : Store) (e : Errand) (w : Workshop) : Prop :=
  match e.stage with
  | .atWork _ id | .ending _ id _ => (w.store.release id).2 = s₀
  | .due | .begun _ _ | .failed _ _ => w.store = s₀

/-- A turn of a run keeps the store restorable, if the steps of the run held nothing in it in the
beginning. -/
theorem Turn.restorable {s₀ : Store} {e e' : Errand} {w w' : Workshop} {deeds : List Deed}
    (h : e.Turn w deeds e' w') (he : e.OnRecord) (hs : s₀.Sound)
    (hnone : ∀ id ∈ e'.run.ids, s₀.HoldsNothing id) (hr : Restorable s₀ e w) :
    Restorable s₀ e' w' := by
  cases h with
  | begin hopen => exact hr
  | @supply run left s id w given hgiven =>
    have hid : id ∈ run.ids := he.mem_ids rfl
    have hstore : w.store = s₀ := hr
    subst hstore
    exact hs.release_allocate (hnone id (by simpa using hid)) s.requirements
  | @refuse run left s id w f hrefused =>
    have hid : id ∈ run.ids := he.mem_ids rfl
    have hstore : w.store = s₀ := hr
    subst hstore
    exact hs.release_allocate (hnone id hid) s.requirements
  | deliver result => exact hr
  | giveUp f => exact hr
  | @settle run left s id failure w =>
    cases failure with
    | none => exact hr
    | some f => exact hr

theorem Restorable.congr {s₀ : Store} {e : Errand} {w w' : Workshop} (hr : Restorable s₀ e w)
    (h : w'.store = w.store) : Restorable s₀ e w' := by
  unfold Restorable at hr ⊢
  rwa [h]

/-- Only the turns of a run that begin a step change the ids of its steps. -/
theorem Turn.ids_subset {e e' : Errand} {w w' : Workshop} {deeds : List Deed}
    (h : e.Turn w deeds e' w') : e.run.ids ⊆ e'.run.ids := by
  cases h <;> simp [Workshop.beginStep, Workshop.endStep]

theorem Course.restorable {besides : Errand → Workshop → Workshop → Prop} {e₀ e : Errand}
    {w₀ w : Workshop} (hkeeps : ∀ e v v', besides e v v' → v'.store = v.store)
    (h : Course besides e₀ w₀ e w) (hs : w₀.store.Sound) (h₀ : e₀.stage = .due)
    (hnone : ∀ id ∈ e.run.ids, w₀.store.HoldsNothing id) :
    e.OnRecord ∧ Restorable w₀.store e w := by
  -- ids are only ever added, so what holds of the last ids holds of those at every turn before
  induction h with
  | start =>
    refine ⟨fun id hid => ?_, ?_⟩
    · simp [h₀, Stage.current?] at hid
    · simp [Restorable, h₀]
  | turn _ hturn ih =>
    obtain ⟨honRecord, hr⟩ := ih fun id hid => hnone id (hturn.ids_subset hid)
    exact ⟨hturn.onRecord honRecord, hturn.restorable honRecord hs hnone hr⟩
  | meanwhile _ hbesides ih =>
    obtain ⟨honRecord, hr⟩ := ih hnone
    exact ⟨honRecord, hr.congr (hkeeps _ _ _ hbesides)⟩

/-- When a run ends, a store that can be restored is restored. -/
theorem Returns.store_eq {s₀ : Store} {e : Errand} {w w' : Workshop} {deeds : List Deed}
    {run : RunRecord} {failure : Option Failure} (h : e.Returns w deeds run failure w')
    (hnone : ∀ id ∈ e.run.ids, s₀.HoldsNothing id) (hr : Restorable s₀ e w) : w'.store = s₀ := by
  have hbefore : w.store = s₀ := by
    have hidle := h.current?_eq_none
    rcases e with ⟨run, left, _ | _ | _ | _ | _⟩
    · exact hr
    · simp [Stage.current?] at hidle
    · simp [Stage.current?] at hidle
    · simp [Stage.current?] at hidle
    · exact hr
  subst hbefore
  rw [h.store]
  rcases h.deeds_eq with rfl | rfl
  · rfl
  · exact Store.performAll_release_eq_self hnone

end Errand

namespace Workshop

open Errand

/-- Playbooks give back what they hold. Running one is a call, whoever attends to the executors.
When a call returns, with a record or with a failure, no instance is held by any step of the run, if
what happens besides gives nothing to steps that have come to their end. And if what happens besides
leaves the store alone, the store is exactly as it was when the call was made, as long as the ids of
the steps were fresh, so that nothing was held under them. If a call is dropped, all this holds up
to what its last step holds. -/
theorem executePlaybook_gives_back {w : Workshop} (hs : w.store.Reachable)
    (besides : Errand → Workshop → Workshop → Prop) (name : String) (input : Bindings) :
    (∀ attendant, Attends attendant besides name input w →
      Call besides name input w (executePlaybook attendant name input w).1
        (stepIds attendant name input w) (executePlaybook attendant name input w).2) ∧
    (∀ result ids w', Call besides name input w (some result) ids w' →
      ((∀ e v v', besides e v v' → e.Spares v v') → ∀ id ∈ ids, w'.store.HoldsNothing id) ∧
      ((∀ e v v', besides e v v' → v'.store = v.store) → (∀ id ∈ ids, w.store.HoldsNothing id) →
        w'.store = w.store)) ∧
    ∀ ids w', Call besides name input w none ids w' → ∃ earlier last, ids = earlier ++ [last] ∧
      ((∀ e v v', besides e v v' → e.Spares v v') →
        ∀ id ∈ earlier, id ≠ last → w'.store.HoldsNothing id) ∧
      ((∀ e v v', besides e v v' → v'.store = v.store) → (∀ id ∈ ids, w.store.HoldsNothing id) →
        (w'.store.release last).2 = w.store) := by
  have hbegun (playbook : Playbook) :
      (ofRun (w.beginRun playbook input).1 playbook.steps).Tidy (w.beginRun playbook input).2 :=
    ⟨hs.sound, onRecord_ofRun _ _, fun id hid => absurd hid List.not_mem_nil⟩
  refine ⟨fun attendant hattends => hattends.call, fun result ids w' hcall => ?_,
    fun ids w' hcall => ?_⟩
  · generalize htold : some result = told at hcall
    cases hcall with
    | closed hclosed => exact ⟨fun _ id hid => absurd hid List.not_mem_nil, fun _ _ => rfl⟩
    | notFound hopen hload => exact ⟨fun _ id hid => absurd hid List.not_mem_nil, fun _ _ => rfl⟩
    | @ran playbook e v deeds run ended _ hopen hload hcourse hends =>
      cases hends with
      | dropped hwork => cases htold
      | returned hreturns =>
        refine ⟨fun hspares => hreturns.holdsNothing (hcourse.tidy hspares (hbegun playbook)),
          fun hkeeps hnone => ?_⟩
        rw [hreturns.ids_eq] at hnone
        obtain ⟨-, hr⟩ := hcourse.restorable hkeeps hs.sound rfl hnone
        exact hreturns.store_eq hnone hr
  · generalize htold : none = told at hcall
    cases hcall with
    | closed hclosed => cases htold
    | notFound hopen hload => cases htold
    | @ran playbook e v deeds run ended _ hopen hload hcourse hends =>
      cases hends with
      | returned hreturns => cases htold
      | dropped hwork =>
        obtain ⟨s, last, hstage⟩ := hwork
        have hlast : e.stage.current? = some last := by rw [hstage]; rfl
        have honRecord : e.OnRecord := hcourse.onRecord (onRecord_ofRun _ _)
        refine ⟨e.ended, last, honRecord.ids_eq hlast, fun hspares id hid hne => ?_,
          fun hkeeps hnone => ?_⟩
        · have htidy := hcourse.tidy hspares (hbegun playbook)
          refine htidy.ended id hid fun hsame => hne ?_
          exact Option.some.inj (hsame.symm.trans hlast)
        · obtain ⟨-, hr⟩ := hcourse.restorable hkeeps hs.sound rfl hnone
          unfold Restorable at hr
          rwa [hstage] at hr

/-- A workshop with one oven, a baker, and a playbook of which the second step cannot have all that
it requires. -/
def bakery : Workshop :=
  { seat {} .algorithmic ⟨.echo, [[.shutdown]]⟩ "baker" with
    store := (Store.performAll {} [.register "oven" "oven" .empty default]).2
    library := .ofPlaybooks
      [{ name := "bread"
         steps :=
          [{ name := "bake"
             requirements := [{ name := "heat", preferences := [.specific "oven"] }] },
            { name := "slice"
              requirements :=
                [{ name := "heat", preferences := [.specific "oven"] },
                  { name := "edge", preferences := [.specific "knife"] }] }] }] }

/-- Somebody who does nothing when executors ask for things. -/
def idler : Attendant :=
  fun _ w => (some [], w)

/-- Somebody who shuts everything down when executors ask for things. -/
def closer : Attendant :=
  fun _ w => (some [], w.shutdown)

/-- Somebody who never gets to an end with what executors ask for. -/
def dawdler : Attendant :=
  fun _ w => (none, w)

/-- The workshop when there is no time left. -/
def closing : Workshop :=
  { bakery with deadline := some 0 }

theorem executePlaybook_closing :
    (executePlaybook dawdler "bread" .empty closing).1 = none ∧
      stepIds dawdler "bread" .empty closing = ["step-00000000-0000-4000-8000-000000000001"] :=
  ⟨by rfl, by rfl⟩

/-- If nothing is done when the baker asks for it, the second step is refused and the store is as it
was. If everything is shut down then, the run is given up and its one step holds nothing. If the
baker never gets what is asked for, and there is no time left, the run is dropped, and once its step
gives back what it holds the store is as it was. -/
theorem executePlaybook_gives_back_bakery :
    bakery.store.Reachable ∧
    (executePlaybook idler "bread" .empty bakery).1 =
      some (.error (.unmet "step-00000000-0000-4000-8000-000000000002" "edge")) ∧
    (executePlaybook idler "bread" .empty bakery).2.store = bakery.store ∧
    (executePlaybook closer "bread" .empty bakery).1 = some (.error .shutDown) ∧
    stepIds closer "bread" .empty bakery = ["step-00000000-0000-4000-8000-000000000001"] ∧
    (∀ id ∈ stepIds closer "bread" .empty bakery,
      (executePlaybook closer "bread" .empty bakery).2.store.HoldsNothing id) ∧
    ∃ last, stepIds dawdler "bread" .empty closing = [last] ∧
      ((executePlaybook dawdler "bread" .empty closing).2.store.release last).2 = bakery.store := by
  have hs : bakery.store.Reachable := ⟨_, rfl⟩
  have hfree (id : String) : bakery.store.HoldsNothing id := by
    intro i hi
    obtain rfl : i = .fresh "oven" "oven" .empty default := List.mem_singleton.1 hi
    simp [Instance.fresh]
  obtain ⟨hidle, hkept, -⟩ :=
    executePlaybook_gives_back hs (fun _ v v' => v'.store = v.store) "bread" .empty
  have hcall := hidle idler ⟨fun _ _ _ h => h.store, fun _ _ _ _ _ _ => rfl⟩
  obtain ⟨hattended, hspared, -⟩ := executePlaybook_gives_back hs Spares "bread" .empty
  have hcall' := hattended closer
    ⟨fun e _ _ h => spares_of_store_eq e h.store, fun _ _ e v _ _ => spares_shutdown e v⟩
  have htold : (executePlaybook idler "bread" .empty bakery).1 =
      some (.error (.unmet "step-00000000-0000-4000-8000-000000000002" "edge")) := by rfl
  have htold' : (executePlaybook closer "bread" .empty bakery).1 = some (.error .shutDown) := by rfl
  rw [htold] at hcall
  rw [htold'] at hcall'
  refine ⟨hs, htold, ?_, htold', by rfl, ?_, ?_⟩
  · exact (hkept _ _ _ hcall).2 (fun _ _ _ h => h) fun id _ => hfree id
  · exact (hspared _ _ _ hcall').1 fun _ _ _ h => h
  · obtain ⟨hnone, hids⟩ := executePlaybook_closing
    obtain ⟨hdawdle, -, hdropped⟩ :=
      executePlaybook_gives_back (w := closing) hs (fun _ v v' => v'.store = v.store) "bread" .empty
    have hcall'' := hdawdle dawdler ⟨fun _ _ _ h => h.store, fun _ _ _ _ _ _ => rfl⟩
    rw [hnone] at hcall''
    obtain ⟨earlier, last, hsplit, -, hstore⟩ := hdropped _ _ hcall''
    cases earlier with
    | nil => exact ⟨last, hsplit, hstore (fun _ _ _ h => h) fun id _ => hfree id⟩
    | cons first rest => simp [hids] at hsplit

end Workshop

end Foreman
