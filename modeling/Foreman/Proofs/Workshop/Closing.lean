import Foreman.Proofs.Workshop.GivingBack
import Foreman.Proofs.Workshop.Registry
/-!
# Shutting down is final

Once everything has been shut down, there are no instances and nothing is on record, and nothing is
ever put on record again. No run enters any more. The runs that executors were at work on then begin
no further step and are given nothing; they give back what is held under the ids of their own steps,
and nothing else changes through them; and they return that everything was shut down, whatever the
executors report. Only a run that is dropped before it gets there returns nothing at all.

## Main definitions

* `Foreman.Store.GivesBack`: some steps give back what they hold, and nothing else happens.
* `Foreman.Errand.Unwinds`: a run that was under way has begun no further step.
* `Foreman.Floor.Unwinding`: where a story has got to after shutting down.

## Main results

* `Foreman.Errand.Turn.givesBack`, `Foreman.Errand.Returns.givesBack`: what the turns and the end of
  such a run do to the store.
* `Foreman.Floor.Story.unwinding`: the runs under way and those that have returned after shutting
  down.
* `Foreman.Floor.executePlaybook_of_closed`: a call in whose course everything is shut down.
* `Foreman.Floor.shutdown_is_final`: shutting down is final.
-/

namespace Foreman

open Happening

/-! ### Giving back -/

namespace Store

/-- Some steps give back some of what they hold, and nothing else happens to the instances. -/
def GivesBack (steps : List String) (s s' : Store) : Prop :=
  ∃ f : Instance → Instance, s' = s.each f ∧
    ∀ i, f i = i ∨ (f i = i.release ∧ ∃ step ∈ steps, i.isHeldBy step = true)

variable {s s' s'' : Store} {steps : List String}

theorem GivesBack.refl (steps : List String) (s : Store) : GivesBack steps s s :=
  ⟨id, (each_eq_self fun _ _ => rfl).symm, fun _ => .inl rfl⟩

theorem GivesBack.trans (h : GivesBack steps s s') (h' : GivesBack steps s' s'') :
    GivesBack steps s s'' := by
  obtain ⟨f, rfl, hf⟩ := h
  obtain ⟨g, rfl, hg⟩ := h'
  refine ⟨fun i => g (f i), each_each s f g, fun i => ?_⟩
  dsimp only
  rcases hf i with hi | ⟨hi, hheld⟩
  · rw [hi]
    exact hg i
  · -- what was given back once stays as it is
    refine .inr ⟨?_, hheld⟩
    rcases hg (f i) with hagain | ⟨hagain, -⟩
    · rw [hagain, hi]
    · rw [hagain, hi, Instance.release_release]

theorem givesBack_release {step : String} (h : step ∈ steps) (s : Store) :
    GivesBack steps s (s.release step).2 := by
  refine ⟨_, release_eq_each s step, fun i => ?_⟩
  by_cases hheld : i.isHeldBy step = true
  · exact .inr ⟨if_pos hheld, step, h, hheld⟩
  · exact .inl (if_neg hheld)

theorem givesBack_performAll_release {some : List String} (h : some ⊆ steps) (s : Store) :
    GivesBack steps s (s.performAll (some.map .release)).2 := by
  induction some generalizing s with
  | nil => exact .refl steps s
  | cons step rest ih =>
    have hfirst := givesBack_release (h List.mem_cons_self) s
    exact hfirst.trans (ih (List.subset_of_cons_subset h) _)

end Store

/-- Where nothing is on record, shutting down again removes the instances and does nothing else. -/
theorem Workshop.shutdown_of_forgotten {w : Workshop} (h : w.ledger = ⟨[], [], true⟩) :
    w.shutdown = w.clear := by
  cases w
  cases h
  rfl

/-! ### Runs after shutting down -/

namespace Errand

variable {e e' e₀ : Errand} {w w' : Workshop} {deeds : List Store.Deed} {run : RunRecord}
  {failure : Option Failure}

/-- A step of a run has begun, and was not given its resources yet. -/
def IsBegun (e : Errand) : Prop :=
  ∃ s id, e.stage = .begun s id

theorem AtWork.not_isBegun (h : e.AtWork) : ¬e.IsBegun := by
  obtain ⟨s, id, hstage⟩ := h
  rintro ⟨t, id', hbegun⟩
  rw [hstage] at hbegun
  cases hbegun

/-- A run that was under way has begun no further step. If executors were at work on it, it will be
given nothing any more. -/
structure Unwinds (e₀ e : Errand) : Prop where
  /-- It is the same run. -/
  id : e.run.id = e₀.run.id
  /-- It has begun no further step. -/
  ids : e.run.ids = e₀.run.ids
  /-- It is not about to be given anything. -/
  not_isBegun : e₀.AtWork → ¬e.IsBegun

theorem Unwinds.refl (e : Errand) : e.Unwinds e :=
  ⟨rfl, rfl, AtWork.not_isBegun⟩

theorem Turn.ids_eq_of_closed (h : e.Turn w deeds e' w') (hclosed : w.ledger.closed = true) :
    e'.run.ids = e.run.ids := by
  cases h with
  | begin hopen =>
    rw [hopen] at hclosed
    cases hclosed
  | supply hgiven => exact RunRecord.ids_supply _ _ _
  | refuse hrefused => rfl
  | deliver result => exact RunRecord.ids_deliver _ _
  | giveUp f => rfl
  | settle => exact RunRecord.ids_settle _ _ _

/-- Only the turn in which a step begins, which needs a workshop that is open, leaves it begun. -/
theorem Turn.not_isBegun (h : e.Turn w deeds e' w') (hclosed : w.ledger.closed = true) :
    ¬e'.IsBegun := by
  rintro ⟨s, id, hstage⟩
  cases h with
  | begin hopen =>
    rw [hopen] at hclosed
    cases hclosed
  | @settle run left t id' failure w => cases failure <;> cases hstage
  | supply _ | refuse _ | deliver _ | giveUp _ => cases hstage

/-- After shutting down no run begins a further step. -/
theorem Turn.unwinds (h : e.Turn w deeds e' w') (hclosed : w.ledger.closed = true)
    (he : e₀.Unwinds e) : e₀.Unwinds e' where
  id := h.run_id.trans he.id
  ids := (h.ids_eq_of_closed hclosed).trans he.ids
  not_isBegun _ := h.not_isBegun hclosed

/-- After shutting down, what a run that is not about to be given anything does in a turn is at most
to give back what its steps hold. -/
theorem Turn.givesBack (h : e.Turn w deeds e' w') (hclosed : w.ledger.closed = true)
    (he : e.OnRecord) (hbegun : ¬e.IsBegun) : w.store.GivesBack e.run.ids w'.store := by
  cases h with
  | begin hopen =>
    rw [hopen] at hclosed
    cases hclosed
  | supply hgiven => exact absurd ⟨_, _, rfl⟩ hbegun
  | refuse hrefused => exact absurd ⟨_, _, rfl⟩ hbegun
  | deliver result => exact .refl _ _
  | giveUp f => exact .refl _ _
  | settle => exact Store.givesBack_release (he.mem_ids rfl) _

theorem Returns.givesBack (h : e.Returns w deeds run failure w') :
    w.store.GivesBack e.run.ids w'.store := by
  rw [h.store]
  rcases h.deeds_eq with rfl | rfl
  · exact .refl _ _
  · exact Store.givesBack_performAll_release (List.Subset.refl _) w.store

end Errand

namespace Floor

open Workshop

variable {σ τ υ : Floor} {story more : List Happening} {x : Happening} {errands : List Errand}

/-- Where a story has got to after shutting down: nothing is on record and no run has entered. The
runs that were under way have returned that everything was shut down, or were dropped, or are still
under way, and none of them has begun a further step. -/
structure Unwinding (errands : List Errand) (more : List Happening) (τ : Floor) : Prop where
  /-- Nothing is on record. -/
  ledger : τ.shop.ledger = ⟨[], [], true⟩
  /-- No run has entered. -/
  entries : entries more = []
  /-- Runs under way have begun no further step. -/
  underWay : ∀ e ∈ τ.errands, ∃ e₀ ∈ errands, e₀.Unwinds e
  /-- Runs have returned that everything was shut down, without a further step. -/
  returned : ∀ e run failure, .returned e run failure ∈ more →
    failure = some .shutDown ∧ ∃ e₀ ∈ errands, run.id = e₀.run.id ∧ run.ids = e₀.run.ids
  /-- Runs were dropped without a further step. -/
  dropped : ∀ e ∈ drops more, ∃ e₀ ∈ errands, e₀.Unwinds e
  /-- Every run that was under way is unfinished or has returned. -/
  accounted : (runIds errands).Perm
    (runIds (unfinished more τ.errands) ++ (returns more).map fun r => r.1.id)

theorem unwinding_shutdown (w : Workshop) (errands : List Errand) :
    Unwinding errands [] ⟨w.shutdown, errands⟩ where
  ledger := (does_shutdown w).ledger
  entries := rfl
  underWay e he := ⟨e, he, .refl e⟩
  returned _ _ _ h := absurd h List.not_mem_nil
  dropped _ h := absurd h List.not_mem_nil
  accounted := by simp [unfinished, drops, returns]

/-- No run enters, returns or is dropped. -/
theorem Unwinding.concat (hτ : Unwinding errands more τ) (hentry : x.entry? = none)
    (hreturn : x.return? = none) (hdrop : x.drop? = none)
    (hledger : υ.shop.ledger = ⟨[], [], true⟩)
    (hunderWay : ∀ e ∈ υ.errands, ∃ e₀ ∈ errands, e₀.Unwinds e)
    (hids : runIds υ.errands = runIds τ.errands) : Unwinding errands (more ++ [x]) υ where
  ledger := hledger
  entries := by
    rw [entries_append, hτ.entries, entries_singleton, hentry]
    rfl
  underWay := hunderWay
  returned e run failure h := by
    rcases List.mem_append.1 h with h | h
    · exact hτ.returned e run failure h
    · rw [← List.mem_singleton.1 h] at hreturn
      cases hreturn
  dropped := by
    rw [drops_append, drops_singleton, hdrop, Option.toList_none, List.append_nil]
    exact hτ.dropped
  accounted := by
    have hkept : runIds (unfinished more υ.errands) = runIds (unfinished more τ.errands) := by
      simp only [runIds, unfinished, List.map_append] at hids ⊢
      rw [hids]
    rw [unfinished_concat hdrop, hkept, returns_append, returns_singleton, hreturn,
      Option.toList_none, List.append_nil]
    exact hτ.accounted

/-- A run returns that everything was shut down. -/
theorem Unwinding.leave {w w' : Workshop} {e : Errand} {deeds : List Store.Deed} {run : RunRecord}
    {failure : Option Failure} {before after : List Errand}
    (hτ : Unwinding errands more ⟨w, before ++ e :: after⟩)
    (hreturns : e.Returns w deeds run failure w') (hledger : w'.ledger = ⟨[], [], true⟩) :
    Unwinding errands (more ++ [.returned e run failure]) ⟨w', before ++ after⟩ := by
  have hclosed : w.ledger = ⟨[], [], true⟩ := hτ.ledger
  refine ⟨hledger, by simp [hτ.entries], fun f hf => hτ.underWay f ?_,
    fun f run' failure' h => ?_, fun f hf => hτ.dropped f (by simpa using hf), ?_⟩
  · exact List.perm_middle.mem_iff.2 (List.mem_cons_of_mem e hf)
  · rcases List.mem_append.1 h with h | h
    · exact hτ.returned f run' failure' h
    · cases List.mem_singleton.1 h
      obtain ⟨e₀, he₀, hunwinds⟩ := hτ.underWay e (by simp)
      refine ⟨?_, e₀, he₀, hreturns.run_id.trans hunwinds.id, hreturns.ids_eq.trans hunwinds.ids⟩
      rcases hreturns.ledger with ⟨-, hfailure, -⟩ | ⟨hopen, -, -⟩
      · exact hfailure
      · rw [hclosed] at hopen
        cases hopen
  · have hids := runIds_perm (unfinished_middle more before after e)
    rw [unfinished_concat rfl, returns_append, List.map_append]
    refine (hτ.accounted.trans (hids.append_right _)).trans ?_
    simpa [runIds, hreturns.run_id] using (List.perm_append_singleton e.run.id
      (runIds (unfinished more (before ++ after)) ++ (returns more).map fun r => r.1.id)).symm

/-- A run is dropped, and is as unfinished as it was. -/
theorem Unwinding.drop {w : Workshop} {e : Errand} {before after : List Errand}
    (hτ : Unwinding errands more ⟨w, before ++ e :: after⟩) :
    Unwinding errands (more ++ [.dropped e]) ⟨w, before ++ after⟩ := by
  have hids := runIds_perm (unfinished_dropped more before after e)
  refine ⟨hτ.ledger, by simp [hτ.entries], fun f hf => hτ.underWay f ?_,
    fun f run failure h => hτ.returned f run failure (by simpa using h), fun f hf => ?_, ?_⟩
  · exact List.perm_middle.mem_iff.2 (List.mem_cons_of_mem e hf)
  · rw [drops_append, List.mem_append] at hf
    rcases hf with hf | hf
    · exact hτ.dropped f hf
    · obtain rfl : f = e := by simpa using hf
      exact hτ.underWay f (by simp)
  · simpa using hτ.accounted.trans (hids.symm.append_right _)

theorem Scene.unwinding (h : Scene τ x υ) (hτ : Unwinding errands more τ) :
    Unwinding errands (more ++ [x]) υ := by
  have hledger := h.ledger.forgotten hτ.ledger
  cases h with
  | act hdoes | shutdown => exact hτ.concat rfl rfl rfl hledger hτ.underWay rfl
  | @enter w name playbook errands' input hopen hload =>
    have hclosed : w.ledger = ⟨[], [], true⟩ := hτ.ledger
    rw [hclosed] at hopen
    cases hopen
  | @turn w w' e e' deeds before after hturn =>
    have hclosed : w.ledger = ⟨[], [], true⟩ := hτ.ledger
    refine hτ.concat rfl rfl rfl hledger (fun f hf => ?_) (by simp [runIds, hturn.run_id])
    rcases List.mem_cons.1 (List.perm_middle.mem_iff.1 hf) with rfl | hf
    · obtain ⟨e₀, he₀, hunwinds⟩ := hτ.underWay e (by simp)
      exact ⟨e₀, he₀, hturn.unwinds (by rw [hclosed]) hunwinds⟩
    · exact hτ.underWay f (List.perm_middle.mem_iff.2 (List.mem_cons_of_mem e hf))
  | leave before after hreturns => exact hτ.leave hreturns hledger
  | drop before after hwork => exact hτ.drop

theorem Story.unwinding {w : Workshop} (h : Story ⟨w.shutdown, errands⟩ more τ) :
    Unwinding errands more τ := by
  induction h with
  | refl => exact unwinding_shutdown w errands
  | tail _ hscene ih => exact hscene.unwinding ih

theorem Scene.mem_errands {e : Errand} (h : Scene τ x υ) (hx : x.actor? = some e) :
    e ∈ τ.errands := by
  cases h with
  | turn before after hturn =>
    cases hx
    exact List.mem_append_right _ List.mem_cons_self
  | leave before after hreturns =>
    cases hx
    exact List.mem_append_right _ List.mem_cons_self
  | drop before after hwork =>
    cases hx
    exact List.mem_append_right _ List.mem_cons_self
  | act _ | shutdown | enter _ _ _ _ => cases hx

/-- After shutting down, what is done by a run that is not about to be given anything is to give
back what its own steps hold. -/
theorem Scene.givesBack {e : Errand} (h : Scene τ x υ) (hx : x.actor? = some e)
    (hclosed : τ.shop.ledger.closed = true) (honRecord : e.OnRecord) (hbegun : ¬e.IsBegun) :
    τ.shop.store.GivesBack e.run.ids υ.shop.store := by
  cases h with
  | turn before after hturn =>
    cases hx
    exact hturn.givesBack hclosed honRecord hbegun
  | leave before after hreturns =>
    cases hx
    exact hreturns.givesBack
  | drop before after hwork =>
    cases hx
    exact .refl _ _
  | act _ | shutdown | enter _ _ _ _ => cases hx

/-- While a run goes its way the floor moves, and the ledger changes only while executors are at
work on the run. -/
def Besides (σ : Floor) (e : Errand) (v v' : Workshop) : Prop :=
  Leads σ v v' ∧ (v'.ledger = v.ledger ∨ e.AtWork)

/-- If everything is shut down while a run goes its way, executors were at work on it then, and it
has begun no further step since. -/
theorem atWork_of_closed {e₀ e : Errand} {w w' : Workshop}
    (h : Errand.Course (Besides σ) e₀ w e w') (hopen : w.ledger.closed = false)
    (hclosed : w'.ledger.closed = true) :
    ∃ e₁ v, Errand.Course (Besides σ) e₀ w e₁ v ∧ v.ledger.closed = false ∧ e₁.AtWork ∧
      e₁.Unwinds e := by
  induction h with
  | start =>
    rw [hopen] at hclosed
    cases hclosed
  | @turn e v deeds e' v' h hturn ih =>
    have hbefore : v.ledger.closed = true := hturn.closed_eq ▸ hclosed
    obtain ⟨e₁, u, hcourse, hu, hwork, hunwinds⟩ := ih hbefore
    exact ⟨e₁, u, hcourse, hu, hwork, hturn.unwinds hbefore hunwinds⟩
  | @meanwhile e v v' h hbesides ih =>
    cases hbefore : v.ledger.closed with
    | true => exact ih hbefore
    | false =>
      rcases hbesides.2 with hledger | hwork
      · rw [hledger, hbefore] at hclosed
        cases hclosed
      · exact ⟨e, v, h, hbefore, hwork, .refl e⟩

/-- A call in whose course everything is shut down returns just that, unless it is dropped. If
nothing was shut down before, executors were at work on the run when it was, and it had begun all
its steps by then. -/
theorem executePlaybook_of_closed {attendant : Attendant}
    (hattend : ∀ commands v, Leads σ v (attendant commands v).2) (name : String) (input : Bindings)
    (hclosed : (executePlaybook attendant name input σ.shop).2.ledger.closed = true) :
    (∀ result ∈ (executePlaybook attendant name input σ.shop).1, result = .error .shutDown) ∧
      (σ.shop.ledger.closed = false → ∃ before e v, Story σ before ⟨v, e :: σ.errands⟩ ∧
        v.ledger.closed = false ∧ e.AtWork ∧ stepIds attendant name input σ.shop = e.run.ids) := by
  have hcall : Call (Besides σ) name input σ.shop (executePlaybook attendant name input σ.shop).1
      (stepIds attendant name input σ.shop) (executePlaybook attendant name input σ.shop).2 := by
    refine call_of_course (fun e v v' hidle => ⟨hidle.does.leads, .inl hidle.does.ledger⟩) ?_
    intro playbook hload e s id v label call commands hcourse hwork _
    exact hcourse.meanwhile ⟨attend_leads hattend label call commands v, .inr ⟨s, id, hwork⟩⟩
  generalize executePlaybook attendant name input σ.shop = result at hcall hclosed ⊢
  generalize stepIds attendant name input σ.shop = ids at hcall ⊢
  obtain ⟨result, w'⟩ := result
  cases hcall with
  | closed hbefore =>
    refine ⟨by simp, fun hopen => ?_⟩
    rw [hopen] at hbefore
    cases hbefore
  | notFound hopen hload =>
    rw [hopen] at hclosed
    cases hclosed
  | @ran playbook e v deeds run ended _ hopen hload hcourse hends =>
    have hwasAtWork (hclosed' : v.ledger.closed = true) : ∃ before e₁ u,
        Story σ before ⟨u, e₁ :: σ.errands⟩ ∧ u.ledger.closed = false ∧ e₁.AtWork ∧
          e.run.ids = e₁.run.ids := by
      obtain ⟨e₁, u, hcourse', hu, hwork, hunwinds⟩ := atWork_of_closed hcourse hopen hclosed'
      have hentered := (Scene.enter σ.errands input hopen hload).single
      obtain ⟨more, hmore⟩ :=
        story_of_course (hcourse'.mono fun _ _ _ hbesides => hbesides.1) hentered
      exact ⟨_, e₁, u, hentered.trans hmore, hu, hwork, hunwinds.ids⟩
    cases hends with
    | returned hreturns =>
      rcases hreturns.ledger with ⟨hclosed', rfl, -⟩ | ⟨hopen', -, hledger⟩
      · refine ⟨by simp [RunRecord.outcome], fun _ => ?_⟩
        rw [hreturns.ids_eq]
        exact hwasAtWork hclosed'
      · -- a run that is finished leaves the ledger open
        have hclosed' : w'.ledger.closed = true := hclosed
        rw [hledger, Ledger.closed_finish, hopen'] at hclosed'
        cases hclosed'
    | dropped hwork => exact ⟨by simp, fun _ => hwasAtWork hclosed⟩

/-- If everything is shut down in the course of a call, it was while executors were at work on its
run. -/
theorem exists_atWork_of_closed {attendant : Attendant} {w : Workshop}
    (hattend : ∀ commands v, Leads ⟨w, []⟩ v (attendant commands v).2) (name : String)
    (input : Bindings) (hopen : w.ledger.closed = false)
    (hclosed : (executePlaybook attendant name input w).2.ledger.closed = true) :
    ∃ before e v, Story ⟨w, []⟩ before ⟨v, [e]⟩ ∧ v.ledger.closed = false ∧ e.AtWork := by
  obtain ⟨-, hatWork⟩ := executePlaybook_of_closed hattend name input hclosed
  obtain ⟨before, e, v, hstory, hv, hwork, -⟩ := hatWork hopen
  exact ⟨before, e, v, hstory, hv, hwork⟩

/-- Shutting down is final. Take any floor that a new workshop has got to, and shut everything down
there. At once there are no instances and nothing is on record. Wherever the story goes on from
there, nothing is on record and no run has entered; every run that was under way has returned that
everything was shut down, was dropped, or is still under way, and none of them has begun a further
step. Whatever a run does that executors were at work on when everything was shut down, it gives
back what is held under the ids of its own steps, and nothing else changes in the store. A playbook
that is run, whichever library it is looked for in, is refused and changes nothing. Shutting down
again removes all instances and does nothing else.

A call in whose course everything is shut down returns just that, whoever attends to the executors
and whatever they report, unless it is dropped; when it was, executors were at work on its run, and
all the steps of the call had begun. If whoever attends to them is punctual, as in every session, it
is dropped only when the time is up of a call in whose course it was made. Whatever is seen in a
session after shutting down is seen on such a floor. -/
theorem shutdown_is_final {config : Config} {library : Library} {wiring : Wiring} {w : Workshop}
    (h : Story ⟨.new config library wiring, []⟩ story ⟨w, errands⟩) :
    w.shutdown.store.instances = [] ∧ w.shutdown.ledger = ⟨[], [], true⟩ ∧
    (∀ more τ, Story ⟨w.shutdown, errands⟩ more τ →
      Unwinding errands more τ ∧
      (τ.shop.stats.active = 0 ∧ τ.shop.stats.completed = 0 ∧ τ.shop.stats.failed = 0) ∧
      (∀ x υ e, Scene τ x υ → x.actor? = some e →
        (∃ e₀ ∈ errands, e₀.AtWork ∧ e₀.Unwinds e) →
        τ.shop.store.GivesBack e.run.ids υ.shop.store) ∧
      (∀ attendant name input other,
        executePlaybook attendant name input { τ.shop with library := other } =
          (some (.error .shutDown), { τ.shop with library := other })) ∧
      τ.shop.shutdown = τ.shop.clear) ∧
    (∀ attendant, (∀ commands v, Leads ⟨w, errands⟩ v (attendant commands v).2) →
      ∀ name input, (executePlaybook attendant name input w).2.ledger.closed = true →
        (∀ result ∈ (executePlaybook attendant name input w).1, result = .error .shutDown) ∧
        (Punctual attendant → InTime w (executePlaybook attendant name input w)) ∧
        (w.ledger.closed = false → ∃ before e v, Story ⟨w, errands⟩ before ⟨v, e :: errands⟩ ∧
          v.ledger.closed = false ∧ e.AtWork ∧ stepIds attendant name input w = e.run.ids)) ∧
    (∀ levels, Punctual (replies (perform levels))) ∧
    (∀ levels commands, ∃ more, Story ⟨w.shutdown, errands⟩ more
      ⟨(replies (perform levels) commands w.shutdown).2, errands⟩) ∧
    (Waiting ⟨w, errands⟩ → ∀ levels commands,
      ∀ rs ∈ (replies (perform levels) commands w.shutdown).1, ∀ r ∈ rs, ∀ a, r.Shows a →
        Seen ⟨w.shutdown, errands⟩ a) := by
  refine ⟨rfl, (does_shutdown w).ledger, fun more τ hmore => ?_,
    fun attendant hattend name input hclosed => ?_, punctual_perform,
    fun levels commands => story_of_leads (replies_leads levels commands _) .refl,
    fun hwaiting levels commands =>
      replies_seen (σ := ⟨w.shutdown, errands⟩) hwaiting levels commands⟩
  · have hunwinding := hmore.unwinding
    have hledger := hunwinding.ledger
    refine ⟨hunwinding, ?_, fun x υ e hscene hx hwork => ?_,
      fun attendant name input other => ?_, shutdown_of_forgotten hledger⟩
    · simp [stats, Ledger.count, hledger]
    · obtain ⟨e₀, -, hwork, hunwinds⟩ := hwork
      obtain ⟨history, hbooked⟩ := ((h.tail .shutdown).trans hmore).booked
      obtain ⟨honRecord, -⟩ := hbooked.errands e (hscene.mem_errands hx)
      exact hscene.givesBack hx (by rw [hledger]) honRecord (hunwinds.not_isBegun hwork)
    · simp [executePlaybook, hledger]
  · obtain ⟨hrefused, hatWork⟩ := executePlaybook_of_closed hattend name input hclosed
    exact ⟨hrefused, fun hpunctual => hpunctual.executePlaybook name input w, hatWork⟩

/-- Everything is shut down while the oven is in use, and the oven is registered again. Then the
baker reports that the bread is done, and the run is over. -/
theorem story_interrupted :
    ∃ more τ e run failure, Story ⟨atWork.shop.shutdown, atWork.errands⟩ more τ ∧
      .returned e run failure ∈ more ∧
      τ.shop.store.instances.map (fun i => (i.id, i.status)) = [("oven", .available)] := by
  have hregistered : Story ⟨atWork.shop.shutdown, atWork.errands⟩ [.done]
      ⟨(atWork.shop.shutdown.register "oven" (.ofList [("id", .text "oven")])).2, atWork.errands⟩ :=
    (Scene.act (does_register "oven" _ _)).single
  have hdone := hregistered.tail (.turn [] [] (.deliver default))
  have hleft := (hdone.tail (.turn [] [] .settle)).tail (.leave [] [] (.abandoned rfl rfl))
  exact ⟨_, _, _, _, _, hleft, List.mem_append_right _ (List.mem_singleton_self _), by rfl⟩

/-- The run returns that everything was shut down, with its one step on record. The oven registered
since is left alone, and no playbook is run any more. -/
theorem shutdown_is_final_bakery :
    ∃ more τ e run, Story ⟨opened, []⟩ untilAtWork atWork ∧
      Story ⟨atWork.shop.shutdown, atWork.errands⟩ more τ ∧
      .returned e run (some .shutDown) ∈ more ∧ run.ids = [begun.1] ∧
      τ.shop.store.instances.map (fun i => (i.id, i.status)) = [("oven", .available)] ∧
      τ.shop.stats.active = 0 ∧ τ.shop.stats.failed = 0 ∧
      (executePlaybook idler "bread" .empty τ.shop).1 = some (.error .shutDown) := by
  obtain ⟨more, τ, e, run, failure, hmore, hmem, hoven⟩ := story_interrupted
  obtain ⟨-, -, hafter, -, -, -⟩ := shutdown_is_final (w := atWork.shop) story_untilAtWork
  obtain ⟨hunwinding, ⟨hactive, -, hfailed⟩, -, hrefused, -⟩ := hafter more τ hmore
  obtain ⟨rfl, e₀, he₀, -, hids⟩ := hunwinding.returned e run failure hmem
  obtain rfl := List.mem_singleton.1 he₀
  refine ⟨more, τ, e, run, story_untilAtWork, hmore, hmem, hids, hoven, hactive, hfailed, ?_⟩
  exact congrArg Prod.fst (hrefused idler "bread" .empty τ.shop.library)

/-- A thinker shuts everything down, and then waits for a sleeper, who takes half a second. -/
def interruption : List Command :=
  [.updatePolicy { chain := some [.ai], attempts := some 1, timeout := some 1000 },
    .seat .human ⟨.script "sleeper" [.ok (.succeeded .empty)] 500, []⟩ "sleeper",
    .seat .ai ⟨.echo, [[.shutdown, .callWorker "sleeper" "rest" "long" .empty]]⟩ "thinker"]

/-- The workshop in the course of a call whose time is up after a tenth of a second. -/
def interrupted : Workshop :=
  let w := (replies (perform 0) interruption (.new {} (.ofPlaybooks [pondering]) .own)).2
  { w with depth := w.depth + 1, deadline := some (w.clock + 100) }

theorem executePlaybook_interrupted :
    (executePlaybook (replies (perform 0)) "pondering" .empty interrupted).1.isNone ∧
      (executePlaybook (replies (perform 0)) "pondering" .empty interrupted).2.ledger.closed :=
  ⟨by decide +kernel, by decide +kernel⟩

/-- If a playbook is run there, everything is shut down while the thinker is at work on the run. The
run is dropped, and never returns that everything was shut down. -/
theorem interrupted_run_returns_nothing :
    interrupted.ledger.closed = false ∧
      (executePlaybook (replies (perform 0)) "pondering" .empty interrupted).2.ledger.closed ∧
      (∃ before e v, Story ⟨interrupted, []⟩ before ⟨v, [e]⟩ ∧ v.ledger.closed = false ∧
        e.AtWork) ∧
      (executePlaybook (replies (perform 0)) "pondering" .empty interrupted).1 = none := by
  have hopen : interrupted.ledger.closed = false := by decide +kernel
  obtain ⟨hnone, hclosed⟩ := executePlaybook_interrupted
  exact ⟨hopen, hclosed, exists_atWork_of_closed (replies_leads 0) "pondering" .empty hopen hclosed,
    Option.isNone_iff_eq_none.1 hnone⟩

end Floor

end Foreman
