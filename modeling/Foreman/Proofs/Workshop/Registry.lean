import Foreman.Proofs.Workshop.Booking
import Foreman.Proofs.Workshop.Deadline
/-!
# The ledger accounts for every run

Until everything is shut down, the ledger accounts for every run, however the floor moves. A run
that has entered is on record exactly once: among the runs under way until it returns, and then
among those that are over, which are in the order in which they returned. A run that is dropped
never returns, so it stays among those under way, although nobody does anything about it any more. A
call for which no playbook is found leaves no trace.

## Main definitions

* `Foreman.Floor.unfinished`: the runs that are under way, and those that were dropped.
* `Foreman.Floor.Registered`: the ledger says which runs are unfinished and which have returned.

## Main results

* `Foreman.Floor.Story.registered`: the ledger is right at the end of every story.
* `Foreman.Floor.ledger_accounts_for_runs`: what the ledger says of all runs.
* `Foreman.Floor.dropped_run_stays_active`: a run that is dropped stays among those under way.
-/

namespace Foreman

open Happening

namespace Ledger

variable {l : Ledger} {r run : RunRecord} {id : String}

theorem map_id_publish (l : Ledger) (r : RunRecord) :
    (l.publish r).active.map RunRecord.id = l.active.map RunRecord.id := by
  simp only [publish, List.map_map]
  refine List.map_congr_left fun run _ => ?_
  by_cases h : run.id = r.id <;> simp [h]

theorem map_id_drop (l : Ledger) (id : String) :
    (l.drop id).active.map RunRecord.id = (l.active.map RunRecord.id).filter (· ≠ id) := by
  rw [drop, List.filter_map]
  rfl

theorem finish_of_mem (h : r.id ∈ l.active.map RunRecord.id) :
    l.finish r = { l.drop r.id with history := l.history ++ [r] } := by
  have hactive : l.isActive r.id := by
    obtain ⟨run, hrun, hid⟩ := List.mem_map.1 h
    exact List.any_eq_true.2 ⟨run, hrun, by simpa using hid⟩
  rw [finish, if_pos hactive]

theorem mem_publish_self (h : r.id ∈ l.active.map RunRecord.id) : r ∈ (l.publish r).active := by
  obtain ⟨run, hrun, hid⟩ := List.mem_map.1 h
  exact List.mem_map.2 ⟨run, hrun, if_pos hid⟩

theorem mem_publish_of_ne (h : run ∈ l.active) (hne : run.id ≠ r.id) :
    run ∈ (l.publish r).active :=
  List.mem_map.2 ⟨run, h, if_neg hne⟩

theorem mem_drop_of_ne (h : run ∈ l.active) (hne : run.id ≠ id) : run ∈ (l.drop id).active :=
  List.mem_filter.2 ⟨h, by simpa using hne⟩

/-- If no two records have the same id, the run of an id is the one that is on record under it. -/
theorem run?_eq_some_iff (h : ((l.active ++ l.history).map RunRecord.id).Nodup) :
    l.run? id = some run ↔ (run ∈ l.active ∨ run ∈ l.history) ∧ run.id = id := by
  rw [run?, ← List.find?_append, ← List.mem_append]
  refine ⟨fun hfind => ⟨List.mem_of_find?_eq_some hfind, by simpa using List.find?_some hfind⟩, ?_⟩
  rintro ⟨hrun, rfl⟩
  cases hfind : (l.active ++ l.history).find? fun r => r.id = run.id with
  | none => simpa using List.find?_eq_none.1 hfind run hrun
  | some other =>
    have hid : other.id = run.id := by simpa using List.find?_some hfind
    rw [List.inj_on_of_nodup_map h (List.mem_of_find?_eq_some hfind) hrun hid]

theorem isSome_run?_iff :
    (l.run? id).isSome ↔ id ∈ (l.active ++ l.history).map RunRecord.id := by
  rw [run?, ← List.find?_append, List.find?_isSome, List.mem_map]
  simp

end Ledger

namespace Floor

open Workshop

variable {σ τ υ : Floor} {story more : List Happening} {x : Happening}

/-- The ids of some runs under way. -/
def runIds (errands : List Errand) : List String :=
  errands.map fun e => e.run.id

/-- The runs that have entered and not returned: those under way and those that were dropped. -/
def unfinished (story : List Happening) (errands : List Errand) : List Errand :=
  errands ++ drops story

/-- The ledger says which runs are unfinished and which have returned. -/
structure Registered (story : List Happening) (σ : Floor) : Prop where
  /-- The unfinished runs are on record as under way. -/
  active : (σ.shop.ledger.active.map RunRecord.id).Perm (runIds (unfinished story σ.errands))
  /-- The record of an unfinished run is what the run has published. -/
  shown : ∀ e ∈ unfinished story σ.errands, e.stage.isPublished → e.run ∈ σ.shop.ledger.active
  /-- Executors were at work on the runs that were dropped. -/
  dropped : ∀ e ∈ drops story, e.AtWork
  /-- The runs that are over are on record, in the order in which they returned. -/
  history : σ.shop.ledger.history = (returns story).map Prod.fst
  /-- Whether a run has failed is on record. -/
  status : ∀ r ∈ returns story, r.1.status = .ofFailure r.2
  /-- Every run that has entered is unfinished or over. -/
  entered : (enteredIds story).Perm
    (runIds (unfinished story σ.errands) ++ σ.shop.ledger.history.map RunRecord.id)

theorem runIds_perm {errands others : List Errand} (h : errands.Perm others) :
    (runIds errands).Perm (runIds others) :=
  h.map _

/-- A run stands anywhere among those that are unfinished. -/
theorem unfinished_middle (story : List Happening) (before after : List Errand) (e : Errand) :
    (unfinished story (before ++ e :: after)).Perm (e :: unfinished story (before ++ after)) := by
  simp [unfinished]

/-- What happens to no run that is dropped leaves the unfinished ones as they were. -/
theorem unfinished_concat {x : Happening} (hx : x.drop? = none) (story : List Happening)
    (errands : List Errand) : unfinished (story ++ [x]) errands = unfinished story errands := by
  rw [unfinished, drops_append, drops_singleton, hx, Option.toList_none, List.append_nil,
    unfinished]

/-- A run that is dropped is as unfinished as it was. -/
theorem unfinished_dropped (story : List Happening) (before after : List Errand) (e : Errand) :
    (unfinished (story ++ [.dropped e]) (before ++ after)).Perm
      (unfinished story (before ++ e :: after)) := by
  refine .trans ?_ (unfinished_middle story before after e).symm
  simpa [unfinished] using List.perm_append_singleton e (before ++ after ++ drops story)

theorem registered_new (config : Config) (library : Library) (wiring : Wiring) :
    Registered [] ⟨.new config library wiring, []⟩ where
  active := .refl _
  shown _ he := absurd he List.not_mem_nil
  dropped _ he := absurd he List.not_mem_nil
  history := rfl
  status _ hr := absurd hr List.not_mem_nil
  entered := .refl _

/-- If runs enter under fresh ids, no two runs on record have the same id. -/
theorem Registered.nodup (h : Registered story σ) (hfresh : (enteredIds story).Nodup) :
    (runIds (unfinished story σ.errands) ++ σ.shop.ledger.history.map RunRecord.id).Nodup :=
  h.entered.nodup_iff.1 hfresh

theorem Registered.mem_active (h : Registered story σ) {e : Errand} (he : e ∈ σ.errands) :
    e.run.id ∈ σ.shop.ledger.active.map RunRecord.id :=
  h.active.mem_iff.2 (List.mem_map_of_mem (List.mem_append_left _ he))

/-- What is done in the workshop that is not about runs changes nothing in the ledger. -/
theorem Registered.act {w w' : Workshop} {errands : List Errand}
    (h : Registered story ⟨w, errands⟩) (hledger : w'.ledger = w.ledger) :
    Registered (story ++ [.done]) ⟨w', errands⟩ := by
  have hkept := unfinished_concat (x := .done) rfl story errands
  refine ⟨?_, ?_, fun e he => h.dropped e (by simpa using he), ?_,
    fun r hr => h.status r (by simpa using hr), ?_⟩
  · rw [hledger, hkept]
    exact h.active
  · rw [hledger, hkept]
    exact h.shown
  · simpa [hledger] using h.history
  · rw [hledger, hkept]
    simpa using h.entered

/-- A run enters, under an id of its own. -/
theorem Registered.enter {w : Workshop} {errands : List Errand}
    (h : Registered story ⟨w, errands⟩) (playbook : Playbook) (input : Bindings) :
    Registered (story ++ [.entered (w.beginRun playbook input).1.id playbook])
      ⟨(w.beginRun playbook input).2,
        .ofRun (w.beginRun playbook input).1 playbook.steps :: errands⟩ := by
  have hkept := unfinished_concat
    (x := .entered (w.beginRun playbook input).1.id playbook) rfl story
  refine ⟨?_, ?_, fun e he => h.dropped e (by simpa using he), ?_,
    fun r hr => h.status r (by simpa using hr), ?_⟩
  · have hactive : (w.beginRun playbook input).2.ledger.active.map RunRecord.id =
        w.ledger.active.map RunRecord.id ++ [(w.beginRun playbook input).1.id] := by
      simp [beginRun, freshMark, Ledger.start]
    rw [hactive, hkept]
    exact (List.perm_append_singleton _ _).trans (h.active.cons _)
  · rw [hkept]
    intro e he hpublished
    rcases List.mem_cons.1 he with rfl | he
    · exact List.mem_append_right _ (List.mem_singleton_self _)
    · exact List.mem_append_left _ (h.shown e he hpublished)
  · have hhistory : (w.beginRun playbook input).2.ledger.history = w.ledger.history := rfl
    simpa [hhistory] using h.history
  · rw [enteredIds_append, hkept]
    exact (h.entered.append_right _).trans List.perm_append_comm

/-- Under fresh ids, the other unfinished runs have other ids. -/
theorem Registered.id_ne {w : Workshop} {e f : Errand} {before after : List Errand}
    (h : Registered story ⟨w, before ++ e :: after⟩) (hfresh : (enteredIds story).Nodup)
    (hf : f ∈ unfinished story (before ++ after)) : f.run.id ≠ e.run.id := by
  have hnodup := (List.nodup_append.1 (h.nodup hfresh)).1
  have hids := (runIds_perm (unfinished_middle story before after e)).nodup_iff.1 hnodup
  intro hid
  exact (List.nodup_cons.1 hids).1 (List.mem_map.2 ⟨f, hf, hid⟩)

/-- A run takes a turn, and its record may be published. -/
theorem Registered.turn {w w' : Workshop} {e e' : Errand} {deeds : List Store.Deed}
    {before after : List Errand} (h : Registered story ⟨w, before ++ e :: after⟩)
    (hfresh : (enteredIds story).Nodup) (hturn : e.Turn w deeds e' w') :
    Registered (story ++ [.turned e e']) ⟨w', before ++ e' :: after⟩ := by
  have hkept := unfinished_concat (x := .turned e e') rfl story (before ++ e' :: after)
  have hids : runIds (unfinished story (before ++ e' :: after)) =
      runIds (unfinished story (before ++ e :: after)) := by
    simp [runIds, unfinished, hturn.run_id]
  have hledger := hturn.ledger
  have hhistory := hturn.history_eq
  refine ⟨?_, ?_, fun e he => h.dropped e (by simpa using he), ?_,
    fun r hr => h.status r (by simpa using hr), ?_⟩
  · rw [hkept, hids, hledger]
    split
    · exact (Ledger.map_id_publish _ _).symm ▸ h.active
    · exact h.active
  · rw [hkept, hledger]
    intro f hf hpublished
    rcases List.mem_cons.1 ((unfinished_middle story before after e').mem_iff.1 hf) with rfl | hf
    · rw [if_pos hpublished]
      refine Ledger.mem_publish_self ?_
      rw [hturn.run_id]
      exact h.mem_active (by simp)
    · have hshown : f.run ∈ w.ledger.active := h.shown f
        ((unfinished_middle story before after e).mem_iff.2 (List.mem_cons_of_mem e hf)) hpublished
      split
      · exact Ledger.mem_publish_of_ne hshown (by rw [hturn.run_id]; exact h.id_ne hfresh hf)
      · exact hshown
  · simpa [hhistory] using h.history
  · rw [hkept, hids, hhistory]
    simpa using h.entered

/-- A run returns, and is over. -/
theorem Registered.leave {w w' : Workshop} {e : Errand} {deeds : List Store.Deed}
    {run : RunRecord} {failure : Option Failure} {before after : List Errand}
    (h : Registered story ⟨w, before ++ e :: after⟩) (hfresh : (enteredIds story).Nodup)
    (hreturns : e.Returns w deeds run failure w') (hopen : w'.ledger.closed = false) :
    Registered (story ++ [.returned e run failure]) ⟨w', before ++ after⟩ := by
  rcases hreturns.ledger with ⟨hclosed, -, hledger⟩ | ⟨-, hstatus, hledger⟩
  · have hstill : (w.ledger.drop run.id).closed = w.ledger.closed := rfl
    rw [hledger, hstill, hclosed] at hopen
    cases hopen
  · rw [Ledger.finish_of_mem (by rw [hreturns.run_id]; exact h.mem_active (by simp))] at hledger
    rw [hreturns.run_id] at hledger
    have hkept := unfinished_concat (x := .returned e run failure) rfl story (before ++ after)
    have hmiddle := unfinished_middle story before after e
    have hids := runIds_perm hmiddle
    refine ⟨?_, ?_, fun e he => h.dropped e (by simpa using he), ?_, fun r hr => ?_, ?_⟩
    · have hothers : (runIds (unfinished story (before ++ after))).filter (· ≠ e.run.id) =
          runIds (unfinished story (before ++ after)) := by
        rw [List.filter_eq_self]
        intro id hid
        obtain ⟨f, hf, rfl⟩ := List.mem_map.1 hid
        simpa using h.id_ne hfresh hf
      rw [hledger, hkept]
      change ((w.ledger.drop e.run.id).active.map RunRecord.id).Perm _
      rw [Ledger.map_id_drop, ← hothers]
      simpa [runIds] using (h.active.trans hids).filter (· ≠ e.run.id)
    · rw [hledger, hkept]
      intro f hf hpublished
      refine Ledger.mem_drop_of_ne (h.shown f ?_ hpublished) (h.id_ne hfresh hf)
      exact hmiddle.mem_iff.2 (List.mem_cons_of_mem e hf)
    · rw [hledger]
      have hhistory : w.ledger.history = _ := h.history
      simp [hhistory]
    · rw [returns_append, List.mem_append] at hr
      rcases hr with hr | hr
      · exact h.status r hr
      · obtain rfl : r = (run, failure) := by simpa using hr
        exact hstatus
    · have hhistory : w'.ledger.history.map RunRecord.id =
          w.ledger.history.map RunRecord.id ++ [e.run.id] := by
        simp [hledger, hreturns.run_id]
      rw [enteredIds_append, hhistory, ← List.append_assoc, hkept]
      simp only [enteredIds_singleton, entry?, Option.map_none, Option.toList_none, List.append_nil]
      exact (h.entered.trans (hids.append_right _)).trans (List.perm_append_singleton _ _).symm

/-- A run is dropped, and stays on record as it is. -/
theorem Registered.drop {w : Workshop} {e : Errand} {before after : List Errand}
    (h : Registered story ⟨w, before ++ e :: after⟩) (hwork : e.AtWork) :
    Registered (story ++ [.dropped e]) ⟨w, before ++ after⟩ := by
  have hunfinished := unfinished_dropped story before after e
  have hids := runIds_perm hunfinished
  refine ⟨h.active.trans hids.symm, fun f hf => h.shown f (hunfinished.mem_iff.1 hf), ?_,
    by simpa using h.history, fun r hr => h.status r (by simpa using hr), ?_⟩
  · intro f hf
    rw [drops_append, List.mem_append] at hf
    rcases hf with hf | hf
    · exact h.dropped f hf
    · obtain rfl : f = e := by simpa using hf
      exact hwork
  · rw [enteredIds_append]
    simpa using h.entered.trans (hids.symm.append_right _)

/-- The ledger is right at the end of every story in which runs enter under fresh ids, unless
everything has been shut down. -/
theorem Scene.registered (h : Scene σ x τ) (hregistered : Registered story σ)
    (hfresh : (enteredIds story).Nodup) (hopen : τ.shop.ledger.closed = false) :
    Registered (story ++ [x]) τ := by
  cases h with
  | act hdoes => exact hregistered.act hdoes.ledger
  | shutdown =>
    rw [(Workshop.does_shutdown _).ledger] at hopen
    cases hopen
  | enter errands input _ hload => exact hregistered.enter _ input
  | turn before after hturn => exact hregistered.turn hfresh hturn
  | leave before after hreturns => exact hregistered.leave hfresh hreturns hopen
  | drop before after hwork => exact hregistered.drop hwork

theorem Story.registered {config : Config} {library : Library} {wiring : Wiring}
    (h : Story ⟨.new config library wiring, []⟩ story σ) (hfresh : (enteredIds story).Nodup)
    (hopen : σ.shop.ledger.closed = false) : Registered story σ := by
  induction h with
  | refl => exact registered_new config library wiring
  | @tail story τ x υ _ hscene ih =>
    rw [enteredIds_append] at hfresh
    have hbefore := ih hfresh.of_append_left (hscene.ledger.open_of_open hopen)
    exact hscene.registered hbefore hfresh.of_append_left hopen

/-- At the end of every story the bookings are kept. -/
theorem Story.booked {config : Config} {library : Library} {wiring : Wiring}
    (h : Story ⟨.new config library wiring, []⟩ story σ) : ∃ history, Booked history σ := by
  obtain ⟨deeds, hmoves⟩ := h.moves
  exact ⟨_, hmoves.booked (booked_new config library wiring)⟩

/-! ### What the ledger says -/

theorem Registered.perm (h : Registered story σ) :
    (enteredIds story).Perm
      ((σ.shop.ledger.active ++ σ.shop.ledger.history).map RunRecord.id) := by
  rw [List.map_append]
  exact h.entered.trans (h.active.symm.append_right _)

theorem Registered.length_active (h : Registered story σ) :
    σ.shop.ledger.active.length = σ.errands.length + (drops story).length := by
  have hlength := h.active.length_eq
  simpa [runIds, unfinished] using hlength

theorem Registered.count_completed (h : Registered story σ) :
    σ.shop.ledger.count .completed = (returns story).countP fun r => r.2.isNone := by
  rw [Ledger.count, h.history, List.countP_map]
  refine List.countP_congr fun r hr => ?_
  have hstatus := h.status r hr
  cases hfailure : r.2 <;> simp [hstatus, hfailure, RunStatus.ofFailure]

theorem Registered.count_failed (h : Registered story σ) :
    σ.shop.ledger.count .failed = (returns story).countP fun r => r.2.isSome := by
  rw [Ledger.count, h.history, List.countP_map]
  refine List.countP_congr fun r hr => ?_
  have hstatus := h.status r hr
  cases hfailure : r.2 <;> simp [hstatus, hfailure, RunStatus.ofFailure]

/-- The ledger accounts for every run. Take any floor that a new workshop has got to by a story in
which runs enter under fresh ids, unless everything has been shut down. Every run that has entered
is on record exactly once. The figures are those of the runs that are unfinished, of those that have
returned a record and of those that have returned a failure. So there are too many on record as
under way if, and only if, a run was dropped, which happens while executors are at work on it. The
runs that are over are on record as they returned, and in that order; a run under way is on record
as it was last published, and so is one that was dropped. Every run that has entered, and nothing
else, is found by its id.

From such a floor the story goes on with every command and every session, and whatever is ever seen
in a session is seen on such a floor. A playbook that cannot be loaded leaves everything as it is;
of any other, a run enters under its id, and after all that happens besides it returns what the call
returns, or is dropped like the call, while the other runs are still under way. In the course of a
session that happens only when the time is up of a call in whose course the playbook is run. -/
theorem ledger_accounts_for_runs {config : Config} {library : Library} {wiring : Wiring}
    (h : Story ⟨.new config library wiring, []⟩ story σ)
    (hopen : σ.shop.ledger.closed = false) (hfresh : (enteredIds story).Nodup) :
    ((σ.shop.ledger.active ++ σ.shop.ledger.history).map RunRecord.id).Nodup ∧
    (enteredIds story).Perm
      ((σ.shop.ledger.active ++ σ.shop.ledger.history).map RunRecord.id) ∧
    σ.shop.stats.active = σ.errands.length + (drops story).length ∧
    (σ.shop.stats.active = σ.errands.length ↔ drops story = []) ∧
    σ.shop.stats.completed = (returns story).countP (fun r => r.2.isNone) ∧
    σ.shop.stats.failed = (returns story).countP (fun r => r.2.isSome) ∧
    σ.shop.ledger.history = (returns story).map Prod.fst ∧
    (∀ e ∈ drops story, e.AtWork) ∧
    (∀ e ∈ σ.errands ++ drops story, e.stage.isPublished →
      σ.shop.run? (.id e.run.id) = some e.run) ∧
    (∀ id run, σ.shop.run? (.id id) = some run ↔
      (run ∈ σ.shop.ledger.active ∨ run ∈ σ.shop.ledger.history) ∧ run.id = id) ∧
    (∀ id, (σ.shop.run? (.id id)).isSome ↔ id ∈ enteredIds story) ∧
    (σ.Waiting → ∀ levels commands, ∀ rs ∈ (replies (perform levels) commands σ.shop).1,
      ∀ r ∈ rs, ∀ a, r.Shows a → Seen σ a) ∧
    (∀ attendant, (∀ commands v, Leads σ v (attendant commands v).2) →
      (∀ c, ∃ more, Story σ more ⟨(answer attendant c σ.shop).2, σ.errands⟩) ∧
      ∀ name input,
        (∀ f, σ.shop.library.load name = .error f →
          executePlaybook attendant name input σ.shop = (some (.error f), σ.shop)) ∧
        ∀ playbook, σ.shop.library.load name = .ok playbook →
          ∃ id, Runs σ id playbook (executePlaybook attendant name input σ.shop).1
            ⟨(executePlaybook attendant name input σ.shop).2, σ.errands⟩) ∧
    (∀ levels name input,
      InTime σ.shop (executePlaybook (replies (perform levels)) name input σ.shop)) ∧
    ∀ levels commands, ∃ more,
      Story σ more ⟨(replies (perform levels) commands σ.shop).2, σ.errands⟩ := by
  have hregistered := h.registered hfresh hopen
  have hnodup := hregistered.perm.nodup_iff.1 hfresh
  have hactive : σ.shop.stats.active = σ.errands.length + (drops story).length :=
    hregistered.length_active
  refine ⟨hnodup, hregistered.perm, hactive, ?_, hregistered.count_completed,
    hregistered.count_failed, hregistered.history, hregistered.dropped,
    fun e he hpublished => ?_, fun id run => Ledger.run?_eq_some_iff hnodup, fun id => ?_,
    replies_seen, fun attendant hattend => ⟨fun c => ?_, fun name input => ?_⟩,
    fun levels name input => ?_, fun levels commands => ?_⟩
  · rw [hactive, Nat.add_eq_left, List.length_eq_zero_iff]
  · exact (Ledger.run?_eq_some_iff hnodup).2 ⟨.inl (hregistered.shown e he hpublished), rfl⟩
  · exact Ledger.isSome_run?_iff.trans hregistered.perm.mem_iff.symm
  · exact story_of_leads (answer_leads hattend c σ.shop) .refl
  · obtain ⟨-, hnotFound, hran⟩ := executePlaybook_story hattend .refl name input
    exact ⟨hnotFound hopen, fun playbook hload => ⟨_, hran hopen playbook hload⟩⟩
  · exact (punctual_perform levels).executePlaybook name input σ.shop
  · exact story_of_leads (replies_leads levels commands σ.shop) .refl

/-- What has happened up to where the oven is in use. -/
def untilAtWork : List Happening :=
  [.done, .entered (equipped.beginRun bread .empty).1.id bread,
    .turned (.ofRun (equipped.beginRun bread .empty).1 [baking])
      ⟨begun.2.1, [], .begun baking begun.1⟩,
    .turned ⟨begun.2.1, [], .begun baking begun.1⟩ ⟨baker, [], .atWork baking begun.1⟩]

theorem story_untilAtWork : Story ⟨opened, []⟩ untilAtWork atWork := by
  have hload : equipped.library.load "bread" = .ok bread := by rfl
  have hgiven : (begun.2.2.allocate begun.1 baking.requirements).1 = .ok oven := by rfl
  have hequipped : Story ⟨opened, []⟩ [.done] ⟨equipped, []⟩ :=
    (Scene.act (does_register "oven" (.ofList [("id", .text "oven")]) opened)).single
  have hentered := hequipped.tail (.enter [] .empty rfl hload)
  exact (hentered.tail (.turn [] [] (.begin rfl))).tail (.turn [] [] (.supply hgiven))

/-- While the oven is in use, the same playbook is run again. It cannot have the oven, and fails. -/
theorem exists_story_refused :
    ∃ story σ, Story ⟨opened, []⟩ story σ ∧ σ.shop.ledger.closed = false ∧
      σ.errands = atWork.errands ∧
      entries story = [("exec-00000000-0000-4000-8000-000000000001", bread),
        ("exec-00000000-0000-4000-8000-000000000003", bread)] ∧
      drops story = [] ∧
      ∃ run, returns story =
        [(run, some (.unmet "step-00000000-0000-4000-8000-000000000004" "heat"))] := by
  have hload : atWork.shop.library.load "bread" = .ok bread := by rfl
  have hbegun := (story_untilAtWork.tail (.enter atWork.errands .empty rfl hload)).tail
    (.turn [] atWork.errands (.begin rfl))
  have hrefused := hbegun.tail (.turn [] atWork.errands
    (.refuse (f := .unmet "step-00000000-0000-4000-8000-000000000004" "heat") (by rfl)))
  have hleft := (hrefused.tail (.turn [] atWork.errands .settle)).tail
    (.leave [] atWork.errands (.failed rfl))
  exact ⟨_, _, hleft, rfl, rfl, rfl, rfl, _, rfl⟩

/-- One run is under way then, one has failed, and both are found by their ids. If the one that is
under way is dropped, it is still on record as before. -/
theorem ledger_accounts_for_runs_bakery :
    ∃ story σ, Story ⟨opened, []⟩ story σ ∧ σ.shop.ledger.closed = false ∧
      (enteredIds story).Nodup ∧ σ.shop.stats.active = 1 ∧ σ.shop.stats.completed = 0 ∧
      σ.shop.stats.failed = 1 ∧
      (∀ id ∈ ["exec-00000000-0000-4000-8000-000000000001",
        "exec-00000000-0000-4000-8000-000000000003"], (σ.shop.run? (.id id)).isSome) ∧
      ∃ e, Scene σ (.dropped e) ⟨σ.shop, []⟩ ∧ σ.shop.run? (.id e.run.id) = some e.run := by
  obtain ⟨story, σ, hstory, hopen, herrands, hentries, hdrops, run, hreturns⟩ :=
    exists_story_refused
  have hfresh : (enteredIds story).Nodup := by
    rw [enteredIds, hentries]
    decide
  obtain ⟨w, errands⟩ := σ
  obtain rfl : errands = atWork.errands := herrands
  obtain ⟨-, -, -, hundropped, hcompleted, hfailed, -, -, -, -, hfound, -⟩ :=
    ledger_accounts_for_runs hstory hopen hfresh
  have hscene : Scene ⟨w, atWork.errands⟩ (.dropped ⟨baker, [], .atWork baking begun.1⟩) ⟨w, []⟩ :=
    .drop [] [] ⟨_, _, rfl⟩
  obtain ⟨-, -, -, -, -, -, -, -, hdropped, -⟩ :=
    ledger_accounts_for_runs (hstory.tail hscene) hopen (by simpa using hfresh)
  refine ⟨story, _, hstory, hopen, hfresh, ?_, ?_, ?_, fun id hid => ?_, _, hscene,
    hdropped _ (by simp) rfl⟩
  · exact hundropped.2 hdrops
  · rw [hcompleted, hreturns]
    rfl
  · rw [hfailed, hreturns]
    rfl
  · rw [hfound, enteredIds, hentries]
    exact hid

/-- A step that takes a thinker half a second, at the very least. -/
def pondering : Playbook :=
  { name := "pondering", steps := [{ name := "think", method := "slowly" }] }

/-- An executor is given a tenth of a second for a step, in the course of which it runs a playbook
that takes longer. -/
def delegation : List Command :=
  [.updatePolicy { chain := some [.algorithmic], attempts := some 1, timeout := some 100 },
    .seat .ai ⟨.script "thinker" [.ok (.succeeded .empty)] 500, []⟩ "thinker",
    .seat .algorithmic
      ⟨.echo, [[.updatePolicy { chain := some [.ai], timeout := some 1000 },
        .executePlaybook "pondering" .empty]]⟩ "foreman",
    .executeStep "order" "delegate" .empty]

/-- After such a session no run is under way, and one is on record as if it were. -/
theorem dropped_run_stays_active :
    let start : Workshop := .new {} (.ofPlaybooks [pondering]) .own
    let after := (replies (perform 1) delegation start).2
    (start.session delegation).length = 4 ∧ (∃ story, Story ⟨start, []⟩ story ⟨after, []⟩) ∧
      after.ledger.closed = false ∧ after.stats.active = 1 := by
  intro start after
  refine ⟨length_session rfl delegation, story_of_leads (replies_leads 1 delegation start) .refl,
    by decide +kernel, by decide +kernel⟩

end Floor

end Foreman
