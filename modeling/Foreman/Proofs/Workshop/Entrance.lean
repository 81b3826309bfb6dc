import Foreman.Proofs.Workshop.Lobby
import Foreman.Proofs.Workshop.Registry
/-!
# Calls on their way in while everything is shut down

What is forgotten when everything is shut down does not come back. But a call that has been let in,
and waits for its playbook at that time, puts its run on record afterwards; it takes the run off
again before it has done anything else. Only if there was no such call does nothing stand on the
list of runs under way ever after.

## Main definitions

* `Foreman.Caller.IsExpected`, `Foreman.Caller.Lingers`: a call has been let in and has not put its
  run on record; it has, and no step of the run is under way.
* `Foreman.Lobby.ShutsDown`: a call to shut everything down is through with the ledger.
* `Foreman.Lobby.Aftermath`: how calls and ledger stand from then on.

## Main results

* `Foreman.Caller.Turn.expected`, `Foreman.Caller.Turn.idle`, `Foreman.Caller.Turn.active`: what a
  turn can do once everything has been shut down.
* `Foreman.Lobby.Aftermath.turn`, `Foreman.Lobby.Aftermath.moves`: what all of them together can do.
* `Foreman.Lobby.active_after_shutdown`: which runs are on the list then.
* `Foreman.Lobby.late_run_active`: a run that is.
-/

namespace Foreman

open Relation

namespace Caller

/-- A call was let in, and its run is not on record yet. -/
inductive IsExpected : Caller → Prop
  | waiting : IsExpected .waiting
  | ready (run : RunRecord) : IsExpected (.ready run)

/-- The run of a call is on record under an id, and no step of it is under way. -/
inductive Lingers (id : String) : Caller → Prop
  | due : Lingers id (.due id)
  | leaving : Lingers id (.leaving id)

/-- A call has no step under way, and none has failed. -/
inductive IsIdle : Caller → Prop
  | expected {c : Caller} (h : c.IsExpected) : IsIdle c
  | lingering {id c} (h : Lingers id c) : IsIdle c
  | gone : IsIdle .gone

variable {c c' : Caller} {l l' : Ledger} {id : String}

/-- What has been shut down stays so. -/
theorem Turn.closed (h : c.Turn l c' l') (hclosed : l.closed = true) : l'.closed = true := by
  cases h with
  | finish run => exact (Ledger.closed_finish l run).trans hclosed
  | announce | drain => rfl
  | _ => exact hclosed

/-- Once everything has been shut down, no call is let in. -/
theorem Turn.expected (h : c.Turn l c' l') (hclosed : l.closed = true) (hc' : c'.IsExpected) :
    c.IsExpected := by
  cases h with
  | letIn hopen => exact absurd (hopen.symm.trans hclosed) Bool.false_ne_true
  | found run => exact .waiting
  | _ => exact nomatch hc'

/-- Once everything has been shut down, a run that has no step under way begins none. -/
theorem Turn.idle (h : c.Turn l c' l') (hclosed : l.closed = true) (hc : c.IsIdle) :
    c'.IsIdle := by
  cases h with
  | refuse _ | notFound | finish _ | drop | drain => exact .gone
  | found run => exact .expected (.ready run)
  | start => exact .lingering .due
  | publish run => exact hc
  | interrupt _ | abandon _ => exact .lingering .leaving
  | letIn hopen | proceed hopen | complete hopen | giveUp hopen =>
    exact absurd (hopen.symm.trans hclosed) Bool.false_ne_true
  | getDone | fail | announce => rcases hc with ⟨⟨⟩⟩ | ⟨⟨⟩⟩

/-- A run that is under way after a turn was put on record by it, its call having been let in; or it
was under way before. As long as it is, its call has yet to take it off the record. -/
theorem Turn.active (h : c.Turn l c' l') (hclosed : l.closed = true) {run' : RunRecord}
    (hrun' : run' ∈ l'.active) :
    (c.IsExpected ∧ c'.Lingers run'.id) ∨
      ∃ run ∈ l.active, run.id = run'.id ∧ (c.Lingers run.id → c'.Lingers run'.id) := by
  cases h with
  | refuse _ | notFound | found _ | getDone | fail | abandon _ | announce =>
    refine .inr ⟨run', hrun', rfl, ?_⟩
    rintro ⟨⟩
  | letIn hopen | proceed hopen | complete hopen | giveUp hopen =>
    exact absurd (hopen.symm.trans hclosed) Bool.false_ne_true
  | @start run l =>
    rcases List.mem_append.1 hrun' with hold | hnew
    · refine .inr ⟨run', hold, rfl, ?_⟩
      rintro ⟨⟩
    · obtain rfl := List.mem_singleton.1 hnew
      exact .inl ⟨.ready run', .due⟩
  | publish published =>
    have hid : run'.id ∈ l.active.map RunRecord.id :=
      l.map_id_publish published ▸ List.mem_map_of_mem hrun'
    obtain ⟨run, hrun, hid⟩ := List.mem_map.1 hid
    refine .inr ⟨run, hrun, hid, ?_⟩
    rintro ⟨⟩
  | finish ended =>
    have hrun : run' ∈ l.active := by
      rw [Ledger.finish] at hrun'
      split at hrun'
      · exact List.mem_of_mem_filter hrun'
      · exact hrun'
    refine .inr ⟨run', hrun, rfl, ?_⟩
    rintro ⟨⟩
  | interrupt _ =>
    refine .inr ⟨run', hrun', rfl, ?_⟩
    rintro ⟨⟩
    exact .leaving
  | drop =>
    obtain ⟨hrun, hne⟩ := List.mem_filter.1 hrun'
    refine .inr ⟨run', hrun, rfl, ?_⟩
    rintro ⟨⟩
    simp at hne
  | drain => exact absurd hrun' List.not_mem_nil

/-- The call of a run on record that has no step under way takes it off. -/
theorem Lingers.reaches (h : c.Lingers id) (hclosed : l.closed = true) :
    c.Reaches l .gone (l.drop id) := by
  cases h with
  | due => exact (Turn.interrupt hclosed).reaches.tail .drop
  | leaving => exact Turn.drop.reaches

/-- A call that has been let in may put a run on record, and goes no further by that. -/
theorem IsExpected.exists_reaches (h : c.IsExpected) (l : Ledger) :
    ∃ run, c.Reaches l (.due run.id) (l.start run) := by
  cases h with
  | waiting => exact ⟨default, (Turn.found default).reaches.tail .start⟩
  | ready run => exact ⟨run, Turn.start.reaches⟩

end Caller

namespace Lobby

/-- A call to shut everything down is through with the ledger: it has forgotten what was on
record. -/
def ShutsDown (σ τ : Lobby) : Prop :=
  ∃ k, σ.callers[k]? = some .draining ∧ τ = ⟨σ.ledger.close, σ.callers.set k .gone⟩

variable {σ σ' τ υ : Lobby} {l l' : Ledger} {callers before : List Caller} {c c' : Caller}
  {k : ℕ}

theorem ShutsDown.move (h : ShutsDown σ τ) : Move σ τ := by
  obtain ⟨k, hk, rfl⟩ := h
  exact .turn k hk .drain

/-- Calls that have been let in stay where they are. -/
theorem ShutsDown.getElem?_eq {j : ℕ} (h : ShutsDown σ τ) (hj : σ.callers[j]? = some c)
    (hc : c.IsExpected) : τ.callers[j]? = some c := by
  obtain ⟨k, hk, rfl⟩ := h
  have hkj : k ≠ j := by
    rintro rfl
    obtain rfl : Caller.draining = c := Option.some.inj (hk.symm.trans hj)
    exact nomatch hc
  rw [List.getElem?_set_ne hkj, hj]

/-- Where the calls stand, and what is on record, after everything has been shut down; the calls as
they stood before are given. -/
structure Aftermath (before : List Caller) (τ : Lobby) : Prop where
  /-- Everything has been shut down. -/
  closed : τ.ledger.closed = true
  /-- No call has been let in. -/
  expected (j : ℕ) (c' : Caller) : τ.callers[j]? = some c' → c'.IsExpected →
    ∃ c : Caller, before[j]? = some c ∧ c.IsExpected
  /-- Those that had been let in have begun no step. -/
  idle (j : ℕ) (c : Caller) : before[j]? = some c → c.IsExpected →
    ∃ c' : Caller, τ.callers[j]? = some c' ∧ c'.IsIdle
  /-- The runs under way are theirs, and have no step under way. -/
  active : ∀ run ∈ τ.ledger.active, ∃ (j : ℕ) (c c' : Caller), before[j]? = some c ∧
    c.IsExpected ∧ τ.callers[j]? = some c' ∧ c'.Lingers run.id

/-- At once nothing is on record. -/
theorem ShutsDown.aftermath (h : ShutsDown σ τ) : Aftermath σ.callers τ := by
  have hidle (j : ℕ) (c : Caller) (hj : σ.callers[j]? = some c) (hc : c.IsExpected) :
      ∃ c' : Caller, τ.callers[j]? = some c' ∧ c'.IsIdle :=
    ⟨c, h.getElem?_eq hj hc, .expected hc⟩
  obtain ⟨k, hk, rfl⟩ := h
  refine ⟨rfl, fun j c' hj hc' => ?_, hidle, nofun⟩
  by_cases hkj : k = j
  · subst hkj
    rw [List.getElem?_set_self (List.getElem?_eq_some_iff.1 hk).1] at hj
    obtain rfl := Option.some.inj hj
    exact nomatch hc'
  · rw [List.getElem?_set_ne hkj] at hj
    exact ⟨c', hj, hc'⟩

namespace Aftermath

/-- Someone calls. -/
theorem join (h : Aftermath before τ) (hc : ¬ c.IsExpected) :
    Aftermath before ⟨τ.ledger, τ.callers ++ [c]⟩ := by
  have hkept {j : ℕ} {c' : Caller} (hj : τ.callers[j]? = some c') :
      (τ.callers ++ [c])[j]? = some c' := by
    rw [List.getElem?_append_left (List.getElem?_eq_some_iff.1 hj).1, hj]
  refine ⟨h.closed, fun j c' hj hc' => ?_, fun j c' hj hc' => ?_, fun run hrun => ?_⟩
  · rw [List.getElem?_append] at hj
    split at hj
    · exact h.expected j c' hj hc'
    · obtain rfl := List.mem_singleton.1 (List.mem_of_getElem? hj)
      exact absurd hc' hc
  · obtain ⟨c'', hj', hidle⟩ := h.idle j c' hj hc'
    exact ⟨c'', hkept hj', hidle⟩
  · obtain ⟨j, c', c'', hj, hc', hj', hlingers⟩ := h.active run hrun
    exact ⟨j, c', c'', hj, hc', hkept hj', hlingers⟩

/-- A call takes a turn. -/
theorem turn (h : Aftermath before ⟨l, callers⟩) (hk : callers[k]? = some c)
    (hturn : c.Turn l c' l') : Aftermath before ⟨l', callers.set k c'⟩ := by
  have hown : (callers.set k c')[k]? = some c' := by
    rw [List.getElem?_set_self (List.getElem?_eq_some_iff.1 hk).1]
  refine ⟨hturn.closed h.closed, fun j d hj hd => ?_, fun j d hj hd => ?_, fun run' hrun' => ?_⟩
  · by_cases hkj : k = j
    · subst hkj
      obtain rfl : c' = d := Option.some.inj (hown.symm.trans hj)
      exact h.expected k c hk (hturn.expected h.closed hd)
    · rw [List.getElem?_set_ne hkj] at hj
      exact h.expected j d hj hd
  · obtain ⟨d', hj', hidle⟩ := h.idle j d hj hd
    by_cases hkj : k = j
    · subst hkj
      obtain rfl : c = d' := Option.some.inj (hk.symm.trans hj')
      exact ⟨c', hown, hturn.idle h.closed hidle⟩
    · exact ⟨d', by rw [List.getElem?_set_ne hkj, hj'], hidle⟩
  · rcases hturn.active h.closed hrun' with ⟨hexpected, hlingers⟩ | ⟨run, hrun, hid, hlingers⟩
    · obtain ⟨d, hj, hd⟩ := h.expected k c hk hexpected
      exact ⟨k, d, c', hj, hd, hown, hlingers⟩
    · obtain ⟨j, d, d', hj, hd, hj', hlingers'⟩ := h.active run hrun
      by_cases hkj : k = j
      · subst hkj
        obtain rfl : c = d' := Option.some.inj (hk.symm.trans hj')
        exact ⟨k, d, c', hj, hd, hown, hlingers hlingers'⟩
      · exact ⟨j, d, d', hj, hd, by rw [List.getElem?_set_ne hkj, hj'], hid ▸ hlingers'⟩

theorem moves (h : Aftermath before τ) (hmoves : Moves τ υ) : Aftermath before υ := by
  induction hmoves with
  | refl => exact h
  | tail _ hmove ih =>
    cases hmove with
    | call σ => exact ih.join nofun
    | shutdown σ => exact ih.join nofun
    | turn k hk hturn => exact ih.turn hk hturn

/-- If no call had been let in, nothing is under way. -/
theorem active_eq_nil (h : Aftermath before τ) (hnone : ∀ c ∈ before, ¬ c.IsExpected) :
    τ.ledger.active = [] := by
  refine List.eq_nil_iff_forall_not_mem.2 fun run hrun => ?_
  obtain ⟨j, c, -, hj, hc, -, -⟩ := h.active run hrun
  exact hnone c (List.mem_of_getElem? hj) hc

end Aftermath

/-- A call that has been let in may yet put a run on record. -/
theorem ShutsDown.exists_active (h : ShutsDown σ τ) (hc : c ∈ σ.callers)
    (hexpected : c.IsExpected) : ∃ υ, Moves τ υ ∧ υ.ledger.active ≠ [] := by
  obtain ⟨j, hj⟩ := List.mem_iff_getElem?.1 hc
  obtain ⟨run, hreaches⟩ := hexpected.exists_reaches τ.ledger
  exact ⟨_, moves_of_reaches (h.getElem?_eq hj hexpected) hreaches,
    List.append_ne_nil_of_right_ne_nil _ (List.cons_ne_nil _ _)⟩

/-- No run is shown as under way by a workshop whose ledger it is. -/
def ShowsNone (σ : Lobby) : Prop :=
  ∀ attendant (w : Workshop), w.ledger = σ.ledger →
    (Workshop.answer attendant .listActive w).1 = some (.runs []) ∧ w.stats.active = 0

theorem showsNone_iff : σ.ShowsNone ↔ σ.ledger.active = [] := by
  constructor
  · intro hshows
    have hnone := (hshows (fun _ w => (some [], w)) { ledger := σ.ledger } rfl).2
    exact List.eq_nil_of_length_eq_zero hnone
  · intro hnone attendant w hw
    have hactive : w.ledger.active = [] := by rw [hw, hnone]
    exact ⟨congrArg (some <| Answer.runs ·) hactive, congrArg List.length hactive⟩

/-- However calls take turns: once one of them has shut everything down, the ledger stays closed;
the runs under way are those of calls that had been let in before and had not put their runs on
record, and no step of theirs is under way or ever begins; each is taken off the record when its
call goes on. So no run is ever shown as under way if, and only if, no call had been let in that had
not put its run on record. All that happens on the floor of a workshop comes of such turns. -/
theorem active_after_shutdown (h : ShutsDown σ τ) :
    Move σ τ ∧
    (∀ υ, Moves τ υ → υ.ledger.closed = true ∧
      (∀ run ∈ υ.ledger.active, ∃ (j : ℕ) (c c' : Caller),
        σ.callers[j]? = some c ∧ c.IsExpected ∧ υ.callers[j]? = some c' ∧ c'.Lingers run.id ∧
          c'.Reaches υ.ledger .gone (υ.ledger.drop run.id)) ∧
      ∀ (j : ℕ) (c : Caller), σ.callers[j]? = some c → c.IsExpected →
        ∃ c' : Caller, υ.callers[j]? = some c' ∧ c'.IsIdle) ∧
    ((∀ υ, Moves τ υ → υ.ShowsNone) ↔ ∀ c ∈ σ.callers, ¬ c.IsExpected) ∧
    ∀ (config : Config) (library : Library) (wiring : Wiring) (story : List Happening) (φ : Floor),
      Floor.Story ⟨.new config library wiring, []⟩ story φ →
        ∃ χ, Moves {} χ ∧ χ.ledger = φ.shop.ledger := by
  refine ⟨h.move, fun υ hmoves => ?_,
    ⟨fun hnone c hc hexpected => ?_, fun hnone υ hmoves => ?_⟩,
    fun config library wiring story φ hstory => ?_⟩
  · have hafter := h.aftermath.moves hmoves
    refine ⟨hafter.closed, fun run hrun => ?_, hafter.idle⟩
    obtain ⟨j, c, c', hj, hc, hj', hlingers⟩ := hafter.active run hrun
    exact ⟨j, c, c', hj, hc, hj', hlingers, hlingers.reaches hafter.closed⟩
  · obtain ⟨υ, hmoves, hactive⟩ := h.exists_active hc hexpected
    exact hactive (showsNone_iff.1 (hnone υ hmoves))
  · exact showsNone_iff.2 ((h.aftermath.moves hmoves).active_eq_nil hnone)
  · obtain ⟨χ, hmoves, hχ⟩ := hstory.lobby
    exact ⟨χ, hmoves, hχ.ledger⟩

/-- A run for a loaf of bread. -/
def loaf : RunRecord :=
  { id := "exec-loaf", playbook := "bread", status := .running, input := .empty,
    started := .ofMillis 0 }

/-- A step of the run is under way, someone has called, and everything is about to be forgotten. -/
def hurried : Lobby :=
  ⟨⟨[loaf], [], true⟩, [.working loaf.id, .arriving, .draining]⟩

/-- Everything having been forgotten, the step is published and the run is abandoned, and who has
called is refused; whatever happens, no run is shown. -/
theorem active_after_shutdown_hurried :
    ∃ τ, Moves {} hurried ∧ hurried.ShutsDown τ ∧
      Moves τ ⟨⟨[], [], true⟩, [.gone, .gone, .gone]⟩ ∧ ∀ υ, Moves τ υ → υ.ShowsNone := by
  have hworking : Moves {} ⟨⟨[loaf], [], false⟩, [.working loaf.id]⟩ :=
    moves_of_join (.call {})
      ((((Caller.Turn.letIn rfl).reaches.tail (.found loaf)).tail .start).tail (.proceed rfl))
  have hcalled := hworking.tail (.call _)
  have hhurried : Moves {} hurried :=
    hcalled.trans (moves_of_join (.shutdown _) Caller.Turn.announce.reaches)
  have hshut : hurried.ShutsDown ⟨hurried.ledger.close, hurried.callers.set 2 .gone⟩ :=
    ⟨2, rfl, rfl⟩
  have habandoned : Moves ⟨hurried.ledger.close, hurried.callers.set 2 .gone⟩
      ⟨⟨[], [], true⟩, [.gone, .arriving, .gone]⟩ :=
    moves_of_reaches (k := 0) rfl
      ((((Caller.Turn.publish loaf).reaches.tail .fail).tail (.abandon rfl)).tail .drop)
  have hrefused := habandoned.tail (.turn 1 rfl (.refuse rfl))
  refine ⟨_, hhurried, hshut, hrefused, (active_after_shutdown hshut).2.2.1.2 fun c hc => ?_⟩
  simp only [hurried, List.mem_cons, List.not_mem_nil, or_false] at hc
  rcases hc with rfl | rfl | rfl <;> exact nofun

/-- A call that has been let in waits for its playbook while everything is shut down. Then it puts
its run on record, and there it is shown as under way. -/
theorem late_run_active :
    Moves {} ⟨⟨[], [], true⟩, [.waiting, .draining]⟩ ∧
      ShutsDown ⟨⟨[], [], true⟩, [.waiting, .draining]⟩ ⟨⟨[], [], true⟩, [.waiting, .gone]⟩ ∧
      Moves ⟨⟨[], [], true⟩, [.waiting, .gone]⟩ ⟨⟨[loaf], [], true⟩, [.due loaf.id, .gone]⟩ ∧
      ¬ ShowsNone ⟨⟨[loaf], [], true⟩, [.due loaf.id, .gone]⟩ ∧
      ({ ledger := ⟨[loaf], [], true⟩ } : Workshop).stats.active = 1 := by
  have hwaiting : Moves {} ⟨{}, [.waiting]⟩ :=
    moves_of_join (.call {}) (Caller.Turn.letIn rfl).reaches
  have hclosing : Moves {} ⟨⟨[], [], true⟩, [.waiting, .draining]⟩ :=
    hwaiting.trans (moves_of_join (.shutdown _) Caller.Turn.announce.reaches)
  have hstarted : Moves ⟨⟨[], [], true⟩, [.waiting, .gone]⟩
      ⟨⟨[loaf], [], true⟩, [.due loaf.id, .gone]⟩ :=
    moves_of_reaches (k := 0) rfl ((Caller.Turn.found loaf).reaches.tail .start)
  have hshown : ¬ ShowsNone ⟨⟨[loaf], [], true⟩, [.due loaf.id, .gone]⟩ :=
    fun hnone => List.cons_ne_nil _ _ (showsNone_iff.1 hnone)
  exact ⟨hclosing, ⟨1, rfl, rfl⟩, hstarted, hshown, rfl⟩

end Lobby

end Foreman
