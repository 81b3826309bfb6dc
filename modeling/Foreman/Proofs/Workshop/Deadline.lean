import Foreman.Proofs.Workshop.Observation
/-!
# Nothing is dropped before its time

A call is dropped only when the time of a call is up in whose course it was made. So whoever makes a
call in whose course no time is limited is told what became of it, and every command of a session
gets its reply. Time never runs backwards, and the deadline of a call is the same when it returns.

## Main definitions

* `Foreman.Workshop.Later`, `Foreman.Workshop.Expired`: time passes; the deadline has come.
* `Foreman.Workshop.Punctual`: whoever attends to executors drops nothing before its time.

## Main results

* `Foreman.Workshop.Punctual.callWorker`, `Foreman.Workshop.Punctual.executePlaybook`: calls are
  dropped in time only.
* `Foreman.Workshop.punctual_perform`: so is whatever is asked in the course of a session.
* `Foreman.Workshop.length_session`: every command of a session gets its reply.
-/

namespace Foreman.Workshop

open Errand

/-- Time passes, and the deadline stays the same. -/
structure Later (w w' : Workshop) : Prop where
  /-- Time does not run backwards. -/
  clock : w.clock ≤ w'.clock
  /-- The deadline is the same. -/
  deadline : w'.deadline = w.deadline

/-- The deadline has come. -/
def Expired (w : Workshop) : Prop :=
  ∃ d, w.deadline = some d ∧ d ≤ w.clock

/-- One workshop comes later than another, and the deadline has come if nothing is told. -/
structure InTime {α : Type u} (w : Workshop) (told : Option α × Workshop) : Prop where
  /-- Time passes. -/
  later : Later w told.2
  /-- Nothing is told only if the deadline has come. -/
  expired : told.1 = none → Expired told.2

/-- Whoever attends to executors drops nothing before its time. -/
def Punctual (attendant : Attendant) : Prop :=
  ∀ commands v, InTime v (attendant commands v)

variable {attendant : Attendant} {w w' w'' : Workshop}

theorem Later.refl (w : Workshop) : Later w w :=
  ⟨Nat.le_refl _, rfl⟩

theorem Later.trans (h : Later w w') (h' : Later w' w'') : Later w w'' :=
  ⟨Nat.le_trans h.clock h'.clock, h'.deadline.trans h.deadline⟩

theorem SameCrew.later (h : SameCrew w w') : Later w w' :=
  ⟨Nat.le_of_eq h.clock.symm, h.deadline⟩

/-- A deadline that has come stays behind. -/
theorem Expired.of_later (h : Expired w) (hlater : Later w w') : Expired w' := by
  obtain ⟨d, hd, hclock⟩ := h
  exact ⟨d, hlater.deadline.trans hd, Nat.le_trans hclock hlater.clock⟩

theorem InTime.told {α : Type u} {a : α} (h : Later w w') : InTime w (some a, w') :=
  ⟨h, by simp⟩

theorem InTime.dropped {α : Type u} (h : Later w w') (hexpired : Expired w') :
    InTime (α := α) w (none, w') :=
  ⟨h, fun _ => hexpired⟩

theorem InTime.of_later {α : Type u} {told : Option α × Workshop} (h : InTime w' told)
    (hlater : Later w w') : InTime w told :=
  ⟨hlater.trans h.later, h.expired⟩

theorem InTime.map {α : Type u} {β : Type v} {told : Option α × Workshop} (h : InTime w told)
    (f : α → β) : InTime w (told.1.map f, told.2) :=
  ⟨h.later, fun hnone => h.expired (Option.map_eq_none_iff.1 hnone)⟩

/-- Where no time is limited, something is told. -/
theorem InTime.isSome {α : Type u} {told : Option α × Workshop} (h : InTime w told)
    (hw : w.deadline = none) : told.1.isSome := by
  refine Option.isSome_iff_ne_none.2 fun hnone => ?_
  obtain ⟨d, hd, -⟩ := h.expired hnone
  rw [h.later.deadline, hw] at hd
  cases hd

theorem later_expire (w : Workshop) : Later w w.expire :=
  ⟨Nat.le_max_left _ _, rfl⟩

theorem later_receive (place : ℕ) (inputs : Bindings) (w : Workshop) :
    Later w (w.receive place inputs) :=
  ⟨Nat.le_refl _, rfl⟩

theorem later_respond (place : ℕ) (r : Request) (w : Workshop) : Later w (respond place r w).2 := by
  unfold respond
  split <;> exact ⟨Nat.le_refl _, rfl⟩

/-- When the deadline comes, it has come. -/
theorem expired_expire {d : ℕ} (h : w.deadline = some d) : Expired w.expire := by
  refine ⟨d, h, ?_⟩
  rw [expire, h]
  exact Nat.le_max_right w.clock d

/-- Where the earlier of two deadlines has come that is not a call's own, it is another one. -/
theorem expired_of_merge {due : Option ℕ} {d : ℕ} (hd : w.deadline.merge min due = some d)
    (hcome : d ≤ w'.clock) (hown : ¬ due.any (fun d => w.deadline.all (d ≤ ·)) = true) :
    Expired { w' with deadline := w.deadline } := by
  cases hdeadline : w.deadline with
  | none => cases due <;> simp [hdeadline] at hd hown
  | some d' =>
    refine ⟨d', rfl, ?_⟩
    change d' ≤ w'.clock
    cases due with
    | none => simp_all
    | some e =>
      simp only [hdeadline, Option.merge_some_some, Option.some.injEq, Option.any_some,
        Option.all_some, decide_eq_true_eq] at hd hown
      omega

/-- A command in the course of which no executor is at work is never dropped. -/
theorem isSome_answer (attendant : Attendant) {c : Command} (hc : engages c = false) :
    (answer attendant c w).1.isSome := by
  have hfailure {α : Type} (told : α → Answer) (r : Except Failure α × Workshop) :
      (orFailure told r).1.isSome := by
    rcases r with ⟨_ | _, v⟩ <;> rfl
  cases c with
  | executeStep _ _ _ | callWorker _ _ _ _ | executePlaybook _ _ => cases hc
  | allocate _ _ | updatePolicy _ | loadPlaybook _ => exact hfailure _ _
  | effective name | playbookNames | describe subject =>
    unfold answer
    dsimp only
    split <;> rfl
  | _ => rfl

namespace Punctual

variable (h : Punctual attendant)

include h

/-! ### Calls of executors -/

theorem attend (label : String) (call : ℕ) (commands : List Command) (w : Workshop) :
    Later w (attend attendant label call commands w).2 ∧
      ((attend attendant label call commands w).1 = false →
        Expired (attend attendant label call commands w).2) := by
  obtain ⟨⟨hclock, hdeadline⟩, hexpired⟩ := h commands { w with depth := w.depth + 1 }
  rcases hreplies : attendant commands { w with depth := w.depth + 1 } with ⟨_ | rs, v⟩ <;>
    rw [hreplies] at hclock hdeadline hexpired <;> simp only [Workshop.attend, hreplies]
  · obtain ⟨d, hd, hcome⟩ := hexpired rfl
    exact ⟨⟨hclock, rfl⟩, fun _ => ⟨d, hdeadline.symm.trans hd, hcome⟩⟩
  · exact ⟨⟨hclock, rfl⟩, by simp⟩

theorem beginCall (place : ℕ) (worker : Worker) (w : Workshop) :
    Later w (beginCall attendant place worker w).2 ∧
      ((beginCall attendant place worker w).1 = false →
        Expired (beginCall attendant place worker w).2) := by
  unfold Workshop.beginCall
  dsimp only
  split
  · exact ⟨⟨Nat.le_refl _, rfl⟩, by simp⟩
  · obtain ⟨⟨hclock, hdeadline⟩, hexpired⟩ := h.attend worker.label (worker.begun + 1) _
      (w.modifyWorker place fun v => { v with begun := v.begun + 1 })
    exact ⟨⟨hclock, hdeadline⟩, hexpired⟩

/-- An executor does not get to its answer only if the deadline has come. -/
theorem labour (place : ℕ) (worker : Worker) (r : Request) (w : Workshop) :
    Later w (labour attendant place worker r w).2 ∧
      ((labour attendant place worker r w).1 = false →
        Expired (labour attendant place worker r w).2) := by
  obtain ⟨hlater, hexpired⟩ := h.beginCall place worker w
  rcases hbegun : Workshop.beginCall attendant place worker w with ⟨_ | _, v⟩ <;>
    rw [hbegun] at hlater hexpired <;> simp only [Workshop.labour, hbegun]
  · exact ⟨hlater.trans (later_expire v), fun _ => (hexpired rfl).of_later (later_expire v)⟩
  · have hreceived := hlater.trans (later_receive place r.inputs v)
    split
    · next hlate =>
      obtain ⟨d, hd, -⟩ := (Option.any_eq_true _ _).1 hlate
      exact ⟨hreceived.trans (later_expire _), fun _ => expired_expire hd⟩
    · exact ⟨hreceived.trans ⟨Nat.le_add_right _ _, rfl⟩, by simp⟩

/-- A call is dropped only when the time is up of a call in whose course it was made; otherwise it
is answered, or its own time is up. -/
theorem callWorker (limit : Option ℕ) (place : ℕ) (r : Request) (w : Workshop) :
    InTime w (callWorker attendant limit place r w) := by
  cases hworker : w.workers[place]? with
  | none =>
    simp only [Workshop.callWorker, hworker]
    exact .told (.refl w)
  | some worker =>
    obtain ⟨hlater, hexpired⟩ := h.labour place worker r
      { w with deadline := w.deadline.merge min (limit.map (w.clock + ·)) }
    rcases hlabour : Workshop.labour attendant place worker r
        { w with deadline := w.deadline.merge min (limit.map (w.clock + ·)) } with ⟨answers, v⟩
    rw [hlabour] at hlater hexpired
    rw [callWorker_of_labour hworker hlabour]
    have hback : Later w { v with deadline := w.deadline } := ⟨hlater.clock, rfl⟩
    split
    · exact .told (hback.trans (later_respond place r _))
    · next hanswers =>
      split
      · exact .told hback
      · next hown =>
        refine .dropped hback ?_
        obtain ⟨d, hd, hcome⟩ := hexpired (by simpa using hanswers)
        exact expired_of_merge (hlater.deadline.symm.trans hd) hcome hown

theorem executeStep (step method : String) (inputs : Bindings) (w : Workshop) :
    InTime w (executeStep attendant step method inputs w) := by
  -- once a shift was dropped, the deadline has come for good
  let R (s s' : Shift) : Prop := Later s.shop s'.shop ∧
    ((s.dropped → Expired s.shop) → s'.dropped → Expired s'.shop)
  have hattempt (place : ℕ) (r : Request) (s : Shift) :
      R s ((crew attendant).attempt place r s).2 := by
    have hcalled := h.callWorker (some r.timeout) place r s.shop
    rcases hcall : Workshop.callWorker attendant (some r.timeout) place r s.shop with ⟨_ | a, v⟩ <;>
      rw [hcall] at hcalled <;> simp only [crew, hcall]
    · exact ⟨hcalled.later, fun _ _ => hcalled.expired rfl⟩
    · exact ⟨hcalled.later, fun hbefore hdropped => (hbefore hdropped).of_later hcalled.later⟩
  have hnote (n : Notice) (s : Shift) : R s ((crew attendant).note n s) :=
    have hnoted : Later s.shop (s.shop.note n) := ⟨Nat.le_refl _, rfl⟩
    ⟨hnoted, fun hbefore hdropped => (hbefore hdropped).of_later hnoted⟩
  have hreach := Engine.run_reaches (R := R) (fun place r s => .single (hattempt place r s))
    (fun n s => .single (hnote n s)) w.policy step method inputs { shop := w }
  have hrun {s s' : Shift} (hreach : Relation.ReflTransGen R s s') : R s s' := by
    induction hreach with
    | refl => exact ⟨.refl s.shop, id⟩
    | tail _ hlast ih => exact ⟨ih.1.trans hlast.1, fun hbefore => hlast.2 (ih.2 hbefore)⟩
  refine ⟨(hrun hreach).1, fun hnone => (hrun hreach).2 (by simp) ?_⟩
  by_contra hdropped
  simp [Workshop.executeStep, hdropped] at hnone

theorem callDirectly (label step method : String) (inputs : Bindings) (w : Workshop) :
    InTime w (callDirectly attendant label step method inputs w) := by
  unfold Workshop.callDirectly
  split
  · exact .told (.refl w)
  · next place _ =>
    have hcalled := h.callWorker none place ⟨step, method, inputs, directTimeout⟩ w
    rcases hcall : Workshop.callWorker attendant none place ⟨step, method, inputs, directTimeout⟩ w
      with ⟨_ | response | _, v⟩ <;> rw [hcall] at hcalled
    · exact .dropped hcalled.later (hcalled.expired rfl)
    · exact .told hcalled.later
    · exact .told hcalled.later

/-! ### Runs -/

theorem allocateAndExecute (run : RunRecord) (id : String) (s : Step) (w : Workshop) :
    InTime w (allocateAndExecute attendant run id s w).2 := by
  have hgiven : Later w (w.allocate id s.requirements).2 := ⟨Nat.le_refl _, rfl⟩
  rcases hresult : w.allocate id s.requirements with ⟨f | given, v⟩ <;> rw [hresult] at hgiven
  · simp only [Workshop.allocateAndExecute, hresult]
    exact .told hgiven
  · have hpublished : Later w (v.publish (run.supply given (run.inputsFor s))) :=
      ⟨hgiven.clock, hgiven.deadline⟩
    have hworked := (h.executeStep s.name s.method (run.inputsFor s)
      (v.publish (run.supply given (run.inputsFor s)))).of_later hpublished
    rcases hstep : Workshop.executeStep attendant s.name s.method (run.inputsFor s)
      (v.publish (run.supply given (run.inputsFor s))) with ⟨_ | f | result, v'⟩ <;>
      rw [hstep] at hworked <;> simp only [Workshop.allocateAndExecute, hresult, hstep]
    · exact .dropped hworked.later (hworked.expired rfl)
    · exact .told hworked.later
    · exact .told hworked.later

theorem runStep (run : RunRecord) (s : Step) (w : Workshop) :
    InTime w (runStep attendant run s w).2 := by
  have hbegun : Later w (beginStep run s w).2.2 := ⟨Nat.le_refl _, rfl⟩
  have hworked := (h.allocateAndExecute (beginStep run s w).2.1 (beginStep run s w).1 s
    (beginStep run s w).2.2).of_later hbegun
  rcases hstep : Workshop.allocateAndExecute attendant (beginStep run s w).2.1 (beginStep run s w).1
    s (beginStep run s w).2.2 with ⟨run', _ | failure, v⟩ <;>
    rw [hstep] at hworked <;> simp only [Workshop.runStep, hstep]
  · exact hworked
  · exact .told (hworked.later.trans ⟨Nat.le_refl _, rfl⟩)

theorem runSteps (run : RunRecord) (left : List Step) (w : Workshop) :
    InTime w (runSteps attendant run left w).2 := by
  have habandoned (run : RunRecord) (v : Workshop) : Later v (v.abandon run) := by
    have hnoted : SameCrew v (v.note (.runAbandoned run.id run.steps.length)) :=
      ⟨rfl, rfl, rfl, rfl⟩
    have hreleased := hnoted.trans (sameCrew_releaseAll StepRecord.id run.steps _)
    exact ⟨hreleased.later.clock, hreleased.later.deadline⟩
  induction left generalizing run w with
  | nil =>
    unfold Workshop.runSteps
    split
    · exact .told (habandoned run w)
    · exact .told ⟨Nat.le_refl _, rfl⟩
  | cons s rest ih =>
    have hstep := h.runStep run s w
    unfold Workshop.runSteps
    split
    · exact .told (habandoned run w)
    · rcases hrun : Workshop.runStep attendant run s w with ⟨run', _ | _ | f, v⟩ <;>
        rw [hrun] at hstep
      · exact hstep
      · exact (ih run' v).of_later hstep.later
      · dsimp only
        split
        · exact .told (hstep.later.trans (habandoned run' v))
        · exact .told (hstep.later.trans ⟨Nat.le_refl _, rfl⟩)

/-- A playbook that is run is dropped only when the time is up of a call in whose course it is
run. -/
theorem executePlaybook (name : String) (input : Bindings) (w : Workshop) :
    InTime w (executePlaybook attendant name input w) := by
  unfold Workshop.executePlaybook
  split
  · exact .told (.refl w)
  · split
    · exact .told (.refl w)
    · next playbook _ =>
      have hbegun : Later w (w.beginRun playbook input).2 := ⟨Nat.le_refl _, rfl⟩
      have hran := (h.runSteps (w.beginRun playbook input).1 playbook.steps
        (w.beginRun playbook input).2).of_later hbegun
      exact hran.map (RunRecord.outcome _)

/-! ### Commands -/

theorem answer (c : Command) (w : Workshop) : InTime w (answer attendant c w) := by
  have hdropped {α : Type} (told : α → Answer) {r : Option (Except Failure α) × Workshop}
      (hr : InTime w r) : InTime w (orDropped told r) := by
    rcases r with ⟨_ | _ | _, v⟩
    · exact .dropped hr.later (hr.expired rfl)
    · exact .told hr.later
    · exact .told hr.later
  cases c with
  | executeStep step method inputs => exact hdropped _ (h.executeStep step method inputs w)
  | executePlaybook name input => exact hdropped _ (h.executePlaybook name input w)
  | callWorker label step method inputs =>
    have hcalled := h.callDirectly label step method inputs w
    rcases hcall : Workshop.callDirectly attendant label step method inputs w with
      ⟨_ | _ | ⟨name, response⟩, v⟩ <;> rw [hcall] at hcalled <;>
      simp only [Workshop.answer, hcall]
    · exact .dropped hcalled.later (hcalled.expired rfl)
    · exact .told hcalled.later
    · exact .told hcalled.later
  | seat strategy worker label => exact .told ⟨Nat.le_refl _, rfl⟩
  -- the other commands are answered at once
  | _ =>
    refine ⟨(answer_sameCrew attendant _ w rfl (by simp)).later, fun hnone => ?_⟩
    exact absurd hnone (Option.isSome_iff_ne_none.1 (isSome_answer attendant rfl))

theorem reply (c : Command) (w : Workshop) : InTime w (reply attendant c w) := by
  obtain ⟨⟨hclock, hdeadline⟩, hexpired⟩ := h.answer c { w with interludes := [] }
  refine ⟨⟨hclock, hdeadline⟩, fun hnone => ?_⟩
  exact hexpired (Option.map_eq_none_iff.1 hnone)

end Punctual

theorem punctual_replies {one : Command → Workshop → Option Reply × Workshop}
    (hone : ∀ c v, InTime v (one c v)) : Punctual (replies one) := by
  intro commands v
  induction commands generalizing v with
  | nil => exact .told (.refl v)
  | cons c rest ih =>
    have hfirst := hone c v
    rcases hc : one c v with ⟨_ | r, v'⟩ <;> rw [hc] at hfirst <;> simp only [replies, hc]
    · exact .dropped hfirst.later (hfirst.expired rfl)
    · exact ((ih v').of_later hfirst.later).map (r :: ·)

/-- Whatever is asked in the course of a session, at whatever depth, is dropped in time only. -/
theorem punctual_perform (levels : ℕ) : Punctual (replies (perform levels)) := by
  induction levels with
  | zero =>
    have hnobody : Punctual fun _ w => (some [], w) := fun _ v => .told (.refl v)
    exact punctual_replies hnobody.reply
  | succ levels ih => exact punctual_replies ih.reply

theorem length_of_replies {one : Command → Workshop → Option Reply × Workshop}
    {commands : List Command} {rs : List Reply} (h : (replies one commands w).1 = some rs) :
    rs.length = commands.length := by
  induction commands generalizing w rs with
  | nil =>
    obtain rfl : [] = rs := Option.some.inj h
    rfl
  | cons c rest ih =>
    rcases hc : one c w with ⟨_ | r, v⟩ <;> simp only [replies, hc] at h
    · cases h
    · obtain ⟨rs', hrs', rfl⟩ := Option.map_eq_some_iff.1 h
      simp [ih hrs']

/-- In a workshop where no time is limited, every command of a session gets its reply. -/
theorem length_session (h : w.deadline = none) (commands : List Command) :
    (w.session commands).length = commands.length := by
  obtain ⟨rs, hreplies⟩ := Option.isSome_iff_exists.1
    ((punctual_perform (Command.allInterludes commands) commands w).isSome h)
  rw [session, hreplies]
  exact length_of_replies hreplies

end Foreman.Workshop
