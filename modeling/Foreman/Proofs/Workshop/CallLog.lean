import Foreman.Proofs.Engine.Agreement
import Foreman.Proofs.Executor.Post
import Foreman.Proofs.Workshop.Observation
import Foreman.Session
/-!
# Calls of executors in a session

What happens at the executors in the course of a session is written down beside it: who is taken on,
which calls begin and how they end, in the order in which all this happens, down to the calls that
come about because executors ask for things. An executor asks for things before its call begins in
this sense, so that a call that comes about in this way is over before the call in whose course it
was asked for begins; and a call that is dropped while its executor still asks for things never
begins.

## Main definitions

* `Foreman.CallLog`: what happened at the executors, by place.
* `Foreman.Workshop.callLog`: what happens while an executor is handed a request.
* `Foreman.Workshop.answerLog`, `Foreman.Workshop.performLog`, `Foreman.Workshop.repliesLog`: what
  happens in the course of a command, and of several commands.
* `Foreman.Workshop.Becomes`: all executors have become what a log says.

## Main results

* `Foreman.Engine.run_logged`: writing a log changes nothing for the engine.
* `Foreman.Workshop.replies_becomes`: executors become what the log of a session says.
-/

namespace Foreman

/-! ### Crews with a log -/

/-- A crew beside which something is written down for every attempt. -/
def Crew.logged {σ : Type u} {ε : Type v} {α : Type w} (crew : Crew σ ε)
    (log : ε → Request → σ → List α) : Crew (σ × List α) ε where
  seated x := crew.seated x.1
  attempt who r x := ((crew.attempt who r x.1).1, (crew.attempt who r x.1).2, x.2 ++ log who r x.1)
  note n x := (crew.note n x.1, x.2)
  clock x := crew.clock x.1

namespace Engine

variable {σ : Type u} {ε : Type v} {α : Type w}

/-- A crew beside which something is written down agrees with the crew itself. -/
theorem agrees_logged (crew : Crew σ ε) (log : ε → Request → σ → List α) (r : Request) :
    Crew.Agrees (crew.logged log) crew (fun x w => x.1 = w) r where
  seated h _ := h ▸ rfl
  clock h := h ▸ rfl
  on _ :=
    { attempt := fun h => h ▸ rfl
      after := fun h => h ▸ rfl
      note := fun h _ => h ▸ rfl
      clock := fun h => h ▸ rfl }

/-- Writing something down changes nothing for the engine. -/
theorem run_logged (crew : Crew σ ε) (log : ε → Request → σ → List α) (policy : Policy)
    (step method : String) (inputs : Bindings) (w : σ) (past : List α) :
    (run (crew.logged log) policy step method inputs (w, past)).2.1 =
      (run crew policy step method inputs w).2 :=
  ((agrees_logged crew log _).run rfl).2

end Engine

/-- What happened at the executors, by place, in the order in which it happened. -/
abbrev CallLog := List (Nat × Moment)

/-- What happened at one place. -/
def CallLog.momentsAt (log : CallLog) (place : Nat) : List Moment :=
  (log.filter (·.1 = place)).map (·.2)

namespace CallLog

theorem momentsAt_nil (place : Nat) : momentsAt [] place = [] := rfl

theorem momentsAt_cons (other : Nat) (m : Moment) (log : CallLog) (place : Nat) :
    momentsAt ((other, m) :: log) place =
      if other = place then m :: log.momentsAt place else log.momentsAt place := by
  by_cases hplace : other = place <;> simp [momentsAt, hplace]

theorem momentsAt_append (log more : CallLog) (place : Nat) :
    momentsAt (log ++ more) place = log.momentsAt place ++ more.momentsAt place := by
  simp [momentsAt]

end CallLog

/-- An executor once it has counted one more call, with what it does from then on. -/
def Worker.after (u : Worker) (r : Request) (work : Work) : Worker :=
  { u with calls := u.calls + 1, received := u.received ++ [r.inputs], work }

namespace Workshop

open Relation

/-- What happens at executors while somebody carries out their commands. -/
abbrev Attended := List Command → Workshop → CallLog

/-- The calls that the executor at a place has counted. -/
def callsAt (w : Workshop) (place : Nat) : Nat :=
  ((w.workers[place]?).map Worker.calls).getD 0

/-- The calls of the executor at a place whose inputs it has kept. -/
def receivedAt (w : Workshop) (place : Nat) : Nat :=
  ((w.workers[place]?).map fun v => v.received.length).getD 0

/-- The executor at a place, between its calls. -/
def postAt (w : Workshop) (place : Nat) : Option Post :=
  (w.workers[place]?).map fun v => ⟨v.work, v.received, []⟩

/-- A workshop in which there is only so much time from now on. -/
def within (limit : Option Nat) (w : Workshop) : Workshop :=
  { w with deadline := w.deadline.merge min (limit.map (w.clock + ·)) }

section Logs

variable (attendant : Attendant) (attended : Attended)

/-- What happens while an executor asks for things before a call. -/
def beginLog (place : Nat) (worker : Worker) (w : Workshop) : CallLog :=
  match worker.interludes[worker.begun]? with
  | none => []
  | some commands =>
    attended commands { w.modifyWorker place fun v => { v with begun := v.begun + 1 } with
      depth := w.depth + 1 }

/-- What happens while the executor at a place is handed a request. -/
def callLog (limit : Option Nat) (place : Nat) (r : Request) (w : Workshop) : CallLog :=
  match w.workers[place]? with
  | none => []
  | some worker =>
    beginLog attended place worker (w.within limit) ++
      match beginCall attendant place worker (w.within limit) with
      | (false, _) => []
      | (true, w') =>
        [(place, .begun r),
          (place, .ending (w'.receivedAt place) (callWorker attendant limit place r w).1)]

/-- The workshop as the surroundings of the engine, with a log of what happens at the executors. -/
def loggedCrew : Crew (Shift × CallLog) Nat :=
  (crew attendant).logged fun place r s =>
    callLog attendant attended (some r.timeout) place r s.shop

/-- What happens while a step is got done. -/
def executeLog (step method : String) (inputs : Bindings) (w : Workshop) : CallLog :=
  (Engine.run (loggedCrew attendant attended) w.policy step method inputs ({ shop := w }, [])).2.2

/-- What happens while the executor of a label is handed a request directly. -/
def callDirectlyLog (label step method : String) (inputs : Bindings) (w : Workshop) : CallLog :=
  match w.labels.get? label with
  | none => []
  | some place => callLog attendant attended none place ⟨step, method, inputs, directTimeout⟩ w

/-- What happens in the course of a step of a run. -/
def runStepLog (run : RunRecord) (s : Step) (w : Workshop) : CallLog :=
  let (id, run, w) := beginStep run s w
  match w.allocate id s.requirements with
  | (.error _, _) => []
  | (.ok given, w) =>
    let inputs := run.inputsFor s
    executeLog attendant attended s.name s.method inputs (w.publish (run.supply given inputs))

/-- What happens in the course of the steps of a run that are left. -/
def runStepsLog (run : RunRecord) : List Step → Workshop → CallLog
  | [], _ => []
  | s :: rest, w =>
    if w.ledger.closed then []
    else
      runStepLog attendant attended run s w ++
        match runStep attendant run s w with
        | (run, some none, w) => runStepsLog run rest w
        | (_, none, _) | (_, some (some _), _) => []

/-- What happens while a playbook is run. -/
def executePlaybookLog (name : String) (input : Bindings) (w : Workshop) : CallLog :=
  if w.ledger.closed then []
  else
    match w.library.load name with
    | .error _ => []
    | .ok playbook =>
      let (run, w) := w.beginRun playbook input
      runStepsLog attendant attended run playbook.steps w

/-- What happens in the course of a command. -/
def answerLog (c : Command) (w : Workshop) : CallLog :=
  match c with
  | .seat _ worker _ => [(w.workers.length, .takenOn worker.work)]
  | .executeStep step method inputs => executeLog attendant attended step method inputs w
  | .callWorker label step method inputs =>
    callDirectlyLog attendant attended label step method inputs w
  | .executePlaybook name input => executePlaybookLog attendant attended name input w
  | _ => []

/-- What happens in the course of a command that may get a reply. -/
def replyLog (c : Command) (w : Workshop) : CallLog :=
  answerLog attendant attended c { w with interludes := [] }

end Logs

/-- What happens in the course of commands that are carried out one after another. -/
def repliesLog (one : Command → Workshop → Option Reply × Workshop)
    (log : Command → Workshop → CallLog) : List Command → Workshop → CallLog
  | [], _ => []
  | c :: rest, w =>
    log c w ++
      match one c w with
      | (some _, w) => repliesLog one log rest w
      | (none, _) => []

/-- What happens in the course of a command, where executors may ask for things at so many levels
below it. -/
def performLog : Nat → Command → Workshop → CallLog
  | 0 => replyLog (fun _ w => (some [], w)) fun _ _ => []
  | levels + 1 =>
    replyLog (replies (perform levels)) (repliesLog (perform levels) (performLog levels))

/-! ### What the log says -/

/-- All executors have become what the log says, and each has counted as many calls as it has kept
inputs of. -/
structure Becomes (w : Workshop) (log : CallLog) (w' : Workshop) : Prop where
  /-- What the log says happened. -/
  history : ∀ place, Post.History (w.postAt place) (log.momentsAt place) (w'.postAt place)
  /-- As many calls are counted as inputs are kept. -/
  balance : ∀ place,
    w'.callsAt place + w.receivedAt place = w.callsAt place + w'.receivedAt place

variable {w w' w'' : Workshop} {log more : CallLog}

theorem Becomes.trans (h : Becomes w log w') (h' : Becomes w' more w'') :
    Becomes w (log ++ more) w'' where
  history place := by
    rw [CallLog.momentsAt_append]
    exact (h.history place).append (h'.history place)
  balance place := by
    have hfirst := h.balance place
    have hnext := h'.balance place
    omega

/-- Where the executors stay as they are, nothing happens at them. -/
theorem becomes_of_workers (h : w'.workers = w.workers) : Becomes w [] w' where
  history place := by
    have hpost : w'.postAt place = w.postAt place := by simp only [postAt, h]
    rw [hpost]
    exact .done _
  balance place := by simp only [callsAt, receivedAt, h]

/-- What happened between workshops with the same executors. -/
theorem Becomes.of_workers {v v' : Workshop} (h : Becomes v log v')
    (hbefore : v.workers = w.workers) (hafter : w'.workers = v'.workers) : Becomes w log w' := by
  have hall := ((becomes_of_workers hbefore).trans h).trans (becomes_of_workers hafter)
  rwa [List.nil_append, List.append_nil] at hall

/-! ### Calls -/

theorem getElem?_modifyWorker (place other : Nat) (f : Worker → Worker) (w : Workshop) :
    (w.modifyWorker place f).workers[other]? =
      if place = other then (w.workers[other]?).map f else w.workers[other]? := by
  rw [modifyWorker, List.getElem?_modify]
  split <;> simp

/-- What is changed about an executor that is there, and about nobody else. -/
theorem getElem?_modifyWorker_of_there {place : Nat} {u : Worker} (f : Worker → Worker)
    (hthere : w.workers[place]? = some u) (other : Nat) :
    (w.modifyWorker place f).workers[other]? =
      if place = other then some (f u) else w.workers[other]? := by
  rw [getElem?_modifyWorker]
  split
  · next hplace => rw [← hplace, hthere, Option.map_some]
  · rfl

/-- A call that does not get past what its executor asks for changes no executor any more. -/
theorem callWorker_workers_of_stuck {attendant : Attendant} {other : Nat} {worker : Worker}
    {limit : Option Nat} (r : Request) (hworker : w.workers[other]? = some worker)
    (hbegin : beginCall attendant other worker (w.within limit) = (false, w')) :
    (callWorker attendant limit other r w).2.workers = w'.workers := by
  have hlabour : labour attendant other worker r (w.within limit) = (false, w'.expire) := by
    simp only [labour, hbegin]
  rw [callWorker_of_labour hworker hlabour, if_neg Bool.false_ne_true]
  split <;> rfl

/-- What a call does to the executors once it has begun: it is counted and its inputs are kept, and
if it is answered the executor goes on with what it does from then on. -/
theorem callWorker_workers {attendant : Attendant} {other : Nat} {worker u : Worker}
    {limit : Option Nat} (r : Request) (hworker : w.workers[other]? = some worker)
    (hbegin : beginCall attendant other worker (w.within limit) = (true, w'))
    (hthere : w'.workers[other]? = some u) :
    ∃ work, (∀ q, (callWorker attendant limit other r w).2.workers[q]? =
        if other = q then some (u.after r work) else w'.workers[q]?) ∧
      (((callWorker attendant limit other r w).1 = none ∨
          (callWorker attendant limit other r w).1 = some .overran) ∧ work = u.work ∨
        (callWorker attendant limit other r w).1 = some (.answered (u.work.respond r).1) ∧
          work = (u.work.respond r).2) := by
  have hreceived (q : Nat) : (w'.receive other r.inputs).workers[q]? =
      if other = q then some (u.after r u.work) else w'.workers[q]? :=
    getElem?_modifyWorker_of_there _ hthere q
  rcases hlabour : labour attendant other worker r (w.within limit) with ⟨answers, v⟩
  have hworkers : v.workers = (w'.receive other r.inputs).workers := by
    have hv : v.workers = (labour attendant other worker r (w.within limit)).2.workers := by
      rw [hlabour]
    rw [hv]
    simp only [labour, hbegin]
    split <;> rfl
  rw [callWorker_of_labour hworker hlabour]
  by_cases hanswers : answers = true
  · have hu : ({ v with deadline := w.deadline } : Workshop).workers[other]? =
        some (u.after r u.work) := by
      change v.workers[other]? = _
      rw [hworkers, hreceived, if_pos rfl]
    rw [if_pos hanswers]
    refine ⟨(u.work.respond r).2, fun q => ?_, .inr ⟨?_, rfl⟩⟩
    · simp only [respond, hu]
      rw [getElem?_modifyWorker_of_there _ hu]
      split
      · rfl
      · next hq =>
        change v.workers[q]? = _
        rw [hworkers, hreceived, if_neg hq]
    · simp only [respond, hu]
      rfl
  · rw [if_neg hanswers]
    refine ⟨u.work, fun q => ?_, .inl ⟨?_, rfl⟩⟩
    · split <;> exact (congrArg (·[q]?) hworkers).trans (hreceived q)
    · split
      · exact .inr rfl
      · exact .inl rfl

/-- Where a call was counted at one place and has come to its end, that is what happened there, and
nothing happened elsewhere. -/
theorem history_of_ended {other : Nat} {u : Worker} {r : Request} {a : Option Attempt} {work : Work}
    (hthere : w.workers[other]? = some u)
    (hworkers : ∀ q, w'.workers[q]? =
      if other = q then some (u.after r work) else w.workers[q]?)
    (hended : (a = none ∨ a = some .overran) ∧ work = u.work ∨
      a = some (.answered (u.work.respond r).1) ∧ work = (u.work.respond r).2) (place : Nat) :
    Post.History (w.postAt place)
      (CallLog.momentsAt [(other, .begun r), (other, .ending u.received.length a)] place)
      (w'.postAt place) := by
  simp only [CallLog.momentsAt_cons, CallLog.momentsAt_nil, postAt, hworkers]
  by_cases hplace : other = place
  · subst hplace
    rw [if_pos rfl, if_pos rfl, if_pos rfl, hthere]
    refine .step (.begun _ r) ?_
    rcases hended with ⟨rfl | rfl, rfl⟩ | ⟨rfl, rfl⟩
    · exact (@Post.Happens.cancelled _ [] [] _ r rfl).history
    · exact (@Post.Happens.cancelled _ [] [] _ r rfl).history
    · exact (@Post.Happens.answered _ [] [] _ r rfl).history
  · rw [if_neg hplace, if_neg hplace, if_neg hplace]
    exact .done _

/-- Where a call was counted at one place, its inputs were kept there. -/
theorem balance_of_ended {other : Nat} {u : Worker} {r : Request} {work : Work}
    (hthere : w.workers[other]? = some u)
    (hworkers : ∀ q, w'.workers[q]? =
      if other = q then some (u.after r work) else w.workers[q]?) (place : Nat) :
    w'.callsAt place + w.receivedAt place = w.callsAt place + w'.receivedAt place := by
  simp only [callsAt, receivedAt, hworkers]
  by_cases hplace : other = place
  · subst hplace
    simp only [if_pos, hthere, Option.map_some, Option.getD_some, Worker.after, List.length_append,
      List.length_singleton]
    omega
  · simp only [if_neg hplace]

/-- An executor that is taken on follows all the others, and nothing happens at these. -/
theorem seat_becomes (strategy : Strategy) (spec : WorkerSpec Command) (label : String)
    (w : Workshop) :
    Becomes w [(w.workers.length, .takenOn spec.work)] (w.seat strategy spec label) := by
  have hworkers : (w.seat strategy spec label).workers =
      w.workers ++ [⟨label, spec.work, spec.interludes, 0, 0, []⟩] := rfl
  have hothers (place : Nat) (hplace : w.workers.length ≠ place) :
      (w.workers ++ [⟨label, spec.work, spec.interludes, 0, 0, []⟩])[place]? =
        w.workers[place]? := by
    rw [List.getElem?_append]
    split
    · rfl
    · rw [List.getElem?_eq_none (by simp; omega), List.getElem?_eq_none (by omega)]
  refine ⟨fun place => ?_, fun place => ?_⟩
  · rw [CallLog.momentsAt_cons, CallLog.momentsAt_nil, postAt, postAt, hworkers]
    by_cases hplace : w.workers.length = place
    · subst hplace
      rw [if_pos rfl, List.getElem?_concat_length, List.getElem?_eq_none (Nat.le_refl _)]
      exact (Post.Happens.takenOn spec.work).history
    · rw [if_neg hplace, hothers place hplace]
      exact .done _
  · simp only [callsAt, receivedAt, hworkers]
    by_cases hplace : w.workers.length = place
    · subst hplace
      simp
    · rw [hothers place hplace]

/-- A workshop changes, and the log beside it grows by what happens at the executors. -/
def Grows (x y : Shift × CallLog) : Prop :=
  ∃ more, y.2 = x.2 ++ more ∧ Becomes x.1.shop more y.1.shop

theorem grows_of_reflTransGen {x y : Shift × CallLog} (h : ReflTransGen Grows x y) :
    Grows x y := by
  induction h with
  | refl => exact ⟨[], (List.append_nil _).symm, becomes_of_workers rfl⟩
  | tail _ hlast ih =>
    obtain ⟨more, hmore, hbecomes⟩ := ih
    obtain ⟨last, hlast, hbecomes'⟩ := hlast
    exact ⟨more ++ last, by rw [hlast, hmore, List.append_assoc], hbecomes.trans hbecomes'⟩

section Call

variable {attendant : Attendant} {attended : Attended}
  (hattended : ∀ commands v, Becomes v (attended commands v) (attendant commands v).2)

include hattended

/-- While an executor asks for things, executors become what the log says. -/
theorem beginCall_becomes (other : Nat) (worker : Worker) (w : Workshop) :
    Becomes w (beginLog attended other worker w) (beginCall attendant other worker w).2 := by
  have hcounted (place : Nat) :
      (w.modifyWorker other fun v => { v with begun := v.begun + 1 }).workers[place]? =
      if other = place then (w.workers[place]?).map fun v => { v with begun := v.begun + 1 }
      else w.workers[place]? := getElem?_modifyWorker other place _ w
  have hdepth : (w.modifyWorker other fun v => { v with begun := v.begun + 1 }).depth = w.depth :=
    rfl
  unfold beginCall beginLog
  generalize w.modifyWorker other (fun v => { v with begun := v.begun + 1 }) = w₁
    at hcounted hdepth ⊢
  have hbegun : Becomes w [] w₁ := by
    refine ⟨fun place => ?_, fun place => ?_⟩
    · have hpost : w₁.postAt place = w.postAt place := by
        rw [postAt, postAt, hcounted]
        split <;> cases w.workers[place]? <;> rfl
      rw [hpost]
      exact .done _
    · simp only [callsAt, receivedAt, hcounted]
      split <;> cases w.workers[place]? <;> rfl
  cases worker.interludes[worker.begun]? with
  | none => exact hbegun
  | some commands =>
    have hasked := hbegun.trans ((hattended commands { w₁ with depth := w₁.depth + 1 }).of_workers
      rfl (attend_workers attendant worker.label (worker.begun + 1) commands w₁))
    rw [List.nil_append, hdepth] at hasked
    exact hasked

/-- An executor that is handed a request becomes what the log of the call says. -/
theorem callWorker_becomes (limit : Option Nat) (other : Nat) (r : Request) (w : Workshop) :
    Becomes w (callLog attendant attended limit other r w)
      (callWorker attendant limit other r w).2 := by
  cases hworker : w.workers[other]? with
  | none =>
    simp only [callWorker, callLog, hworker]
    exact becomes_of_workers rfl
  | some worker =>
    have hbegins := (beginCall_becomes hattended other worker (w.within limit)).of_workers
      (w := w) rfl rfl
    rcases hbegin : beginCall attendant other worker (w.within limit) with ⟨_ | _, w₁⟩ <;>
      rw [hbegin] at hbegins <;> simp only [callLog, hworker, hbegin]
    · rw [List.append_nil]
      exact hbegins.of_workers rfl (callWorker_workers_of_stuck r hworker hbegin)
    · obtain ⟨u, hthere⟩ : ∃ u, w₁.workers[other]? = some u := by
        have hhistory := hbegins.history other
        rw [postAt, hworker] at hhistory
        obtain ⟨d, hd⟩ := hhistory.exists_of_some
        obtain ⟨u, hu, -⟩ := Option.map_eq_some_iff.1 hd
        exact ⟨u, hu⟩
      obtain ⟨work, hworkers, hended⟩ := callWorker_workers r hworker hbegin hthere
      have hcall : w₁.receivedAt other = u.received.length := by
        rw [receivedAt, hthere, Option.map_some, Option.getD_some]
      rw [hcall]
      exact hbegins.trans
        ⟨history_of_ended hthere hworkers hended, balance_of_ended hthere hworkers⟩

/-- Executors become what the log of a step says. -/
theorem executeStep_becomes (step method : String) (inputs : Bindings) (w : Workshop) :
    Becomes w (executeLog attendant attended step method inputs w)
      (executeStep attendant step method inputs w).2 := by
  have hattempt (place : Nat) (r : Request) (x : Shift × CallLog) :
      Grows x ((loggedCrew attendant attended).attempt place r x).2 := by
    refine ⟨_, rfl, ?_⟩
    change Becomes x.1.shop _ ((crew attendant).attempt place r x.1).2.shop
    rw [shop_attempt]
    exact callWorker_becomes hattended (some r.timeout) place r x.1.shop
  have hnote (n : Notice) (x : Shift × CallLog) :
      Grows x ((loggedCrew attendant attended).note n x) :=
    ⟨[], (List.append_nil _).symm, becomes_of_workers rfl⟩
  have hreach := Engine.run_reaches (fun place r x => .single (hattempt place r x))
    (fun n x => .single (hnote n x)) w.policy step method inputs ({ shop := w }, [])
  obtain ⟨more, hmore, hbecomes⟩ := grows_of_reflTransGen hreach
  have hlog : executeLog attendant attended step method inputs w = more := hmore
  rw [loggedCrew, Engine.run_logged] at hbecomes
  rw [hlog]
  exact hbecomes

theorem callDirectly_becomes (label step method : String) (inputs : Bindings) (w : Workshop) :
    Becomes w (callDirectlyLog attendant attended label step method inputs w)
      (callDirectly attendant label step method inputs w).2 := by
  unfold callDirectlyLog callDirectly
  cases w.labels.get? label with
  | none => exact becomes_of_workers rfl
  | some place =>
    have hcalled := callWorker_becomes hattended none place ⟨step, method, inputs, directTimeout⟩ w
    dsimp only
    split <;> (next h => rw [h] at hcalled; exact hcalled)

theorem runStep_becomes (run : RunRecord) (s : Step) (w : Workshop) :
    Becomes w (runStepLog attendant attended run s w) (runStep attendant run s w).2.2 := by
  rcases hbegun : beginStep run s w with ⟨id, run', v⟩
  have hv : v.workers = w.workers := (congrArg (·.2.2.workers) hbegun).symm
  rcases hgiven : v.allocate id s.requirements with ⟨f | given, v'⟩
  · have hv' : v'.workers = v.workers := (congrArg (·.2.workers) hgiven).symm
    simp only [runStepLog, runStep, allocateAndExecute, hbegun, hgiven]
    exact becomes_of_workers (hv'.trans hv)
  · have hv' : v'.workers = v.workers := (congrArg (·.2.workers) hgiven).symm
    have hexecuted := executeStep_becomes hattended s.name s.method (run'.inputsFor s)
      (v'.publish (run'.supply given (run'.inputsFor s)))
    have hall := hexecuted.of_workers (w := w) (hv'.trans hv) rfl
    rcases hresult : executeStep attendant s.name s.method (run'.inputsFor s)
      (v'.publish (run'.supply given (run'.inputsFor s))) with ⟨_ | f | result, v''⟩ <;>
      rw [hresult] at hall <;>
      simp only [runStepLog, runStep, allocateAndExecute, hbegun, hgiven, hresult]
    · exact hall
    · exact hall.of_workers rfl rfl
    · exact hall.of_workers rfl rfl

theorem runSteps_becomes (run : RunRecord) (left : List Step) (w : Workshop) :
    Becomes w (runStepsLog attendant attended run left w)
      (runSteps attendant run left w).2.2 := by
  have habandon (run : RunRecord) (w : Workshop) : (w.abandon run).workers = w.workers :=
    (sameCrew_releaseAll StepRecord.id run.steps
      (w.note (.runAbandoned run.id run.steps.length))).workers
  induction left generalizing run w with
  | nil =>
    unfold runStepsLog runSteps
    split
    · exact becomes_of_workers (habandon run w)
    · exact becomes_of_workers rfl
  | cons s rest ih =>
    have hfirst := runStep_becomes hattended run s w
    unfold runStepsLog runSteps
    by_cases hclosed : w.ledger.closed
    · simp only [hclosed, if_true]
      exact becomes_of_workers (habandon run w)
    · simp only [hclosed, Bool.false_eq_true, if_false]
      rcases hstep : runStep attendant run s w with ⟨run', _ | _ | failure, v⟩ <;>
        rw [hstep] at hfirst <;> dsimp only
      · rw [List.append_nil]
        exact hfirst
      · exact hfirst.trans (ih run' v)
      · rw [List.append_nil]
        by_cases hshut : v.ledger.closed
        · simp only [hshut, if_true]
          exact hfirst.of_workers rfl (habandon run' v)
        · simp only [hshut, Bool.false_eq_true, if_false]
          exact hfirst.of_workers rfl rfl

theorem executePlaybook_becomes (name : String) (input : Bindings) (w : Workshop) :
    Becomes w (executePlaybookLog attendant attended name input w)
      (executePlaybook attendant name input w).2 := by
  unfold executePlaybookLog executePlaybook
  by_cases hclosed : w.ledger.closed
  · simp only [hclosed, if_true]
    exact becomes_of_workers rfl
  · simp only [hclosed, Bool.false_eq_true, if_false]
    cases w.library.load name with
    | error f => exact becomes_of_workers rfl
    | ok playbook =>
      have hsteps := runSteps_becomes hattended (w.beginRun playbook input).1 playbook.steps
        (w.beginRun playbook input).2
      exact hsteps.of_workers rfl rfl

/-- Executors become what the log of a command says. -/
theorem answer_becomes (c : Command) (w : Workshop) :
    Becomes w (answerLog attendant attended c w) (answer attendant c w).2 := by
  cases c with
  | executeStep step method inputs =>
    rw [answer, orDropped_snd]
    exact executeStep_becomes hattended step method inputs w
  | callWorker label step method inputs =>
    have hcalled := callDirectly_becomes hattended label step method inputs w
    unfold answer
    dsimp only
    split <;> (next heq => rw [heq] at hcalled; exact hcalled)
  | executePlaybook name input =>
    rw [answer, orDropped_snd]
    exact executePlaybook_becomes hattended name input w
  | seat strategy worker label => exact seat_becomes strategy worker label w
  -- no executor is at work or taken on in the course of the other commands
  | _ => exact becomes_of_workers (answer_sameCrew attendant _ w rfl (by simp)).workers

theorem reply_becomes (c : Command) (w : Workshop) :
    Becomes w (replyLog attendant attended c w) (reply attendant c w).2 :=
  (answer_becomes hattended c { w with interludes := [] }).of_workers rfl rfl

end Call

theorem replies_becomes_of_one {one : Command → Workshop → Option Reply × Workshop}
    {log : Command → Workshop → CallLog} (h : ∀ c v, Becomes v (log c v) (one c v).2)
    (commands : List Command) (w : Workshop) :
    Becomes w (repliesLog one log commands w) (replies one commands w).2 := by
  induction commands generalizing w with
  | nil => exact becomes_of_workers rfl
  | cons c rest ih =>
    have hfirst := h c w
    unfold repliesLog replies
    rcases hc : one c w with ⟨_ | r, v⟩ <;> rw [hc] at hfirst <;> dsimp only
    · rw [List.append_nil]
      exact hfirst
    · exact hfirst.trans (ih v)

/-- At every level, executors become what the log of a command says. -/
theorem perform_becomes (levels : Nat) (c : Command) (w : Workshop) :
    Becomes w (performLog levels c w) (perform levels c w).2 := by
  induction levels generalizing c w with
  | zero => exact reply_becomes (fun _ _ => becomes_of_workers rfl) c w
  | succ levels ih => exact reply_becomes (replies_becomes_of_one ih) c w

/-- Executors become what the log of a session says. -/
theorem replies_becomes (levels : Nat) (commands : List Command) (w : Workshop) :
    Becomes w (repliesLog (perform levels) (performLog levels) commands w)
      (replies (perform levels) commands w).2 :=
  replies_becomes_of_one (perform_becomes levels) commands w

end Workshop

end Foreman
