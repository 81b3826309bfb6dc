import Foreman.Engine
import Foreman.Workshop
/-!
# Labour

The executors of a workshop at work. A call of an executor begins with whatever the executor asks
for itself; its commands are carried out by somebody else, who is given here as a function. Then the
executor waits, if it follows a script that says so, and answers. An attempt that takes longer than
it was given ends when its time is up, and uses up nothing of a script. Whatever is under way in its
course is dropped then: it goes no further, and nobody is told what became of it.

## Main definitions

* `Foreman.Workshop.seat`: an executor is taken on.
* `Foreman.Workshop.callWorker`: an executor is handed a request.
* `Foreman.Workshop.crew`: the workshop as the surroundings of the engine.
* `Foreman.Workshop.executeStep`: a step is got done.
-/

namespace Foreman.Workshop

/-- Somebody who carries out the commands of executors. There are no replies if the call in whose
course the commands were given is dropped. -/
abbrev Attendant := List Command → Workshop → Option (List Reply) × Workshop

/-- An executor is taken on for a strategy, in place of whoever followed it. -/
def seat (w : Workshop) (strategy : Strategy) (spec : WorkerSpec Command) (label : String) :
    Workshop :=
  let place := w.workers.length
  { w with
    workers := w.workers ++ [⟨label, spec.work, spec.interludes, 0, 0, []⟩]
    seats := w.seats.filter (·.1 ≠ strategy) ++ [(strategy, place)]
    labels := w.labels.insert label place }

/-- Who follows a strategy, by place. -/
def seated (w : Workshop) (s : Strategy) : Option Nat :=
  w.seats.lookup s

/-- A change of the executor at a place. -/
def modifyWorker (w : Workshop) (place : Nat) (f : Worker → Worker) : Workshop :=
  { w with workers := w.workers.modify place f }

/-- The commands of an executor are carried out in the course of one of its calls. Whether they all
were. -/
def attend (attendant : Attendant) (label : String) (call : Nat) (commands : List Command)
    (w : Workshop) : Bool × Workshop :=
  let (replies?, w') := attendant commands { w with depth := w.depth + 1 }
  let w' := { w' with depth := w.depth, deadline := w.deadline }
  match replies? with
  | some replies => (true, { w' with interludes := w'.interludes ++ [⟨label, call, replies⟩] })
  | none => (false, w')

/-- A call of the executor at a place begins: the executor asks for things. Whether it got them. -/
def beginCall (attendant : Attendant) (place : Nat) (worker : Worker) (w : Workshop) :
    Bool × Workshop :=
  let w := w.modifyWorker place fun v => { v with begun := v.begun + 1 }
  match worker.interludes[worker.begun]? with
  | none => (true, w)
  | some commands => attend attendant worker.label (worker.begun + 1) commands w

/-- The executor at a place counts a call, and keeps what went into it. -/
def receive (place : Nat) (inputs : Bindings) (w : Workshop) : Workshop :=
  w.modifyWorker place fun v => { v with calls := v.calls + 1, received := v.received ++ [inputs] }

/-- The deadline comes. -/
def expire (w : Workshop) : Workshop :=
  { w with clock := max w.clock (w.deadline.getD 0) }

/-- A call of the executor at a place goes on up to its answer, or to the deadline. Whether it is to
be answered. -/
def labour (attendant : Attendant) (place : Nat) (worker : Worker) (r : Request) (w : Workshop) :
    Bool × Workshop :=
  match beginCall attendant place worker w with
  | (false, w) => (false, w.expire)
  | (true, w) =>
    let w := w.receive place r.inputs
    let finish := w.clock + worker.work.delay
    if w.deadline.any (· < finish) then (false, w.expire) else (true, { w with clock := finish })

/-- The executor at a place answers a request. -/
def respond (place : Nat) (r : Request) (w : Workshop) : Response × Workshop :=
  match w.workers[place]? with
  | none => (.error (.other ""), w)
  | some worker =>
    let (response, work) := worker.work.respond r
    (response, w.modifyWorker place fun v => { v with work })

/-- The executor at a place is handed a request, with a limit on the time it may take. The call is
dropped if the time of a call in whose course it is made is up before that. -/
def callWorker (attendant : Attendant) (limit : Option Nat) (place : Nat) (r : Request)
    (w : Workshop) : Option Attempt × Workshop :=
  match w.workers[place]? with
  | none => (some (.answered (.error (.other ""))), w)
  | some worker =>
    let due := limit.map (w.clock + ·)
    let (answers, w') :=
      labour attendant place worker r { w with deadline := w.deadline.merge min due }
    let w' := { w' with deadline := w.deadline }
    if answers then
      let (response, w') := respond place r w'
      (some (.answered response), w')
    -- of two limits that are up at the same time, the inner one is felt first
    else if due.any fun d => w.deadline.all (d ≤ ·) then (some .overran, w')
    else (none, w')

/-- A workshop while a step is got done in it. -/
structure Shift where
  /-- The workshop. -/
  shop : Workshop
  /-- Whether the call in whose course the step is got done was dropped. -/
  dropped : Bool := false

/-- The workshop as the surroundings of the engine. An engine that is dropped itself, with a call in
whose course it works, is told of a success, so that it does nothing more; nobody hears what it
makes of that. -/
def crew (attendant : Attendant) : Crew Shift Nat where
  seated s := seated s.shop
  attempt place r s :=
    match callWorker attendant (some r.timeout) place r s.shop with
    | (some a, w) => (a, { s with shop := w })
    | (none, w) => (.answered (.ok (.succeeded .empty)), ⟨w, true⟩)
  note n s := { s with shop := s.shop.note n }
  clock s := s.shop.clock

/-- A step is got done under the policy as it stands, unless the call in whose course it is to be
done is dropped. -/
def executeStep (attendant : Attendant) (step method : String) (inputs : Bindings)
    (w : Workshop) : Option (Except Failure StepResult) × Workshop :=
  let (result, s) := Engine.run (crew attendant) w.policy step method inputs { shop := w }
  (if s.dropped then none else some result, s.shop)

/-- The time given where an executor is handed a request directly, in milliseconds. -/
def directTimeout : Nat := 30000

/-- The executor of a label is handed a request directly, for as long as it takes; there may be no
such executor. -/
def callDirectly (attendant : Attendant) (label step method : String) (inputs : Bindings)
    (w : Workshop) : Option (Option (String × Response)) × Workshop :=
  match w.labels.get? label with
  | none => (some none, w)
  | some place =>
    let name := (w.workers[place]?.map fun v => v.work.name).getD ""
    match callWorker attendant none place ⟨step, method, inputs, directTimeout⟩ w with
    | (some (.answered response), w) => (some (some (name, response)), w)
    | (some .overran, w) => (some none, w)
    | (none, w) => (none, w)

/-- What went into the calls of the executor of a label, if it follows a script. -/
def callsOf (w : Workshop) (label : String) : Option (List Bindings) :=
  match (w.labels.get? label).bind fun place => w.workers[place]? with
  | some worker =>
    match worker.work with
    | .script _ _ _ => some worker.received
    | _ => none
  | none => none

end Foreman.Workshop
