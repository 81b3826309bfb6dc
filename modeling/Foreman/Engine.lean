import Foreman.Executor
import Foreman.Notice
/-!
# The engine

The engine gets one step done. It goes through the chain of the policy as it stands when the step
begins. A strategy is passed over if it may not be used, if a person would have to be asked where
that is not wanted, if nobody is there to follow it, or if no attempts are to be made. Otherwise it
is given its attempts, one after another, and the first success ends everything. Every attempt and
every strategy passed over leaves an entry in the trail.

The engine knows its surroundings only through a *crew*: who follows a strategy when its turn comes,
what an attempt brings, what time it is. Whatever else an attempt does to the surroundings stays
between the two.

## Main definitions

* `Foreman.Crew`: the surroundings, as far as the engine knows them.
* `Foreman.Engine.skip?`: why a strategy is passed over, if the policy alone decides it.
* `Foreman.Engine.run`: a step is got done.
-/

namespace Foreman

/-- What an attempt brings. -/
inductive Attempt where
  /-- An answer, in time. -/
  | answered (response : Response)
  /-- No answer in time. -/
  | overran

/-- The surroundings of the engine: states `σ`, and executors `ε` that follow strategies. -/
structure Crew (σ : Type u) (ε : Type v) where
  /-- Who follows a strategy at the moment. -/
  seated : σ → Strategy → Option ε
  /-- An executor is handed a request. -/
  attempt : ε → Request → σ → Attempt × σ
  /-- Something is noted. -/
  note : Notice → σ → σ
  /-- The time, in milliseconds. -/
  clock : σ → Nat

namespace Engine

variable {σ : Type u} {ε : Type v}

/-- Why a strategy is passed over. -/
inductive Skip where
  /-- It may not be used. -/
  | notAvailable
  /-- A person would have to be asked. -/
  | humanNotAllowed
  /-- Nobody is there to follow it. -/
  | nobodySeated
  /-- No attempts are to be made. -/
  | noAttempts
  deriving DecidableEq, Repr

/-- The wording of a reason. -/
def Skip.message : Skip → String
  | notAvailable => "not in available types"
  | humanNotAllowed => "human override not allowed"
  | nobodySeated => "no executor registered"
  | noAttempts => "retry budget is zero"

/-- Whether a policy lets a person be asked: it says so or, of the strategies of its chain that may
be used, there is at least one and all are that one. -/
def humanAllowed (p : Policy) : Bool :=
  p.humanOverride ||
    (let usable := p.chain.filter p.permits
     !usable.isEmpty && usable.all (· = .human))

/-- Why a policy passes a strategy over, whoever follows it. -/
def skip? (p : Policy) (s : Strategy) : Option Skip :=
  if !p.permits s then some .notAvailable
  else if s = .human ∧ !humanAllowed p then some .humanNotAllowed
  else none

/-- What the engine has done so far. -/
structure Progress where
  /-- The trail. -/
  trail : List TrailEntry := []
  /-- The reason of the last failure. -/
  lastFailure : Option String := none
  /-- The attempts made. -/
  attempts : Nat := 0
  deriving Inhabited

/-- One more entry of the trail. -/
def Progress.record (p : Progress) (s : Strategy) (attempt : Nat) (outcome : Outcome)
    (clock : Nat) : Progress :=
  { p with trail := p.trail ++ [⟨s, attempt, outcome, Timestamp.ofMillis clock⟩] }

/-- The outcome of an attempt that did not succeed, and its reason; the output of one that did. -/
def judge (timeout : Nat) : Attempt → Except (Outcome × String) Output
  | .answered (.ok o) =>
    if o.success then .ok o
    else
      let reason := o.error.getD "Executor reported failure"
      .error (.failed reason, reason)
  | .answered (.error f) => .error (.failed f.message, f.message)
  | .overran =>
    .error (.timedOut timeout, "Execution timed out after " ++ toString timeout ++ "ms")

/-- An executor is given so many attempts, the first of which has the number given. -/
def tryRepeatedly (crew : Crew σ ε) (who : ε) (r : Request) (s : Strategy) :
    Nat → Nat → Progress → σ → Option Output × Progress × σ
  | 0, _, p, w => (none, p, w)
  | left + 1, number, p, w =>
    let (a, w) := crew.attempt who r w
    let p := { p with attempts := p.attempts + 1 }
    match judge r.timeout a with
    | .ok o => (some o, p.record s number .succeeded (crew.clock w), w)
    | .error (outcome, reason) =>
      let p := { p.record s number outcome (crew.clock w) with lastFailure := some reason }
      tryRepeatedly crew who r s left (number + 1) p
        (crew.note (.attemptFailed r.step s number reason) w)

/-- A strategy has its turn. -/
def tryStrategy (crew : Crew σ ε) (policy : Policy) (r : Request) (s : Strategy) (p : Progress)
    (w : σ) : Option Output × Progress × σ :=
  let pass (why : Skip) : Option Output × Progress × σ :=
    (none, p.record s 0 (.skipped why.message) (crew.clock w), w)
  match skip? policy s with
  | some why => pass why
  | none =>
    match crew.seated w s with
    | none => pass .nobodySeated
    | some who =>
      if policy.attempts = 0 then pass .noAttempts
      else tryRepeatedly crew who r s policy.attempts 1 p w

/-- The strategies of a chain have their turns, up to the first success. -/
def tryChain (crew : Crew σ ε) (policy : Policy) (r : Request) :
    List Strategy → Progress → σ → Option (Strategy × Output) × Progress × σ
  | [], p, w => (none, p, w)
  | s :: rest, p, w =>
    match tryStrategy crew policy r s p w with
    | (some o, p, w) => (some (s, o), p, w)
    | (none, p, w) => tryChain crew policy r rest p w

/-- A step is got done, or no strategy gets it done. -/
def run (crew : Crew σ ε) (policy : Policy) (step method : String) (inputs : Bindings) (w : σ) :
    Except Failure StepResult × σ :=
  let r : Request := ⟨step, method, inputs, policy.timeout⟩
  match tryChain crew policy r policy.chain {} w with
  | (some (s, o), p, w') =>
    (.ok ⟨s, o.outputs, p.trail, o.lines, p.attempts, crew.clock w' - crew.clock w⟩, w')
  | (none, p, w') =>
    let reason := p.lastFailure.getD ("No execution strategy available for step '" ++ step ++ "'")
    (.error (.exhausted step reason p.trail), w')

end Engine

end Foreman
