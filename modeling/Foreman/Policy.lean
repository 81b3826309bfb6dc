import Foreman.Document.Form
import Foreman.Strategy
/-!
# Policies

A policy says how the work of a step is got done: which strategies are tried, in which order, how
often each, and for how long. An update changes some of its parts and leaves the others.

## Main definitions

* `Foreman.Policy`: the rules for getting work done.
* `Foreman.Policy.permits`, `Foreman.Policy.flaw?`: the strategies a policy allows, and what would
  make every step fail under it.
* `Foreman.PolicyUpdate`, `Foreman.Policy.update`: a partial change, and the policy after it.
-/

namespace Foreman

/-- The rules for getting the work of a step done. -/
structure Policy where
  /-- The strategies, in the order in which they are tried. -/
  chain : List Strategy
  /-- Whether a person may be asked where other strategies are also in the chain. -/
  humanOverride : Bool
  /-- The attempts made with each strategy. -/
  attempts : Nat
  /-- The time given to an attempt, in milliseconds. -/
  timeout : Nat
  /-- The strategies that may be used at all. -/
  available : List Strategy
  deriving DecidableEq, Repr

namespace Policy

/-- The policy where nothing else is said. -/
def standard : Policy :=
  ⟨[.algorithmic, .ai, .human], true, 3, 30000, [.algorithmic, .ai, .human]⟩

instance : Inhabited Policy := ⟨standard⟩

/-- Whether a strategy may be used. -/
def permits (p : Policy) (s : Strategy) : Bool :=
  p.available.contains s

/-- What would make every step fail. -/
inductive Flaw where
  /-- No attempts are made. -/
  | noAttempts
  /-- No time is given. -/
  | noTime
  deriving DecidableEq, Repr

/-- The wording of a flaw. -/
def Flaw.message : Flaw → String
  | noAttempts => "max_retries must be at least 1"
  | noTime => "execution_timeout_ms must be positive"

/-- What would make every step fail under a policy, if anything. -/
def flaw? (p : Policy) : Option Flaw :=
  if p.attempts = 0 then some .noAttempts
  else if p.timeout = 0 then some .noTime
  else none

/-- What the record of a policy is called, and its fields. -/
def shape : Shape :=
  ⟨"struct ExecutionPolicy",
    ["default_chain", "allow_human_override", "max_retries", "execution_timeout_ms",
      "available_types"]⟩

/-- A policy; what is not said is as in the standard policy. -/
def read (d : Document) : Except Misfit Policy := do
  let form ← Form.of? shape false d
  form.close <|
    mk <$> form.may "default_chain" standard.chain (Document.asList Strategy.read)
      <*> form.may "allow_human_override" standard.humanOverride Document.asFlag
      <*> form.may "max_retries" standard.attempts Document.asCount32
      <*> form.may "execution_timeout_ms" standard.timeout Document.asCount64
      <*> form.may "available_types" standard.available (Document.asList Strategy.read)

/-- A policy as an open value. -/
def json (p : Policy) : Json :=
  .record
    [("default_chain", some (.list (p.chain.map Strategy.json))),
      ("allow_human_override", some (.bool p.humanOverride)),
      ("max_retries", some (.int p.attempts)), ("execution_timeout_ms", some (.int p.timeout)),
      ("available_types", some (.list (p.available.map Strategy.json)))]

end Policy

/-- A change of some parts of a policy. -/
structure PolicyUpdate where
  /-- The new chain. -/
  chain : Option (List Strategy) := none
  /-- Whether a person may now be asked. -/
  humanOverride : Option Bool := none
  /-- The new number of attempts. -/
  attempts : Option Nat := none
  /-- The new time, in milliseconds. -/
  timeout : Option Nat := none
  /-- The strategies that may now be used. -/
  available : Option (List Strategy) := none
  deriving DecidableEq, Repr, Inhabited

/-- The policy after a change. -/
def Policy.update (p : Policy) (u : PolicyUpdate) : Policy :=
  ⟨u.chain.getD p.chain, u.humanOverride.getD p.humanOverride, u.attempts.getD p.attempts,
    u.timeout.getD p.timeout, u.available.getD p.available⟩

end Foreman
