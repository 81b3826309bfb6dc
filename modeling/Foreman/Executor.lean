import Foreman.Executor.Output
/-!
# Executors

An executor gets work done by one strategy. It is handed a request and answers with a report or a
fault. What it does is one of four things: it follows a script, gives back what it was handed,
computes, or repeats reports that were recorded before.

A script and a recording are used up entry by entry; the last entry stays.

## Main definitions

* `Foreman.Request`: what an executor is handed.
* `Foreman.Work`: what an executor does.
* `Foreman.Work.respond`: its answer, and what it does from then on.
-/

namespace Foreman

/-- What an executor is handed. -/
structure Request where
  /-- The step, by name. -/
  step : String
  /-- What has to be done, in free words. -/
  method : String
  /-- What goes in. -/
  inputs : Bindings
  /-- The time given, in milliseconds. -/
  timeout : Nat
  deriving Inhabited

/-- The answer of an executor. -/
abbrev Response := Except Fault Output

/-- What an executor computes. -/
inductive Routine where
  /-- Twice the whole number that goes in as `n`, in 64 bits. -/
  | double
  /-- What it was handed, item by item. -/
  | describe
  /-- Nothing; it gives reasons, from the root cause outwards. -/
  | refuse (reasons : List String)
  deriving DecidableEq, Repr, Inhabited

namespace Routine

/-- The whole number of 64 bits that goes in under a key. -/
def wholeInput? (r : Request) (key : String) : Option Int :=
  match r.inputs.get? key with
  | some (.int n) => if -(Int.pow 2 63) ≤ n ∧ n < Int.pow 2 63 then some n else none
  | _ => none

/-- What is computed. -/
def run (routine : Routine) (r : Request) : Response :=
  match routine with
  | double =>
    match wholeInput? r "n" with
    | some n => .ok (.succeeded (.ofList [("doubled", .int ((2 * n).bmod (Nat.pow 2 64)))]))
    | none => .error (.failed "missing n")
  | describe =>
    .ok <| .succeeded <| .ofList
      [("step", .text r.step), ("method", .text r.method), ("inputs", .ofTable r.inputs),
        ("timeout_ms", .int r.timeout)]
  | refuse reasons => .error (.failed (String.intercalate ": " reasons.reverse))

end Routine

/-- What an executor does. -/
inductive Work where
  /-- It follows a script, waiting before each answer for some milliseconds. -/
  | script (name : String) (responses : List Response) (delay : Nat)
  /-- It gives back what it was handed. -/
  | echo
  /-- It computes. -/
  | compute (name : String) (routine : Routine)
  /-- It repeats reports that were recorded before. -/
  | replay (name : String) (outputs : List Output)
  deriving Inhabited

namespace Work

/-- The name of an executor. -/
def name : Work → String
  | script name _ _ => name
  | echo => "echo"
  | compute name _ => name
  | replay name _ => name

/-- The time it waits before it answers, in milliseconds. -/
def delay : Work → Nat
  | script _ _ delay => delay
  | _ => 0

/-- The first entry of a list, and the list without it unless it is the last. -/
def next? : List α → Option (α × List α)
  | [] => none
  | [a] => some (a, [a])
  | a :: b :: rest => some (a, b :: rest)

/-- The fault of an executor that has nothing to answer with. -/
def nothingScripted (name : String) : Fault :=
  .unavailable (name ++ " has no scripted response")

/-- The answer to a request, and what the executor does from then on. -/
def respond (w : Work) (r : Request) : Response × Work :=
  match w with
  | script name responses delay =>
    match next? responses with
    | some (response, rest) => (response, script name rest delay)
    | none => (.error (nothingScripted name), w)
  | echo =>
    (.ok ((Output.succeeded r.inputs).withLine
      ("echoed " ++ toString r.inputs.size ++ " input(s) for step " ++ r.step)), w)
  | compute _ routine => (routine.run r, w)
  | replay name outputs =>
    match next? outputs with
    | some (output, rest) => (.ok output, replay name rest)
    | none => (.error (nothingScripted name), w)

end Work

end Foreman
