import Foreman.Document.Form
import Foreman.Strategy
import Foreman.Timestamp
/-!
# Trails

Every attempt to get a step done leaves an entry, and so does every strategy that was passed over.
The entries in order are the trail. A step that got done has a result: which strategy did it, what
came out, and the trail that led there.

## Main definitions

* `Foreman.Outcome`: what became of an attempt.
* `Foreman.TrailEntry`: an attempt with its outcome.
* `Foreman.StepResult`: how a step got done.
* `Foreman.StepResult.fellBack`: whether something failed on the way.
-/

namespace Foreman

/-- What became of an attempt. -/
inductive Outcome where
  /-- It succeeded. -/
  | succeeded
  /-- It failed. -/
  | failed (reason : String)
  /-- It took longer than it was given, in milliseconds. -/
  | timedOut (ms : Nat)
  /-- It was not made. -/
  | skipped (reason : String)
  deriving DecidableEq, Repr, Inhabited

/-- The kinds of outcomes. -/
inductive OutcomeKind where
  /-- A success. -/
  | succeeded
  /-- A failure. -/
  | failed
  /-- An attempt that took too long. -/
  | timedOut
  /-- An attempt that was not made. -/
  | skipped
  deriving DecidableEq, Repr

namespace Outcome

/-- The names of the kinds of outcomes. -/
def kinds : List (String × OutcomeKind) :=
  [("succeeded", .succeeded), ("failed", .failed), ("timed_out", .timedOut), ("skipped", .skipped)]

/-- What messages call an outcome. -/
def title : String :=
  "internally tagged enum AttemptOutcome"

/-- An outcome, whose kind is its tag; `buffered` if the document was set aside before. -/
def read (buffered : Bool) (d : Document) : Except Misfit Outcome := do
  let (tag, rest) ← d.untag "outcome" title
  match ← tag.asTag kinds buffered with
  | .succeeded =>
    rest.asNothing
    return succeeded
  | .failed =>
    let form ← Form.of? ⟨"struct variant AttemptOutcome::Failed", ["reason"]⟩ true rest
    form.close (failed <$> form.need "reason" Document.asText)
  | .timedOut =>
    let form ← Form.of? ⟨"struct variant AttemptOutcome::TimedOut", ["after_ms"]⟩ true rest
    form.close (timedOut <$> form.need "after_ms" Document.asCount64)
  | .skipped =>
    let form ← Form.of? ⟨"struct variant AttemptOutcome::Skipped", ["reason"]⟩ true rest
    form.close (skipped <$> form.need "reason" Document.asText)

/-- The members of the record of an outcome. -/
def members : Outcome → List (String × Option Json)
  | succeeded => [("outcome", some (.text "succeeded"))]
  | failed reason => [("outcome", some (.text "failed")), ("reason", some (.text reason))]
  | timedOut ms => [("outcome", some (.text "timed_out")), ("after_ms", some (.int ms))]
  | skipped reason => [("outcome", some (.text "skipped")), ("reason", some (.text reason))]

/-- An outcome as an open value. -/
def json (o : Outcome) : Json :=
  .record o.members

/-- Whether an attempt was made and did not succeed. -/
def isFailure : Outcome → Bool
  | failed _ | timedOut _ => true
  | succeeded | skipped _ => false

end Outcome

/-- An attempt with its outcome. -/
structure TrailEntry where
  /-- The strategy. -/
  strategy : Strategy
  /-- The number of the attempt with that strategy, from one; zero if none was made. -/
  attempt : Nat
  /-- What became of it. -/
  outcome : Outcome
  /-- When it was over. -/
  ended : Timestamp
  deriving DecidableEq, Repr, Inhabited

namespace TrailEntry

/-- Whether an attempt was made and did not succeed. -/
def isFailure (e : TrailEntry) : Bool :=
  e.outcome.isFailure

/-- The text of an entry. -/
def display (e : TrailEntry) : String :=
  let attempt := e.strategy.name ++ " attempt " ++ toString e.attempt
  match e.outcome with
  | .succeeded => attempt ++ " succeeded"
  | .failed reason => attempt ++ " failed: " ++ reason
  | .timedOut ms => attempt ++ " timed out after " ++ toString ms ++ "ms"
  | .skipped reason => e.strategy.name ++ " skipped: " ++ reason

/-- What the record of an entry is called, and the fields beside those of its outcome. -/
def shape : Shape :=
  ⟨"struct ExecutionLogEntry", ["execution_type", "attempt", "at"]⟩

/-- An entry. The fields of its outcome stand among its own. -/
def read (d : Document) : Except Misfit TrailEntry := do
  let form ← Form.named? shape d
  let rest ← form.rest.aside
  let entry ← form.close <|
    (fun strategy attempt ended outcome => mk strategy attempt outcome ended)
      <$> form.need "execution_type" Strategy.read
      <*> form.need "attempt" Document.asCount32
      <*> form.need "at" Timestamp.read
  return entry (← Outcome.read true rest)

/-- The members of the record of an entry, without the time. -/
def members (e : TrailEntry) : List (String × Option Json) :=
  [("execution_type", some e.strategy.json), ("attempt", some (.int e.attempt))] ++
    e.outcome.members

/-- An entry as an open value. -/
def json (e : TrailEntry) : Json :=
  .record (e.members ++ [("at", some e.ended.json)])

end TrailEntry

/-- How a step got done. -/
structure StepResult where
  /-- The strategy that did it. -/
  strategy : Strategy
  /-- What came out. -/
  outputs : Bindings
  /-- The trail, the success last. -/
  trail : List TrailEntry
  /-- The lines of the executor that did it. -/
  lines : List String
  /-- The attempts made, with whichever strategy. -/
  attempts : Nat
  /-- The time it took, in milliseconds. -/
  duration : Nat
  deriving Inhabited

namespace StepResult

/-- Whether something failed on the way. -/
def fellBack (r : StepResult) : Bool :=
  r.trail.any TrailEntry.isFailure

/-- What the record of a result is called, and its fields. -/
def shape : Shape :=
  ⟨"struct ExecutionResult",
    ["execution_type", "outputs", "logs", "executor_logs", "attempts", "duration_ms"]⟩

/-- A result. -/
def read (d : Document) : Except Misfit StepResult := do
  let form ← Form.of? shape false d
  form.close <|
    mk <$> form.need "execution_type" Strategy.read
      <*> form.need "outputs" Document.asBindings
      <*> form.need "logs" (Document.asList TrailEntry.read)
      <*> form.need "executor_logs" (Document.asList Document.asText)
      <*> form.need "attempts" Document.asCount32
      <*> form.need "duration_ms" Document.asCount64

/-- A result as an open value. -/
def json (r : StepResult) : Json :=
  .record
    [("execution_type", some r.strategy.json), ("outputs", some (.ofTable r.outputs)),
      ("logs", some (.list (r.trail.map TrailEntry.json))),
      ("executor_logs", some (.texts r.lines)), ("attempts", some (.int r.attempts)),
      ("duration_ms", some (.int r.duration))]

end StepResult

end Foreman
