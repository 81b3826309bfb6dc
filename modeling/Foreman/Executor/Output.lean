import Foreman.Document.Form
/-!
# What an executor answers

An executor that has run the work reports whether it succeeded, what came out, some lines of its own
and perhaps a reason. One that could not run it answers with a fault.

## Main definitions

* `Foreman.Output`: the report of an executor that has run the work.
* `Foreman.Fault`: why an executor could not run it.
-/

namespace Foreman

/-- The report of an executor that has run the work. -/
structure Output where
  /-- Whether the work succeeded. -/
  success : Bool
  /-- What came out. -/
  outputs : Bindings := .empty
  /-- Lines for the record. -/
  lines : List String := []
  /-- Why it did not succeed, if that is said. -/
  error : Option String := none
  deriving Inhabited

namespace Output

/-- A success. -/
def succeeded (outputs : Bindings) : Output :=
  { success := true, outputs }

/-- A failure for a reason. -/
def failed (reason : String) : Output :=
  { success := false, error := some reason }

/-- A report with one more line. -/
def withLine (o : Output) (line : String) : Output :=
  { o with lines := o.lines ++ [line] }

/-- What the record of a report is called, and its fields. -/
def shape : Shape :=
  ⟨"struct ExecutorOutput", ["success", "outputs", "logs", "error"]⟩

/-- A report. -/
def read (d : Document) : Except Misfit Output := do
  let form ← Form.of? shape false d
  form.close <|
    mk <$> form.need "success" Document.asFlag
      <*> form.may "outputs" .empty Document.asBindings
      <*> form.may "logs" [] (Document.asList Document.asText)
      <*> form.may "error" none (Document.asOptional Document.asText)

/-- A report as an open value; an absent reason is left out. -/
def json (o : Output) : Json :=
  .record
    [("success", some (.bool o.success)), ("outputs", some (.ofTable o.outputs)),
      ("logs", some (.texts o.lines)), ("error", o.error.map .text)]

end Output

/-- Why an executor could not run the work. -/
inductive Fault where
  /-- It ran the work, which failed. -/
  | failed (reason : String)
  /-- It gave up waiting, after so many milliseconds. -/
  | timeout (ms : Nat)
  /-- It serves nobody now. -/
  | unavailable (reason : String)
  /-- Anything else. -/
  | other (reason : String)
  deriving DecidableEq, Repr, Inhabited

namespace Fault

/-- The wording of a fault. -/
def message : Fault → String
  | failed reason => reason
  | timeout ms => "Executor timed out after " ++ toString ms ++ "ms"
  | unavailable reason => "Executor unavailable: " ++ reason
  | other reason => "Executor error: " ++ reason

/-- The reader of each kind of fault, by its name. -/
def kinds : List (String × (Document → Except Misfit Fault)) :=
  [("Failed", fun d => d.asText.map failed), ("Timeout", fun d => d.asCount64.map timeout),
    ("Unavailable", fun d => d.asText.map unavailable), ("Other", fun d => d.asText.map other)]

/-- The reader of the kind of a name. -/
def kind (name : String) : Except Misfit (Document → Except Misfit Fault) :=
  match kinds.lookup name with
  | some read => .ok read
  | none => .error (.unknownName name (kinds.map (·.1)))

/-- A fault: a single member whose key is the kind. -/
def read : Document → Except Misfit Fault
  | .text s | .plain s => do
    let _ ← kind s
    throw (.wrongType .bareName "newtype variant")
  | .record [(key, value)] => do (← kind (← key.asText)) value
  | .record _ => .error (.wrongValue .record "map with a single key")
  | d => .error (.wrongType d.found "string or map")

/-- A fault as an open value. -/
def json : Fault → Json
  | failed reason => .object [("Failed", .text reason)]
  | timeout ms => .object [("Timeout", .int ms)]
  | unavailable reason => .object [("Unavailable", .text reason)]
  | other reason => .object [("Other", .text reason)]

end Fault

end Foreman
