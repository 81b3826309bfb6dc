import Foreman.Run.Record
/-!
# The ledger of runs

The ledger keeps the records of the runs under way, in the order in which they began, and of those
that are over, in the order in which they ended. Once it is closed, it keeps nothing any more.

## Main definitions

* `Foreman.Ledger`: runs under way, runs that are over.
* `Foreman.Ledger.start`, `Foreman.Ledger.publish`, `Foreman.Ledger.finish`, `Foreman.Ledger.drop`:
  what becomes of a run.
* `Foreman.Ledger.close`: everything is forgotten, for good.
-/

namespace Foreman

/-- The records of runs. -/
structure Ledger where
  /-- The runs under way, in the order in which they began. -/
  active : List RunRecord := []
  /-- The runs that are over, in the order in which they ended. -/
  history : List RunRecord := []
  /-- Whether everything has been shut down. -/
  closed : Bool := false
  deriving Inhabited

namespace Ledger

/-- A run begins. -/
def start (l : Ledger) (r : RunRecord) : Ledger :=
  { l with active := l.active ++ [r] }

/-- Whether a run is under way. -/
def isActive (l : Ledger) (id : String) : Bool :=
  l.active.any fun r => r.id = id

/-- The record of a run under way is brought up to date. -/
def publish (l : Ledger) (r : RunRecord) : Ledger :=
  { l with active := l.active.map fun r' => if r'.id = r.id then r else r' }

/-- A run is no longer under way. -/
def drop (l : Ledger) (id : String) : Ledger :=
  { l with active := l.active.filter fun r => r.id ≠ id }

/-- A run that was under way is over. -/
def finish (l : Ledger) (r : RunRecord) : Ledger :=
  if l.isActive r.id then { l.drop r.id with history := l.history ++ [r] } else l

/-- Everything is forgotten, for good. -/
def close (_ : Ledger) : Ledger :=
  ⟨[], [], true⟩

/-- The run of an id, under way or over. -/
def run? (l : Ledger) (id : String) : Option RunRecord :=
  (l.active.find? fun r => r.id = id).or (l.history.find? fun r => r.id = id)

/-- The number of runs in a state among those that are over. -/
def count (l : Ledger) (status : RunStatus) : Nat :=
  l.history.countP fun r => r.status = status

end Ledger

end Foreman
