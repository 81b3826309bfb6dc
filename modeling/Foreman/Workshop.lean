import Foreman.Config
import Foreman.FreshMark
import Foreman.Library
import Foreman.Market
import Foreman.Run.Ledger
import Foreman.Session.Command
import Foreman.Session.Reply
import Foreman.Store.Allocation
/-!
# The workshop

A workshop has a store, a catalogue, a policy, executors, a library and a ledger of runs, and keeps
a journal. Its store may tell the workshop's own catalogue which capabilities its kinds offer, or
another catalogue, or none.

Time passes only while an executor waits. Where a call of an executor has only so much time, so has
everything that is asked for in its course: there is a deadline then.

## Main definitions

* `Foreman.Worker`: an executor that was taken on.
* `Foreman.Workshop`: everything together.
* `Foreman.Workshop.new`: a workshop in which nothing has happened.
* `Foreman.Workshop.note`, `Foreman.Workshop.freshMark`: something is noted; a mark is used up.
-/

namespace Foreman

/-- An executor that was taken on. -/
structure Worker where
  /-- The label it is known by. -/
  label : String
  /-- What it does from now on. -/
  work : Work
  /-- What it asks for in the course of each of its calls. -/
  interludes : List (List Command)
  /-- The times it began to ask for things. -/
  begun : Nat := 0
  /-- The calls that got past what it asks for. -/
  calls : Nat := 0
  /-- What went into each of these. -/
  received : List Bindings := []
  deriving Inhabited

/-- Which catalogue the store tells of its kinds, and consults about capabilities. -/
inductive Wiring where
  /-- The catalogue of the workshop. -/
  | own
  /-- None. -/
  | detached
  /-- Another catalogue. -/
  | foreign
  deriving DecidableEq, Repr, Inhabited

/-- A note in the journal, and how many calls of executors it was made within. -/
structure JournalEntry where
  /-- How many calls of executors the note was made within. -/
  depth : Nat
  /-- The note. -/
  notice : Notice
  deriving DecidableEq, Repr

/-- Everything together. -/
structure Workshop where
  /-- The store. -/
  store : Store := {}
  /-- Which catalogue the store is wired to. -/
  wiring : Wiring := .own
  /-- The catalogue of the workshop. -/
  market : Market := {}
  /-- Another catalogue. -/
  otherMarket : Market := {}
  /-- The policy. -/
  policy : Policy := .standard
  /-- Who follows which strategy, by place among the executors. -/
  seats : List (Strategy × Nat) := []
  /-- The executors, in the order in which they were taken on. -/
  workers : List Worker := []
  /-- The executors by label, by place. -/
  labels : Table Nat := .empty
  /-- The library. -/
  library : Library := .shelf .empty
  /-- The ledger of runs. -/
  ledger : Ledger := {}
  /-- The time, in milliseconds. -/
  clock : Nat := 0
  /-- How many fresh marks have been used up. -/
  marks : Nat := 0
  /-- The instances that commands may refer to by a nickname. -/
  nicknames : Table String := .empty
  /-- The journal. -/
  journal : List JournalEntry := []
  /-- How many calls of executors are under way. -/
  depth : Nat := 0
  /-- The time at which the first of them is up, if any of them has only so much time. -/
  deadline : Option Nat := none
  /-- What executors have asked since the command under way began. -/
  interludes : List (Interlude Reply) := []
  deriving Inhabited

namespace Workshop

/-- A workshop in which nothing has happened. -/
def new (config : Config) (library : Library) (wiring : Wiring) : Workshop :=
  { wiring, market := .new config.caching, policy := config.policy, library }

/-- The time. -/
def now (w : Workshop) : Timestamp :=
  .ofMillis w.clock

/-- Something is noted. -/
def note (n : Notice) (w : Workshop) : Workshop :=
  { w with journal := w.journal ++ [⟨w.depth, n⟩] }

/-- Some things are noted, in order. -/
def noteAll (ns : List Notice) (w : Workshop) : Workshop :=
  { w with journal := w.journal ++ ns.map (⟨w.depth, ·⟩) }

/-- A mark that has not been used, which is used up. -/
def freshMark (w : Workshop) : String × Workshop :=
  (FreshMark.ofNat w.marks, { w with marks := w.marks + 1 })

/-- The catalogue that the store consults. -/
def consulted? (w : Workshop) : Option Market :=
  match w.wiring with
  | .own => some w.market
  | .detached => none
  | .foreign => some w.otherMarket

/-! ### The store -/

/-- The catalogue that the store is wired to is told which capabilities the kinds offer. -/
def publishOffers (w : Workshop) : Workshop :=
  match w.wiring with
  | .own =>
    { w.noteAll (Store.allCycleNotices w.store.kinds) with
      market := w.market.replaceProviders w.store.kinds.advertised }
  | .detached => w
  | .foreign =>
    { w.noteAll (Store.allCycleNotices w.store.kinds) with
      otherMarket := w.otherMarket.replaceProviders w.store.kinds.advertised }

/-- A kind of resource is described. Whether its name is new. -/
def define (w : Workshop) (k : ResourceKind) : Bool × Workshop :=
  (!w.store.kinds.contains k.name, { w with store := w.store.define k }.publishOffers)

/-- An instance is registered. -/
def register (w : Workshop) (kind : String) (attributes : Bindings) :
    Except Failure String × Workshop :=
  let (mark, w) := w.freshMark
  let (id, store, notices) :=
    w.store.register (Store.idFor kind attributes mark) kind attributes w.now
  (id, { w with store }.noteAll notices)

/-- An instance is removed. Whether it existed. -/
def remove (w : Workshop) (id : String) : Bool × Workshop :=
  let (existed, store, notices) := w.store.remove id
  (existed, { w with store }.noteAll notices)

/-- An instance is taken out of rotation. Whether no step held it. -/
def retire (w : Workshop) (id : String) : Bool × Workshop :=
  let (changed, store) := w.store.retire id
  (changed, { w with store })

/-- An instance is put back into rotation. Whether it was out of it. -/
def reinstate (w : Workshop) (id : String) : Bool × Workshop :=
  let (changed, store) := w.store.reinstate id
  (changed, { w with store })

/-- All instances are removed. -/
def clear (w : Workshop) : Workshop :=
  { w with store := w.store.clear }.note .emptied

/-- A step is given what it requires, or nothing. -/
def allocate (w : Workshop) (step : String) (requirements : List Requirement) :
    Except Failure Allotment × Workshop :=
  let w := w.noteAll ((w.consulted?.map (·.unlisted requirements)).getD [])
  let (given, store, notices) := w.store.allocate step requirements
  (given, { w with store }.noteAll notices)

/-- A step gives back what it holds. -/
def release (w : Workshop) (step : String) : List String × Workshop :=
  let (ids, store) := w.store.release step
  (ids, { w with store }.note (.released step ids))

/-! ### The catalogue and the policy -/

/-- An entry is filed in the catalogue. Whether its name is new. -/
def file (w : Workshop) (e : CatalogEntry) : Bool × Workshop :=
  let (isNew, market) := w.market.register e
  (isNew, { w with market })

/-- An entry of the catalogue is looked up. -/
def resolve (w : Workshop) (name : String) : Option CatalogEntry × Workshop :=
  let (entry, market) := w.market.resolve name
  (entry, { w with market })

/-- The policy is changed, unless every step would then fail. -/
def updatePolicy (w : Workshop) (u : PolicyUpdate) : Except Failure Policy × Workshop :=
  let policy := w.policy.update u
  match policy.flaw? with
  | none => (.ok policy, { w with policy })
  | some flaw =>
    let failure : Failure := .flawedPolicy flaw
    (.error failure, w.note (.updateRejected failure.message))

/-! ### Manifests -/

/-- The capabilities of a manifest are filed. -/
def fileCapabilities (w : Workshop) (cs : List Capability) : Workshop :=
  cs.foldl (fun w c =>
    ((if c.name.isEmpty then w.note .namelessCapability else w).file (.capability c)).2) w

/-- The responsibilities of a manifest are filed. -/
def fileResponsibilities (w : Workshop) (rs : List Responsibility) : Workshop :=
  rs.foldl (fun w r =>
    ((if r.capability.name.isEmpty then w.note .namelessResponsibility else w).file
      (.responsibility r)).2) w

/-- The kinds of a manifest are described; those without a name are left out. -/
def defineAll (w : Workshop) (ks : List ResourceKind) : Workshop :=
  ks.foldl (fun w k =>
    if k.name.isEmpty then w.note .namelessKind else (w.define k).2) w

/-- What is said of a kind of resource without a name. -/
def namelessKindLine : String :=
  "resource definition with empty name"

/-- What registering a manifest brings. -/
def reportOf (m : Manifest) : ManifestReport where
  capabilities := m.capabilities.length
  responsibilities := m.responsibilities.length
  resources := (m.resources.filter fun k => !k.name.isEmpty).length
  skipped :=
    ((m.resources.filter fun k => k.name.isEmpty).map fun _ => namelessKindLine) ++
      m.rejected.map Rejection.line

/-- A manifest is registered. A store that does not tell the workshop's catalogue by itself which
capabilities its kinds offer does so now. -/
def registerManifest (w : Workshop) (m : Manifest) : ManifestReport × Workshop :=
  let w := w.noteAll (m.rejected.map fun r => .malformedEntry r.heading r.index r.reason)
  let w := ((w.fileCapabilities m.capabilities).fileResponsibilities
    m.responsibilities).defineAll m.resources
  (reportOf m,
    if w.wiring = .own then w
    else
      { w.noteAll (Store.allCycleNotices w.store.kinds) with
        market := w.market.replaceProviders w.store.kinds.advertised })

/-- Everything in figures. -/
def stats (w : Workshop) : Stats where
  active := w.ledger.active.length
  completed := w.ledger.count .completed
  failed := w.ledger.count .failed
  utilization := w.store.utilization
  market := w.market.info
  policy := w.policy

end Workshop

end Foreman
