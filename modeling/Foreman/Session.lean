import Foreman.Workshop.Description
import Foreman.Workshop.Run
/-!
# Sessions

A session is a list of commands given to a workshop one after another, each of which gets a reply.
Commands that executors give while they are at work are carried out in the same way, one level
deeper. How deep they may go is bounded by the number of lists of commands that the session holds,
since every list is used at most once by the executor it was given to. A command gets no reply if
the call of an executor in whose course it was given is dropped before it is carried out.

## Main definitions

* `Foreman.Workshop.answer`: one command is carried out.
* `Foreman.Workshop.perform`: one command is carried out, and what there is to say about it.
* `Foreman.Workshop.session`: the replies to the commands of a session.
-/

namespace Foreman.Workshop

/-- The mark in front of a nickname. -/
def nicknameMark : Char := '$'

/-- The id that a command means: that of a nickname, or the one given. -/
def meant (w : Workshop) (id : String) : String :=
  match id.toList with
  | c :: rest =>
    if c = nicknameMark then (w.nicknames.get? (String.ofList rest)).getD id else id
  | [] => id

/-- The run that a command means. -/
def meantRun (w : Workshop) : RunRef → RunRef
  | .id id => .id (w.meant id)
  | ref => ref

/-- The answer to a command that may fail. -/
def orFailure (answer : α → Answer) : Except Failure α × Workshop → Option Answer × Workshop
  | (.ok a, w) => (some (answer a), w)
  | (.error failure, w) => (some (.failed failure), w)

/-- The answer to a command that may fail, unless it is dropped. -/
def orDropped (answer : α → Answer) :
    Option (Except Failure α) × Workshop → Option Answer × Workshop
  | (some result, w) => orFailure answer (result, w)
  | (none, w) => (none, w)

/-- An instance is registered under a nickname, if one is given. -/
def registerAs (kind : String) (attributes : Bindings) (nickname : Option String) (w : Workshop) :
    Answer × Workshop :=
  match w.register kind attributes with
  | (.error failure, w) => (.failed failure, w)
  | (.ok id, w) =>
    (.text id,
      match nickname with
      | some name => { w with nicknames := w.nicknames.insert name id }
      | none => w)

/-- A manifest is registered, if it can be read. -/
def registerSource (source : ManifestSource) (w : Workshop) : Answer × Workshop :=
  let register (m : Manifest) : Answer × Workshop :=
    let (report, w) := w.registerManifest m
    (.report report, w)
  match source with
  | .given m => register m
  | .text format s =>
    match Manifest.ofText format s with
    | .ok m => register m
    | .error failure => (.failed failure, w)

/-- One command is carried out, unless the call of an executor in whose course it was given is
dropped. -/
def answer (attendant : Attendant) (c : Command) (w : Workshop) : Option Answer × Workshop :=
  match c with
  | .registerManifest source =>
    let (answer, w) := registerSource source w
    (some answer, w)
  | .define k =>
    let (isNew, w) := w.define k
    (some (.flag isNew), w)
  | .definition name => (some (.kind (w.store.kinds.get? name)), w)
  | .effective name =>
    if w.store.kinds.contains name then
      (some (.characteristics (some (w.store.kinds.effective name))),
        w.noteAll (Store.cycleNotices w.store.kinds name))
    else (some (.characteristics none), w)
  | .advertised =>
    (some (.offers (w.store.kinds.advertised.filter fun e => !e.2.isEmpty)),
      w.noteAll (Store.allCycleNotices w.store.kinds))
  | .register kind attributes nickname =>
    let (answer, w) := registerAs kind attributes nickname w
    (some answer, w)
  | .remove id =>
    let (existed, w) := w.remove (w.meant id)
    (some (.flag existed), w)
  | .retire id =>
    let (changed, w) := w.retire (w.meant id)
    (some (.flag changed), w)
  | .reinstate id =>
    let (changed, w) := w.reinstate (w.meant id)
    (some (.flag changed), w)
  | .getInstance id => (some (.oneInstance (w.store.instance? (w.meant id))), w)
  | .listInstances => (some (.instances w.store.instances), w)
  | .allocate step requirements => orFailure .allotment (w.allocate step requirements)
  | .release step =>
    let (ids, w) := w.release step
    (some (.texts ids), w)
  | .heldBy step => (some (.texts (w.store.heldBy step)), w)
  | .utilization => (some (.utilization w.store.utilization), w)
  | .clear => (some .done, w.clear)
  | .file e =>
    let (isNew, w) := w.file e
    (some (.flag isNew), w)
  | .resolve name =>
    let (entry, w) := w.resolve name
    (some (.entry entry), w)
  | .isKnown name => (some (.flag (w.market.isKnown name)), w)
  | .isEmpty => (some (.flag w.market.isEmpty), w)
  | .replaceProviders index => (some .done, { w with market := w.market.replaceProviders index })
  | .providersFor capability => (some (.texts (w.market.providersFor capability)), w)
  | .foreignProvidersFor capability => (some (.texts (w.otherMarket.providersFor capability)), w)
  | .listCapabilities => (some (.entries w.market.list), w)
  | .byMonitoring mode => (some (.responsibilities (w.market.byMonitoring mode)), w)
  | .marketInfo => (some (.marketInfo w.market.info), w)
  | .seat strategy worker label => (some .done, w.seat strategy worker label)
  | .isSeated strategy => (some (.flag (w.seated strategy).isSome), w)
  | .policy => (some (.policy w.policy), w)
  | .updatePolicy u => orFailure .policy (w.updatePolicy u)
  | .executeStep step method inputs =>
    orDropped .result (executeStep attendant step method inputs w)
  | .callWorker label step method inputs =>
    match callDirectly attendant label step method inputs w with
    | (some (some (name, response)), w) => (some (.response name response), w)
    | (some none, w) => (some .noWorker, w)
    | (none, w) => (none, w)
  | .callsOf label => (some (.calls (w.callsOf label)), w)
  | .insertPlaybook p => (some .done, { w with library := w.library.insert p })
  | .playbookNames =>
    match w.library.names? with
    | some names => (some (.texts names), w)
    | none => (some (.flag true), w)
  | .loadPlaybook name => orFailure .playbook (w.library.load name, w)
  | .executePlaybook name input =>
    orDropped (fun r => .run (some r)) (executePlaybook attendant name input w)
  | .history => (some (.runs w.ledger.history), w)
  | .listActive => (some (.runs w.ledger.active), w)
  | .getRun ref => (some (.run (w.run? (w.meantRun ref))), w)
  | .getStep ref step => (some (.step ((w.run? (w.meantRun ref)).bind fun r => r.step? step)), w)
  | .activeAllocations ref => (some (.holdings (w.holdingsOf? (w.meantRun ref))), w)
  | .stats => (some (.stats w.stats), w)
  | .shutdown => (some .done, w.shutdown)
  | .isShutDown => (some (.flag w.ledger.closed), w)
  | .describe subject =>
    match w.describe subject with
    | some d => (some (.text d.text), w)
    | none => (some .nothing, w)
  | .misfit _ why => (some (.misfit why), w)
  | .unknown => (some .unknown, w)

/-- The alarms in a journal from a place on that were raised at a depth. -/
def alarmsSince (start depth : Nat) (journal : List JournalEntry) : List Notice :=
  ((journal.drop start).filter fun e => e.depth = depth && e.notice.alarm?.isSome).map (·.notice)

/-- One command is carried out, and what there is to say about it. -/
def reply (attendant : Attendant) (c : Command) (w : Workshop) : Option Reply × Workshop :=
  let (answer, w') := answer attendant c { w with interludes := [] }
  (answer.map fun a =>
      .mk a (if c.aboutInstances then some w'.store.instances else none) w'.interludes
        (alarmsSince w.journal.length w.depth w'.journal),
    { w' with interludes := w.interludes })

/-- Commands are carried out one after another; there are no replies if one of them is dropped. -/
def replies (one : Command → Workshop → Option Reply × Workshop) :
    List Command → Workshop → Option (List Reply) × Workshop
  | [], w => (some [], w)
  | c :: rest, w =>
    match one c w with
    | (some r, w) =>
      let (rs, w) := replies one rest w
      (rs.map (r :: ·), w)
    | (none, w) => (none, w)

/-- One command is carried out; executors may ask for things at so many levels below it. -/
def perform : Nat → Command → Workshop → Option Reply × Workshop
  | 0 => reply fun _ w => (some [], w)
  | levels + 1 => reply (replies (perform levels))

/-- The replies to the commands of a session. -/
def session (w : Workshop) (commands : List Command) : List Reply :=
  (replies (perform (Command.allInterludes commands)) commands w).1.getD []

end Foreman.Workshop
