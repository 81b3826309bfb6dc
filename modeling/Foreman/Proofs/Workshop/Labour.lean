import Foreman.Proofs.Engine.Surroundings
import Foreman.Proofs.Workshop.Deeds
import Foreman.Workshop.Labour
/-!
# What work does to a workshop

Executors at work touch neither store nor ledger nor any catalogue by themselves. Whatever happens
to these while a step is got done happens because executors ask for things, and somebody attends to
them. What is asked is put on record then, and only then; and it is what the executors were taken on
to ask for.

## Main definitions

* `Foreman.Workshop.MayAsk`: what executors may ask for.
* `Foreman.Workshop.Idle`: nothing happens that matters here.

## Main results

* `Foreman.Workshop.callWorker_reaches`, `Foreman.Workshop.executeStep_reaches`: the workshop after
  a call, or after a step, is reached by idle changes and by executors being attended to.
-/

namespace Foreman.Workshop

open Relation

variable {attendant : Attendant} {R : Workshop → Workshop → Prop} {w w' w'' : Workshop}

/-- What each executor asks for in the course of each of its calls. -/
def scripts (w : Workshop) : List (List (List Command)) :=
  w.workers.map Worker.interludes

/-- Some executor asks for some things in the course of one of its calls. -/
def MayAsk (w : Workshop) (commands : List Command) : Prop :=
  ∃ script ∈ w.scripts, commands ∈ script

theorem mayAsk_of_mem {worker : Worker} (hworker : worker ∈ w.workers) {commands : List Command}
    (hcommands : commands ∈ worker.interludes) : w.MayAsk commands :=
  ⟨_, List.mem_map_of_mem hworker, hcommands⟩

theorem MayAsk.congr {commands : List Command} (h : w.MayAsk commands)
    (hscripts : w'.scripts = w.scripts) : w'.MayAsk commands := by
  unfold MayAsk
  rwa [hscripts]

/-- The catalogues, and which of them the store is wired to, stay as they are. -/
structure SameCatalogues (w w' : Workshop) : Prop where
  /-- The store is wired as before. -/
  wiring : w'.wiring = w.wiring
  /-- The catalogue of the workshop is the same. -/
  market : w'.market = w.market
  /-- So is the other catalogue. -/
  otherMarket : w'.otherMarket = w.otherMarket

theorem SameCatalogues.trans (h : SameCatalogues w w') (h' : SameCatalogues w' w'') :
    SameCatalogues w w'' :=
  ⟨h'.wiring.trans h.wiring, h'.market.trans h.market, h'.otherMarket.trans h.otherMarket⟩

/-- A workshop changes, but neither its store nor its ledger, nor any catalogue, and executors ask
for nothing and are not told to ask for anything else. -/
structure Idle (w w' : Workshop) : Prop where
  /-- Store and ledger stay as they are. -/
  does : w.Does [] w'
  /-- Nothing is asked. -/
  interludes : w'.interludes = w.interludes
  /-- What executors may ask for stays the same. -/
  scripts : w'.scripts = w.scripts
  /-- The catalogues stay as they are. -/
  catalogues : SameCatalogues w w'

theorem Idle.trans (h : Idle w w') (h' : Idle w' w'') : Idle w w'' :=
  ⟨h.does.trans h'.does, h'.interludes.trans h.interludes, h'.scripts.trans h.scripts,
    h.catalogues.trans h'.catalogues⟩

theorem does_seat (s : Strategy) (spec : WorkerSpec Command) (label : String) (w : Workshop) :
    w.Does [] (w.seat s spec label) := ⟨rfl, rfl⟩

/-- What is changed about an executor is not what it asks for. -/
theorem scripts_modifyWorker (place : Nat) {f : Worker → Worker}
    (hf : ∀ v, (f v).interludes = v.interludes) (w : Workshop) :
    (w.modifyWorker place f).scripts = w.scripts := by
  refine List.ext_getElem? fun n => ?_
  simp only [scripts, modifyWorker, List.getElem?_map, List.getElem?_modify]
  cases w.workers[n]? with
  | none => rfl
  | some v => by_cases hplace : place = n <;> simp [hplace, hf]

theorem idle_modifyWorker (place : Nat) {f : Worker → Worker}
    (hf : ∀ v, (f v).interludes = v.interludes) (w : Workshop) : Idle w (w.modifyWorker place f) :=
  ⟨⟨rfl, rfl⟩, rfl, scripts_modifyWorker place hf w, ⟨rfl, rfl, rfl⟩⟩

theorem idle_wait (clock : Nat) (w : Workshop) : Idle w { w with clock } :=
  ⟨⟨rfl, rfl⟩, rfl, rfl, ⟨rfl, rfl, rfl⟩⟩

theorem idle_expire (w : Workshop) : Idle w w.expire :=
  idle_wait _ w

theorem idle_deadline (deadline : Option Nat) (w : Workshop) : Idle w { w with deadline } :=
  ⟨⟨rfl, rfl⟩, rfl, rfl, ⟨rfl, rfl, rfl⟩⟩

theorem idle_receive (place : Nat) (inputs : Bindings) (w : Workshop) :
    Idle w (w.receive place inputs) :=
  idle_modifyWorker place
    (f := fun v => { v with calls := v.calls + 1, received := v.received ++ [inputs] })
    (fun _ => rfl) w

theorem idle_note (n : Notice) (w : Workshop) : Idle w (w.note n) :=
  ⟨⟨rfl, rfl⟩, rfl, rfl, ⟨rfl, rfl, rfl⟩⟩

/-- Carrying out commands one level deeper, or less deep, is no change that matters. -/
theorem idle_depth (depth : Nat) (w : Workshop) : Idle w { w with depth } :=
  ⟨⟨rfl, rfl⟩, rfl, rfl, ⟨rfl, rfl, rfl⟩⟩

theorem idle_respond (place : Nat) (r : Request) (w : Workshop) :
    Idle w (respond place r w).2 := by
  unfold respond
  split
  · exact ⟨⟨rfl, rfl⟩, rfl, rfl, ⟨rfl, rfl, rfl⟩⟩
  · next worker _ =>
    exact idle_modifyWorker place (f := fun v => { v with work := (worker.work.respond r).2 })
      (fun _ => rfl) w

/-- What comes of a call of an executor that gets so far, in so long. -/
theorem callWorker_of_labour {limit : Option Nat} {place : Nat} {worker : Worker} {r : Request}
    {answers : Bool} {v : Workshop} (hworker : w.workers[place]? = some worker)
    (hlabour : labour attendant place worker r
      { w with deadline := w.deadline.merge min (limit.map (w.clock + ·)) } = (answers, v)) :
    callWorker attendant limit place r w =
      if answers then
        (some (.answered (respond place r { v with deadline := w.deadline }).1),
          (respond place r { v with deadline := w.deadline }).2)
      else if (limit.map (w.clock + ·)).any fun d => w.deadline.all (d ≤ ·) then
        (some .overran, { v with deadline := w.deadline })
      else (none, { v with deadline := w.deadline }) := by
  simp only [callWorker, hworker, hlabour]

/-- Where executors are attended to, store and ledger are left as the attendant leaves them. -/
theorem does_attend (label : String) (call : Nat) (commands : List Command) (w : Workshop) :
    (attendant commands { w with depth := w.depth + 1 }).2.Does []
      (attend attendant label call commands w).2 := by
  unfold attend
  dsimp only
  split <;> exact ⟨rfl, rfl⟩

theorem attend_workers (attendant : Attendant) (label : String) (call : Nat)
    (commands : List Command) (w : Workshop) :
    (attend attendant label call commands w).2.workers =
      (attendant commands { w with depth := w.depth + 1 }).2.workers := by
  unfold attend
  dsimp only
  split <;> rfl

/-- What becomes of the workshop in an attempt is what becomes of it when the executor is handed the
request. -/
theorem shop_attempt (place : Nat) (r : Request) (s : Shift) :
    ((crew attendant).attempt place r s).2.shop =
      (callWorker attendant (some r.timeout) place r s.shop).2 := by
  rcases h : callWorker attendant (some r.timeout) place r s.shop with ⟨_ | a, w⟩ <;>
    simp only [crew, h]

/-- What is told of a step is what the engine made of it. -/
theorem run_of_executeStep {step method : String} {inputs : Bindings}
    {result : Except Failure StepResult}
    (h : (executeStep attendant step method inputs w).1 = some result) :
    (Engine.run (crew attendant) w.policy step method inputs { shop := w }).1 = result := by
  unfold executeStep at h
  dsimp only at h
  split at h
  · cases h
  · exact Option.some.inj h

/-- What each of some changes keeps, they all keep. -/
theorem holds_of_reflTransGen {α : Type} {P : α → Prop} {x y : α}
    (hreach : ReflTransGen (fun x y => P x → P y) x y) (h : P x) : P y := by
  induction hreach with
  | refl => exact h
  | tail _ hlast ih => exact hlast ih

section Attended

variable (hidle : ∀ v v', Idle v v' → R v v')
  (hattend : ∀ label call commands v, v.MayAsk commands →
    R v (attend attendant label call commands v).2)

include hidle hattend

theorem beginCall_reaches {place : Nat} {worker : Worker} {w : Workshop}
    (hworker : w.workers[place]? = some worker) :
    ReflTransGen R w (beginCall attendant place worker w).2 := by
  have hcounting := idle_modifyWorker place (f := fun v => { v with begun := v.begun + 1 })
    (fun _ => rfl) w
  have hcounted := ReflTransGen.single (hidle w _ hcounting)
  unfold beginCall
  dsimp only
  split
  · exact hcounted
  · next hcommands =>
    have hasks := mayAsk_of_mem (List.mem_of_getElem? hworker) (List.mem_of_getElem? hcommands)
    exact hcounted.tail (hattend _ _ _ _ (hasks.congr hcounting.scripts))

theorem labour_reaches {place : Nat} {worker : Worker} {w : Workshop} (r : Request)
    (hworker : w.workers[place]? = some worker) :
    ReflTransGen R w (labour attendant place worker r w).2 := by
  have hbegun := beginCall_reaches hidle hattend hworker
  rcases hbegin : beginCall attendant place worker w with ⟨_ | _, w'⟩
  · rw [hbegin] at hbegun
    simpa only [labour, hbegin] using hbegun.tail (hidle _ _ (idle_expire w'))
  · rw [hbegin] at hbegun
    have hreceived := hbegun.tail (hidle _ _ (idle_receive place r.inputs w'))
    simp only [labour, hbegin]
    split
    · exact hreceived.tail (hidle _ _ (idle_expire _))
    · exact hreceived.tail (hidle _ _ (idle_wait _ _))

theorem callWorker_reaches (limit : Option Nat) (place : Nat) (r : Request) (w : Workshop) :
    ReflTransGen R w (callWorker attendant limit place r w).2 := by
  unfold callWorker
  split
  · exact .refl
  · next worker hworker =>
    have hlimited := ReflTransGen.single
      (hidle w _ (idle_deadline (w.deadline.merge min (limit.map (w.clock + ·))) w))
    have hlaboured := (hlimited.trans (labour_reaches hidle hattend r hworker)).tail
      (hidle _ _ (idle_deadline w.deadline _))
    dsimp only
    split
    · exact hlaboured.tail (hidle _ _ (idle_respond place r _))
    · split <;> exact hlaboured

theorem executeStep_reaches (step method : String) (inputs : Bindings) (w : Workshop) :
    ReflTransGen R w (executeStep attendant step method inputs w).2 := by
  have hattempt (place : Nat) (r : Request) (s : Shift) :
      ReflTransGen R s.shop ((crew attendant).attempt place r s).2.shop := by
    rw [shop_attempt]
    exact callWorker_reaches hidle hattend (some r.timeout) place r s.shop
  have hrun := Engine.run_reaches (R := fun s s' : Shift => ReflTransGen R s.shop s'.shop)
    (fun place r s => .single (hattempt place r s))
    (fun n s => .single (.single (hidle _ _ (idle_note n s.shop)))) w.policy step method inputs
    { shop := w }
  exact hrun.lift' Shift.shop fun _ _ h => h

theorem callDirectly_reaches (label step method : String) (inputs : Bindings) (w : Workshop) :
    ReflTransGen R w (callDirectly attendant label step method inputs w).2 := by
  unfold callDirectly
  split
  · exact .refl
  · next place _ =>
    have hcalled := callWorker_reaches hidle hattend none place
      ⟨step, method, inputs, directTimeout⟩ w
    dsimp only
    split <;> (next h => rw [h] at hcalled; exact hcalled)

end Attended

end Foreman.Workshop
