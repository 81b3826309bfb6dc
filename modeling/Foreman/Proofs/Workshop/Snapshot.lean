import Foreman.Proofs.Engine.Agreement
import Foreman.Proofs.Workshop.PolicyBlind
/-!
# Steps keep the policy they began with

A step is got done under the policy as it stands when the step begins. While executors are at work
on it, they may be replaced and the policy may be updated, and what is done then is compared with
what is done when it is not: two attendants do the same, but for the updates. The step comes to the
same, by the same exchanges. Likewise the attempts of an executor come to the same whether or not
another one is taken on in its place.

## Main definitions

* `Foreman.Workshop.Unnoticed`: what attendants do differently is not noticed by an executor.
* `Foreman.Workshop.DoAlike`, `Foreman.Workshop.DoAlikeAt`: attendants do the same, but for the
  policy, or as far as an executor is concerned.
* `Foreman.Workshop.SameRun`, `Foreman.Workshop.SameAttempts`: a step, or the attempts of an
  executor, come to the same.

## Main results

* `Foreman.Workshop.DoAlike.sameRun`: updates of the policy make no difference to a step under way.
* `Foreman.Workshop.DoAlikeAt.sameAttempts`: nor does a new executor to the attempts of the one it
  replaces.
* `Foreman.Workshop.step_keeps_policy`: both, whoever attends to executors and in sessions, and what
  policy a step is got done under.
-/

namespace Foreman.Workshop

open Command (Quiet)
open Engine (Exchange Progress SameUpTo tryRepeatedly)

variable {a a' : Attendant} {R : Workshop → Workshop → Prop} {place : ℕ} {v v' w w' : Workshop}
  {step method : String} {inputs : Bindings}

/-! ### What executors at work do not notice -/

/-- Two workshops are related, in which attendants may do different things; the executor at a place
does not notice. It is the same in both, and the time is the same, and both stay related by what the
executor does and by what is done for it. -/
structure Unnoticed (a a' : Attendant) (R : Workshop → Workshop → Prop) (place : ℕ) : Prop where
  /-- The executor is the same. -/
  worker : ∀ {v v'}, R v v' → v.workers[place]? = v'.workers[place]?
  /-- The time is the same. -/
  clock : ∀ {v v'}, R v v' → v.clock = v'.clock
  /-- The deadline is the same. -/
  deadline : ∀ {v v'}, R v v' → v.deadline = v'.deadline
  /-- Both stay related while time passes. -/
  wait : ∀ {v v'}, R v v' → ∀ clock, R { v with clock } { v' with clock }
  /-- Both stay related when they are given another deadline. -/
  limit : ∀ {v v'}, R v v' → ∀ deadline, R { v with deadline } { v' with deadline }
  /-- Both stay related when something is noted. -/
  note : ∀ {v v'}, R v v' → ∀ n, R (v.note n) (v'.note n)
  /-- Both stay related when the executor changes, but not what it asks for. -/
  modify : ∀ {v v'}, R v v' → ∀ f : Worker → Worker, (∀ u, (f u).interludes = u.interludes) →
    R (v.modifyWorker place f) (v'.modifyWorker place f)
  /-- Executors get what they ask for in both or in neither, and both stay related. -/
  attend : ∀ {v v'}, R v v' → ∀ label call commands, v.MayAsk commands →
    (attend a label call commands v).1 = (attend a' label call commands v').1 ∧
      R (attend a label call commands v).2 (attend a' label call commands v').2

/-- Two workshops in which a step is got done are related, and the step is dropped in both or in
neither. -/
structure SameShift (R : Workshop → Workshop → Prop) (s s' : Shift) : Prop where
  /-- The workshops are related. -/
  shop : R s.shop s'.shop
  /-- The step is dropped in both or in neither. -/
  dropped : s.dropped = s'.dropped

namespace Unnoticed

theorem beginCall (h : Unnoticed a a' R place) (hR : R v v') {worker : Worker}
    (hworker : v.workers[place]? = some worker) :
    (beginCall a place worker v).1 = (beginCall a' place worker v').1 ∧
      R (beginCall a place worker v).2 (beginCall a' place worker v').2 := by
  have hcounted := h.modify hR (fun u => { u with begun := u.begun + 1 }) fun _ => rfl
  unfold Workshop.beginCall
  dsimp only
  cases hcommands : worker.interludes[worker.begun]? with
  | none => exact ⟨rfl, hcounted⟩
  | some commands =>
    have hasks := mayAsk_of_mem (List.mem_of_getElem? hworker) (List.mem_of_getElem? hcommands)
    refine h.attend hcounted _ _ _ (hasks.congr ?_)
    exact scripts_modifyWorker place (f := fun u => { u with begun := u.begun + 1 })
      (fun _ => rfl) v

theorem respond (h : Unnoticed a a' R place) (hR : R v v') (r : Request) :
    (respond place r v).1 = (respond place r v').1 ∧
      R (respond place r v).2 (respond place r v').2 := by
  unfold Workshop.respond
  rw [← h.worker hR]
  cases v.workers[place]? with
  | none => exact ⟨rfl, hR⟩
  | some worker => exact ⟨rfl, h.modify hR _ fun _ => rfl⟩

theorem expire (h : Unnoticed a a' R place) (hR : R v v') : R v.expire v'.expire := by
  have hlate : max v'.clock (v'.deadline.getD 0) = max v.clock (v.deadline.getD 0) := by
    rw [h.clock hR, h.deadline hR]
  unfold Workshop.expire
  rw [hlate]
  exact h.wait hR _

theorem labour (h : Unnoticed a a' R place) (hR : R v v') {worker : Worker}
    (hworker : v.workers[place]? = some worker) (r : Request) :
    (labour a place worker r v).1 = (labour a' place worker r v').1 ∧
      R (labour a place worker r v).2 (labour a' place worker r v').2 := by
  obtain ⟨hgot, hbegun⟩ := h.beginCall hR hworker
  unfold Workshop.labour
  rcases hx : Workshop.beginCall a place worker v with ⟨got, x⟩
  rcases hy : Workshop.beginCall a' place worker v' with ⟨got', y⟩
  rw [hx, hy] at hgot hbegun
  obtain rfl : got = got' := hgot
  cases got with
  | false => exact ⟨rfl, h.expire hbegun⟩
  | true =>
    have hreceived : R (x.receive place r.inputs) (y.receive place r.inputs) :=
      h.modify hbegun _ fun _ => rfl
    have hclock := h.clock hreceived
    have hlate : (y.receive place r.inputs).deadline.any
          (· < (y.receive place r.inputs).clock + worker.work.delay) =
        (x.receive place r.inputs).deadline.any
          (· < (x.receive place r.inputs).clock + worker.work.delay) := by
      rw [hclock, h.deadline hreceived]
    dsimp only
    rw [hlate, ← hclock]
    split
    · exact ⟨rfl, h.expire hreceived⟩
    · exact ⟨rfl, h.wait hreceived _⟩

/-- A call of the executor brings the same, and keeps both workshops related. -/
theorem callWorker (h : Unnoticed a a' R place) (hR : R v v') (limit : Option ℕ) (r : Request) :
    (callWorker a limit place r v).1 = (callWorker a' limit place r v').1 ∧
      R (callWorker a limit place r v).2 (callWorker a' limit place r v').2 := by
  have hclock := h.clock hR
  have hdeadline := h.deadline hR
  have hsame := h.worker hR
  cases hworker : v.workers[place]? with
  | none =>
    simp only [Workshop.callWorker, ← hsame, hworker]
    exact ⟨trivial, hR⟩
  | some worker =>
    obtain ⟨hanswers, hlaboured⟩ :=
      h.labour (h.limit hR (v.deadline.merge min (limit.map (v.clock + ·)))) hworker r
    rcases hx : Workshop.labour a place worker r
      { v with deadline := v.deadline.merge min (limit.map (v.clock + ·)) } with ⟨answers, x⟩
    rcases hy : Workshop.labour a' place worker r
      { v' with deadline := v.deadline.merge min (limit.map (v.clock + ·)) } with ⟨answers', y⟩
    rw [hx, hy] at hanswers hlaboured
    obtain rfl : answers = answers' := hanswers
    have hback := h.limit hlaboured v.deadline
    have hdue : v'.deadline.merge min (limit.map (v'.clock + ·)) =
        v.deadline.merge min (limit.map (v.clock + ·)) := by rw [hclock, hdeadline]
    rw [← hdue] at hy
    rw [callWorker_of_labour hworker hx, callWorker_of_labour (hsame.symm.trans hworker) hy,
      ← hclock, ← hdeadline]
    split
    · obtain ⟨hresponse, hR'⟩ := h.respond hback r
      exact ⟨congrArg (some <| Attempt.answered ·) hresponse, hR'⟩
    · split <;> exact ⟨rfl, hback⟩

theorem attempt (h : Unnoticed a a' R place) {s s' : Shift} (hR : SameShift R s s')
    (r : Request) :
    ((crew a).attempt place r s).1 = ((crew a').attempt place r s').1 ∧
      SameShift R ((crew a).attempt place r s).2 ((crew a').attempt place r s').2 := by
  obtain ⟨hcame, hcalled⟩ := h.callWorker hR.shop (some r.timeout) r
  simp only [crew]
  rcases hx : Workshop.callWorker a (some r.timeout) place r s.shop with ⟨came, x⟩
  rcases hy : Workshop.callWorker a' (some r.timeout) place r s'.shop with ⟨came', y⟩
  rw [hx, hy] at hcame hcalled
  obtain rfl : came = came' := hcame
  cases came with
  | none => exact ⟨rfl, hcalled, rfl⟩
  | some came => exact ⟨rfl, hcalled, hR.dropped⟩

/-- So the engine is told the same of it. -/
theorem agreesOn (h : Unnoticed a a' R place) (r : Request) :
    (crew a).AgreesOn (crew a') (SameShift R) place r where
  attempt hR := (h.attempt hR r).1
  after hR := (h.attempt hR r).2
  note hR n := ⟨h.note hR.shop n, hR.dropped⟩
  clock hR := h.clock hR.shop

end Unnoticed

/-! ### Updates of the policy -/

/-- The exchanges with executors while a step is got done. -/
def exchanges (a : Attendant) (step method : String) (inputs : Bindings) (w : Workshop) :
    List (Exchange ℕ) :=
  (Engine.run (crew a).watched w.policy step method inputs ({ shop := w }, [])).2.2

/-- A step comes to the same with two attendants: its result or failure, the trail included, is the
same, unless both are dropped, and so are the exchanges with executors, in order. -/
structure SameRun (a a' : Attendant) (step method : String) (inputs : Bindings)
    (w w' : Workshop) : Prop where
  /-- The result is the same, or the failure. -/
  result : (executeStep a step method inputs w).1 = (executeStep a' step method inputs w').1
  /-- The exchanges are the same. -/
  exchanges : exchanges a step method inputs w = exchanges a' step method inputs w'

theorem sameRun_of_agrees
    (h : (crew a).Agrees (crew a') (SameShift R) ⟨step, method, inputs, w.policy.timeout⟩)
    (hR : R w w')
    (hpolicy : w.policy = w'.policy) :
    SameRun a a' step method inputs w w' ∧
      R (executeStep a step method inputs w).2 (executeStep a' step method inputs w').2 := by
  have hstart : SameShift R { shop := w } { shop := w' } := ⟨hR, rfl⟩
  obtain ⟨hresult, hshop, hdropped⟩ := h.run hstart
  obtain ⟨-, -, hexchanges⟩ :=
    h.watched.run (x := ({ shop := w }, [])) (y := ({ shop := w' }, [])) ⟨hstart, rfl⟩
  refine ⟨⟨?_, ?_⟩, ?_⟩
  · simp only [executeStep, ← hpolicy, hresult, hdropped]
  · simpa only [Workshop.exchanges, ← hpolicy] using hexchanges
  · simpa only [executeStep, ← hpolicy] using hshop

/-- All exchanges are about the one request, which has the time that the policy gives as the step
begins. -/
theorem request_of_mem_exchanges {x : Exchange ℕ} (hx : x ∈ exchanges a step method inputs w) :
    x.request = ⟨step, method, inputs, w.policy.timeout⟩ := by
  have hself := Crew.agrees_watched_self (crew a) ⟨step, method, inputs, w.policy.timeout⟩
  obtain ⟨-, -, hrequest⟩ :=
    hself.run (x := ({ shop := w }, [])) ⟨rfl, fun e he => absurd he List.not_mem_nil⟩
  exact hrequest x hx

theorem attend_fst (a : Attendant) (label : String) (call : ℕ) (commands : List Command)
    (v : Workshop) : (attend a label call commands v).1 =
      (a commands { v with depth := v.depth + 1 }).1.isSome := by
  unfold attend
  dsimp only
  split <;> simp [*]

theorem attend_scripts (a : Attendant) (label : String) (call : ℕ) (commands : List Command)
    (v : Workshop) : (attend a label call commands v).2.scripts =
      (a commands { v with depth := v.depth + 1 }).2.scripts :=
  congrArg (List.map Worker.interludes) (attend_workers a label call commands v)

theorem attend_clock (a : Attendant) (label : String) (call : ℕ) (commands : List Command)
    (v : Workshop) : (attend a label call commands v).2.clock =
      (a commands { v with depth := v.depth + 1 }).2.clock := by
  unfold attend
  dsimp only
  split <;> rfl

theorem attend_deadline (a : Attendant) (label : String) (call : ℕ) (commands : List Command)
    (v : Workshop) : (attend a label call commands v).2.deadline = v.deadline := by
  unfold attend
  dsimp only
  split <;> rfl

theorem bare_attend (a : Attendant) (label : String) (call : ℕ) (commands : List Command)
    (v : Workshop) : (attend a label call commands v).2.bare =
      { (a commands { v with depth := v.depth + 1 }).2.bare with
        depth := v.depth, deadline := v.deadline } := by
  unfold attend
  dsimp only
  split <;> rfl

/-- Where attendants do the same but for the policy, no executor notices. -/
theorem unnoticed_bare {P : Workshop → Prop}
    (hP : ∀ {v v' : Workshop}, P v → v'.scripts = v.scripts → P v')
    (hattend : ∀ commands v v', v.MayAsk commands → P v → v.bare = v'.bare →
      ((a commands v).1.isSome = (a' commands v').1.isSome ∧
        (a commands v).2.bare = (a' commands v').2.bare) ∧ P (a commands v).2) (place : ℕ) :
    Unnoticed a a' (fun v v' => v.bare = v'.bare ∧ P v) place where
  worker hR := eq_of_bare_eq (fun w => w.workers[place]?) (fun _ => rfl) hR.1
  clock hR := eq_of_bare_eq Workshop.clock (fun _ => rfl) hR.1
  deadline hR := eq_of_bare_eq Workshop.deadline (fun _ => rfl) hR.1
  wait hR clock := ⟨congrArg (fun w : Workshop => { w with clock }) hR.1, hP hR.2 rfl⟩
  limit hR deadline := ⟨congrArg (fun w : Workshop => { w with deadline }) hR.1, hP hR.2 rfl⟩
  note hR n := ⟨hR.1, hP hR.2 rfl⟩
  modify hR f hf :=
    ⟨congrArg (fun w : Workshop => w.modifyWorker place f) hR.1,
      hP hR.2 (scripts_modifyWorker place hf _)⟩
  attend := by
    rintro v v' ⟨hbare, hv⟩ label call commands hasks
    have hdeeper : { v with depth := v.depth + 1 }.bare = { v' with depth := v'.depth + 1 }.bare :=
      congrArg (fun w : Workshop => { w with depth := w.depth + 1 }) hbare
    obtain ⟨⟨hgot, hdone⟩, hv'⟩ :=
      hattend commands { v with depth := v.depth + 1 } _ (hasks.congr rfl) (hP hv rfl) hdeeper
    have hdepth : v.depth = v'.depth := eq_of_bare_eq Workshop.depth (fun _ => rfl) hbare
    have hdeadline : v.deadline = v'.deadline :=
      eq_of_bare_eq Workshop.deadline (fun _ => rfl) hbare
    refine ⟨?_, ?_, hP hv' (attend_scripts a label call commands v)⟩
    · rw [attend_fst, attend_fst, hgot]
    · rw [bare_attend, bare_attend, hdone, hdepth, hdeadline]

theorem agrees_bare {P : Workshop → Prop}
    (hP : ∀ {v v' : Workshop}, P v → v'.scripts = v.scripts → P v')
    (hattend : ∀ commands v v', v.MayAsk commands → P v → v.bare = v'.bare →
      ((a commands v).1.isSome = (a' commands v').1.isSome ∧
        (a commands v).2.bare = (a' commands v').2.bare) ∧ P (a commands v).2) (r : Request) :
    (crew a).Agrees (crew a') (SameShift fun v v' => v.bare = v'.bare ∧ P v) r where
  seated hR s := eq_of_bare_eq (fun w => w.seated s) (fun _ => rfl) hR.shop.1
  clock hR := eq_of_bare_eq Workshop.clock (fun _ => rfl) hR.shop.1
  on place := (unnoticed_bare hP hattend place).agreesOn r

/-- Two attendants do the same, but for the policy: in workshops that differ in nothing else, both
or neither of them get to the end of what they are asked for, and the workshops differ in nothing
else afterwards. -/
def DoAlike (a a' : Attendant) : Prop :=
  ∀ commands v v', v.bare = v'.bare →
    (a commands v).1.isSome = (a' commands v').1.isSome ∧
      (a commands v).2.bare = (a' commands v').2.bare

/-- A step comes to the same with attendants that do the same, but for the policy. -/
theorem DoAlike.sameRun (h : DoAlike a a') (hbare : w.bare = w'.bare)
    (hpolicy : w.policy = w'.policy) :
    SameRun a a' step method inputs w w' ∧
      (executeStep a step method inputs w).2.bare =
        (executeStep a' step method inputs w').2.bare := by
  have hagrees := agrees_bare (P := fun _ => True) (fun _ _ => trivial)
    (fun commands v v' _ _ hv => ⟨h commands v v' hv, trivial⟩)
    ⟨step, method, inputs, w.policy.timeout⟩
  obtain ⟨hsame, hafter, -⟩ := sameRun_of_agrees hagrees ⟨hbare, trivial⟩ hpolicy
  exact ⟨hsame, hafter⟩

/-- Somebody who does what somebody else does, and something before and afterwards. -/
def meddling (before after : Workshop → Workshop) (a : Attendant) : Attendant :=
  fun commands w => ((a commands (before w)).1, after (a commands (before w)).2)

/-- The policy is updated again and again, whether or not the updates are accepted. -/
def updateAll (updates : List PolicyUpdate) (w : Workshop) : Workshop :=
  updates.foldl (fun w u => (w.updatePolicy u).2) w

theorem bare_updateAll (updates : List PolicyUpdate) (w : Workshop) :
    (w.updateAll updates).bare = w.bare := by
  induction updates generalizing w with
  | nil => rfl
  | cons u rest ih => exact (ih _).trans (bare_updatePolicy u w)

/-- Updating the policy before and afterwards is doing the same, but for the policy. -/
theorem DoAlike.updating (h : DoAlike a a') (before after : Workshop → List PolicyUpdate) :
    DoAlike a
      (meddling (fun w => w.updateAll (before w)) (fun w => w.updateAll (after w)) a') := by
  intro commands v v' hv
  have hbefore : v.bare = (v'.updateAll (before v')).bare := hv.trans (bare_updateAll _ v').symm
  obtain ⟨hgot, hdone⟩ := h commands v _ hbefore
  exact ⟨hgot, hdone.trans (bare_updateAll _ _).symm⟩

/-- Somebody who leaves out some commands, and does what somebody else does about the others. -/
def leavingOut (out : Command → Bool) (a : Attendant) : Attendant :=
  fun commands w => a (commands.filter fun c => !out c) w

/-- Commands in the course of which no executor is at work are never dropped, whichever of them are
left out. -/
theorem isSome_leavingOut {levels : ℕ} {commands : List Command}
    (hcommands : ∀ c ∈ commands, c.Quiet) (out : Command → Bool) (v v' : Workshop) :
    (replies (perform levels) commands v).1.isSome =
      (leavingOut out (replies (perform levels)) commands v').1.isSome :=
  (isSome_replies hcommands v).trans
    (isSome_replies (fun c hc => hcommands c (List.mem_of_mem_filter hc)) v').symm

/-- In a session in which executors ask for nothing that engages executors, a step comes to the same
when all updates of the policy are left out that are asked for in its course. -/
theorem sameRun_leavingOut_isUpdate (levels : ℕ) (hw : Heeds Quiet w) :
    SameRun (replies (perform levels)) (leavingOut Command.isUpdate (replies (perform levels)))
      step method inputs w w := by
  -- executors may take on others, so what all of them may ask for is carried along
  refine (sameRun_of_agrees (agrees_bare (P := Heeds Quiet) Heeds.congr ?_ _) ⟨rfl, hw⟩ rfl).1
  intro commands v v' hasks hv hbare
  have hcommands := hv commands hasks
  have hquiet : ∀ c ∈ commands, c.Quiet := fun c hc => (hcommands c hc).quiet fun _ h => h
  exact ⟨⟨isSome_leavingOut hquiet _ v v', bare_replies_filter hquiet hbare⟩,
    replies_heeds (fun _ h => h) hcommands hv⟩

/-! ### Executors that are replaced -/

/-- The executor at a place is the same in two workshops, and so are the time and the deadline. -/
structure SameAt (place : ℕ) (v v' : Workshop) : Prop where
  /-- The executor is the same. -/
  worker : ∃ worker, v.workers[place]? = some worker ∧ v'.workers[place]? = some worker
  /-- The time is the same. -/
  clock : v.clock = v'.clock
  /-- The deadline is the same. -/
  deadline : v.deadline = v'.deadline

theorem SameAt.keepsAt (h : SameAt place v v') (hv : KeepsAt place v w)
    (hv' : KeepsAt place v' w') : SameAt place w w' := by
  obtain ⟨worker, hworker, hworker'⟩ := h.worker
  exact ⟨⟨worker, hv.worker worker hworker, hv'.worker worker hworker'⟩,
    by rw [hv.clock, hv'.clock, h.clock], by rw [hv.deadline, hv'.deadline, h.deadline]⟩

/-- Where attendants do the same as far as an executor is concerned, it does not notice. -/
theorem unnoticed_sameAt {P : Workshop → Prop}
    (hP : ∀ {v v' : Workshop}, P v → v'.scripts = v.scripts → P v')
    (hattend : ∀ commands v v', v.MayAsk commands → P v → SameAt place v v' →
      ((a commands v).1.isSome = (a' commands v').1.isSome ∧
        SameAt place (a commands v).2 (a' commands v').2) ∧ P (a commands v).2) :
    Unnoticed a a' (fun v v' => SameAt place v v' ∧ P v) place where
  worker := by
    rintro v v' ⟨⟨⟨worker, hworker, hworker'⟩, -⟩, -⟩
    rw [hworker, hworker']
  clock hR := hR.1.clock
  deadline hR := hR.1.deadline
  wait hR clock := ⟨⟨hR.1.worker, rfl, hR.1.deadline⟩, hP hR.2 rfl⟩
  limit hR deadline := ⟨⟨hR.1.worker, hR.1.clock, rfl⟩, hP hR.2 rfl⟩
  note hR n := ⟨⟨hR.1.worker, hR.1.clock, hR.1.deadline⟩, hP hR.2 rfl⟩
  modify := by
    rintro v v' ⟨⟨⟨worker, hworker, hworker'⟩, hclock, hdeadline⟩, hv⟩ f hf
    refine ⟨⟨⟨f worker, ?_, ?_⟩, hclock, hdeadline⟩, hP hv (scripts_modifyWorker place hf v)⟩
    · simp [modifyWorker, hworker]
    · simp [modifyWorker, hworker']
  attend := by
    rintro v v' ⟨hsame, hv⟩ label call commands hasks
    have hdeeper : SameAt place { v with depth := v.depth + 1 } { v' with depth := v'.depth + 1 } :=
      ⟨hsame.worker, hsame.clock, hsame.deadline⟩
    obtain ⟨⟨hgot, hdone⟩, hv'⟩ :=
      hattend commands { v with depth := v.depth + 1 } _ (hasks.congr rfl) (hP hv rfl) hdeeper
    refine ⟨by rw [attend_fst, attend_fst, hgot], ⟨?_, ?_, ?_⟩,
      hP hv' (attend_scripts a label call commands v)⟩
    · rw [attend_workers, attend_workers]
      exact hdone.worker
    · rw [attend_clock, attend_clock]
      exact hdone.clock
    · rw [attend_deadline, attend_deadline]
      exact hsame.deadline

/-- The attempts of an executor come to the same with two attendants, however many are left,
whatever the number of the first of them and whatever has been done before. -/
def SameAttempts (a a' : Attendant) (place : ℕ) (w w' : Workshop) : Prop :=
  ∀ (r : Request) (s : Strategy) (left number : ℕ) (p : Progress),
    SameUpTo (fun x y => x.1.dropped = y.1.dropped ∧ x.2 = y.2)
      (tryRepeatedly (crew a).watched place r s left number p ({ shop := w }, []))
      (tryRepeatedly (crew a').watched place r s left number p ({ shop := w' }, []))

theorem Unnoticed.sameAttempts (h : Unnoticed a a' R place) (hR : R w w') :
    SameAttempts a a' place w w' := by
  intro r s left number p
  have hsame := (h.agreesOn r).watched.tryRepeatedly (x := ({ shop := w }, []))
    (y := ({ shop := w' }, [])) s left number p ⟨⟨hR, rfl⟩, rfl⟩
  exact ⟨hsame.outcome, hsame.progress, hsame.related.1.dropped, hsame.related.2⟩

/-- Two attendants do the same, as far as the executor at a place is concerned. -/
def DoAlikeAt (place : ℕ) (a a' : Attendant) : Prop :=
  ∀ commands v v', SameAt place v v' →
    (a commands v).1.isSome = (a' commands v').1.isSome ∧
      SameAt place (a commands v).2 (a' commands v').2

/-- The attempts of an executor come to the same with attendants that do the same, as far as it is
concerned. -/
theorem DoAlikeAt.sameAttempts (h : DoAlikeAt place a a') (hsame : SameAt place w w') :
    SameAttempts a a' place w w' :=
  (unnoticed_sameAt (P := fun _ => True) (fun _ _ => trivial)
    fun commands v v' _ _ hv => ⟨h commands v v' hv, trivial⟩).sameAttempts ⟨hsame, trivial⟩

/-- Executors are taken on, one after another, each for its strategy and under its label. -/
def seatAll (newcomers : List (Strategy × WorkerSpec Command × String)) (w : Workshop) :
    Workshop :=
  newcomers.foldl (fun w x => w.seat x.1 x.2.1 x.2.2) w

theorem keepsAt_seatAll (place : ℕ)
    (newcomers : List (Strategy × WorkerSpec Command × String)) (w : Workshop) :
    KeepsAt place w (w.seatAll newcomers) := by
  induction newcomers generalizing w with
  | nil => exact .refl place w
  | cons x rest ih => exact (keepsAt_seat place w x.1 x.2.1 x.2.2).trans (ih _)

/-- Taking on executors before and afterwards is doing the same, as far as any executor is concerned
that was there before. -/
theorem DoAlikeAt.seating (h : DoAlikeAt place a a')
    (before after : Workshop → List (Strategy × WorkerSpec Command × String)) :
    DoAlikeAt place a
      (meddling (fun w => w.seatAll (before w)) (fun w => w.seatAll (after w)) a') := by
  intro commands v v' hv
  have hbefore : SameAt place v (v'.seatAll (before v')) :=
    hv.keepsAt (.refl place v) (keepsAt_seatAll place _ v')
  obtain ⟨hgot, hdone⟩ := h commands v _ hbefore
  exact ⟨hgot, hdone.keepsAt (.refl place _) (keepsAt_seatAll place _ _)⟩

/-- In a session in which executors ask for nothing that engages executors, the attempts of one come
to the same whichever commands are left out that are asked for in their course. -/
theorem sameAttempts_leavingOut (levels : ℕ) (out : Command → Bool) (hw : Heeds Quiet w)
    (hplace : (w.workers[place]?).isSome) :
    SameAttempts (replies (perform levels)) (leavingOut out (replies (perform levels))) place w
      w := by
  obtain ⟨worker, hworker⟩ := Option.isSome_iff_exists.1 hplace
  refine (unnoticed_sameAt (P := Heeds Quiet) Heeds.congr ?_).sameAttempts
    ⟨⟨⟨worker, hworker, hworker⟩, rfl, rfl⟩, hw⟩
  intro commands v v' hasks hv hsame
  have hcommands := hv commands hasks
  have hquiet : ∀ c ∈ commands, c.Quiet := fun c hc => (hcommands c hc).quiet fun _ h => h
  exact ⟨⟨isSome_leavingOut hquiet out v v', hsame.keepsAt (replies_keepsAt hquiet place v)
    (replies_keepsAt (fun c hc => hquiet c (List.mem_of_mem_filter hc)) place v')⟩,
    replies_heeds (fun _ h => h) hcommands hv⟩

/-! ### The policy a step begins with -/

theorem updatePolicy_of_ok {u : PolicyUpdate} {p : Policy} (h : (w.updatePolicy u).1 = .ok p) :
    p = w.policy.update u ∧ (w.updatePolicy u).2.policy = p := by
  unfold updatePolicy at h ⊢
  dsimp only at h ⊢
  split at h <;> simp_all

theorem updatePolicy_of_error {u : PolicyUpdate} {f : Failure}
    (h : (w.updatePolicy u).1 = .error f) : (w.updatePolicy u).2.policy = w.policy := by
  unfold updatePolicy at h ⊢
  dsimp only at h ⊢
  split at h <;> [cases h; rfl]

/-- A step keeps the policy it began with. With attendants that do the same but for the policy, from
workshops with the same policy, it comes to the same: the result or failure with its trail, and the
exchanges, in order, each with its executor, its request and its time. Updating the policy any
number of times while executors are at work, accepted or not, is doing the same but for the policy;
and in sessions all updates may be left out that executors ask for. Every exchange is about the
request with the time that the policy gave as the step began. Likewise the attempts of an executor
that are left come to the same with attendants that do the same as far as it is concerned, which
includes taking on any number of executors in its place; and in sessions any commands may be left
out. A step that begins after an update was accepted is got done under the policy merged with that
update, whatever other commands came in between; a rejected update leaves the policy as it was. -/
theorem step_keeps_policy (step method : String) (inputs : Bindings) :
    (∀ a a' : Attendant, DoAlike a a' → ∀ w w', w.bare = w'.bare → w.policy = w'.policy →
      SameRun a a' step method inputs w w' ∧
        (executeStep a step method inputs w).2.bare =
          (executeStep a' step method inputs w').2.bare) ∧
    (∀ a a' : Attendant, DoAlike a a' → ∀ before after : Workshop → List PolicyUpdate,
      DoAlike a
        (meddling (fun w => w.updateAll (before w)) (fun w => w.updateAll (after w)) a')) ∧
    (∀ levels w, Heeds Quiet w →
      SameRun (replies (perform levels)) (leavingOut Command.isUpdate (replies (perform levels)))
        step method inputs w w) ∧
    (∀ a w, ∀ x ∈ exchanges a step method inputs w,
      x.request = ⟨step, method, inputs, w.policy.timeout⟩) ∧
    (∀ place (a a' : Attendant), DoAlikeAt place a a' → ∀ w w', SameAt place w w' →
      SameAttempts a a' place w w') ∧
    (∀ place (a a' : Attendant), DoAlikeAt place a a' →
      ∀ before after : Workshop → List (Strategy × WorkerSpec Command × String),
        DoAlikeAt place a
          (meddling (fun w => w.seatAll (before w)) (fun w => w.seatAll (after w)) a')) ∧
    (∀ levels place w, Heeds Quiet w → (w.workers[place]?).isSome → ∀ out,
      SameAttempts (replies (perform levels)) (leavingOut out (replies (perform levels))) place w
        w) ∧
    (∀ (w : Workshop) u p, (w.updatePolicy u).1 = .ok p → p = w.policy.update u ∧
      ∀ levels commands, (∀ c ∈ commands, c.Quiet ∧ c.isUpdate = false) → ∀ a v,
        v = (replies (perform levels) commands (w.updatePolicy u).2).2 →
          let done := Engine.run (crew a) (w.policy.update u) step method inputs { shop := v }
          executeStep a step method inputs v =
            (if done.2.dropped then none else some done.1, done.2.shop)) ∧
    ∀ (w : Workshop) u f, (w.updatePolicy u).1 = .error f →
      (w.updatePolicy u).2.policy = w.policy := by
  refine ⟨fun a a' h w w' hbare hpolicy => h.sameRun hbare hpolicy,
    fun a a' h before after => h.updating before after,
    fun levels w hw => sameRun_leavingOut_isUpdate levels hw,
    fun a w x hx => request_of_mem_exchanges hx,
    fun place a a' h w w' hsame => h.sameAttempts hsame,
    fun place a a' h before after => h.seating before after,
    fun levels place w hw hplace out => sameAttempts_leavingOut levels out hw hplace,
    fun w u p h => ⟨(updatePolicy_of_ok h).1, fun levels commands hcommands a v hv => ?_⟩,
    fun w u f h => updatePolicy_of_error h⟩
  obtain ⟨rfl, hpolicy⟩ := updatePolicy_of_ok h
  rw [executeStep, hv, replies_policy hcommands, hpolicy]

/-- An executor whose first attempt fails. In its course it asks for a policy with a single attempt,
which is accepted, and for one with none, which is not, and somebody takes its place. -/
def taster : WorkerSpec Command where
  work := .script "taster" [.error (.failed "too hot"), .ok (.succeeded .empty)] 0
  interludes :=
    [[.updatePolicy { attempts := some 1 }, .updatePolicy { attempts := some 0 },
      .seat .algorithmic ⟨.echo, []⟩ "guest"]]

/-- A workshop with this executor. -/
def tasting : Workshop :=
  seat (new {} (.shelf .empty) .own) .algorithmic taster "taster"

/-- The update that is accepted is in force afterwards, and yet the executor had its second attempt,
under the same request, just as when both updates are left out. -/
theorem step_keeps_policy_tasting :
    Heeds Quiet tasting ∧
      SameRun (replies (perform 1)) (leavingOut Command.isUpdate (replies (perform 1))) "taste" ""
        .empty tasting tasting ∧
      (executeStep (replies (perform 1)) "taste" "" .empty tasting).2.policy.attempts = 1 ∧
      (exchanges (replies (perform 1)) "taste" "" .empty tasting).map (·.who) = [0, 0] ∧
      (∀ x ∈ exchanges (replies (perform 1)) "taste" "" .empty tasting,
        x.request = ⟨"taste", "", .empty, 30000⟩) ∧
      SameAttempts (replies (perform 1)) (leavingOut (fun _ => true) (replies (perform 1))) 0
        tasting tasting := by
  have hquiet : Heeds Quiet tasting := by
    rintro commands ⟨script, hscript, hcommands⟩ c hc
    obtain rfl := List.mem_singleton.1 hscript
    obtain rfl := List.mem_singleton.1 hcommands
    simp only [List.mem_cons, List.not_mem_nil, or_false] at hc
    rcases hc with rfl | rfl | rfl
    · exact .mk rfl fun _ _ _ h => by cases h
    · exact .mk rfl fun _ _ _ h => by cases h
    · exact .mk rfl fun _ _ _ h => by cases h; simp
  obtain ⟨-, -, hsame, hrequest, -, -, hattempts, -, -⟩ := step_keeps_policy "taste" "" .empty
  exact ⟨hquiet, hsame 1 tasting hquiet, by decide +kernel, by decide +kernel, hrequest _ tasting,
    hattempts 1 0 tasting hquiet rfl _⟩

end Foreman.Workshop
