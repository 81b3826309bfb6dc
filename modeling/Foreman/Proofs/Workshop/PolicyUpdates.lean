import Foreman.Proofs.Engine.Trail
import Foreman.Proofs.Workshop.Snapshot
/-!
# Updates of the policy

An update is accepted if the policy stays workable by it, that is, if attempts are made then and
have time. It is then merged with the policy. Otherwise nothing becomes of it. So after any number
of updates each part of the policy is as the last accepted one says that set it, and a policy that
has become workable stays so, whatever else happens in the workshop. Under a workable policy no
strategy is passed over because no attempts are to be made.

## Main definitions

* `Foreman.Policy.Workable`: attempts are made, and have time.
* `Foreman.lastSet`, `Foreman.Policy.asLastSet`: what the last of some updates says that set a part
  of the policy.
* `Foreman.Workshop.accepted`: the updates that are accepted among some that are tried one after
  another.
* `Foreman.Engine.Unstarved`: a trail in which nothing was passed over for want of attempts.
* `Foreman.Workshop.Minds`: what is kept by whoever attends to executors.

## Main results

* `Foreman.Workshop.policy_updateAll`: the policy after some updates.
* `Foreman.Workshop.replies_minds`: what accepted updates keep of the policy, every session keeps.
* `Foreman.Workshop.updates_keep_policy_workable`: what updates do to the policy of a workshop, and
  what that means for the steps that are done afterwards.
-/

namespace Foreman

/-! ### Workable policies -/

/-- A policy under which something can be done. -/
structure Policy.Workable (p : Policy) : Prop where
  /-- Attempts are made. -/
  attempts : p.attempts ≠ 0
  /-- They have time. -/
  timeout : p.timeout ≠ 0

namespace Policy

variable {p : Policy}

theorem not_workable_iff : ¬ p.Workable ↔ p.attempts = 0 ∨ p.timeout = 0 := by
  constructor
  · intro h
    by_contra hne
    obtain ⟨hattempts, htimeout⟩ := not_or.1 hne
    exact h ⟨hattempts, htimeout⟩
  · rintro (hattempts | htimeout) h
    · exact h.attempts hattempts
    · exact h.timeout htimeout

theorem flaw?_eq_none_iff : p.flaw? = none ↔ p.Workable := by
  unfold flaw?
  split
  · next hattempts => simp [not_workable_iff.2 (.inl hattempts)]
  · next hattempts =>
    split
    · next htimeout => simp [not_workable_iff.2 (.inr htimeout)]
    · next htimeout => simp [Workable.mk hattempts htimeout]

end Policy

/-! ### What the last update says -/

/-- What a part of the policy comes to by some updates: what the last one says that sets it, or what
it was before, if none does. -/
def lastSet {α : Type} (part : PolicyUpdate → Option α) (updates : List PolicyUpdate) (before : α) :
    α :=
  (updates.reverse.findSome? part).getD before

theorem lastSet_cons {α : Type} (part : PolicyUpdate → Option α) (u : PolicyUpdate)
    (rest : List PolicyUpdate) (before : α) :
    lastSet part (u :: rest) before = lastSet part rest ((part u).getD before) := by
  simp only [lastSet, List.reverse_cons, List.findSome?_append, List.findSome?_singleton,
    Option.getD_or]

/-- The policy in which every part is as the last of some updates says that sets it. -/
def Policy.asLastSet (p : Policy) (updates : List PolicyUpdate) : Policy where
  chain := lastSet PolicyUpdate.chain updates p.chain
  humanOverride := lastSet PolicyUpdate.humanOverride updates p.humanOverride
  attempts := lastSet PolicyUpdate.attempts updates p.attempts
  timeout := lastSet PolicyUpdate.timeout updates p.timeout
  available := lastSet PolicyUpdate.available updates p.available

theorem Policy.asLastSet_cons (p : Policy) (u : PolicyUpdate) (rest : List PolicyUpdate) :
    p.asLastSet (u :: rest) = (p.update u).asLastSet rest := by
  simp only [asLastSet, lastSet_cons, update]

/-! ### Trails without a want of attempts -/

namespace Engine

variable {σ : Type u} {ε : Type v} {crew : Crew σ ε} {policy : Policy} {r : Request} {s : Strategy}

/-- No strategy was passed over because no attempts were to be made. -/
def Unstarved (trail : List TrailEntry) : Prop :=
  ∀ e ∈ trail, e.outcome ≠ .skipped Skip.noAttempts.message

/-- Different reasons to pass a strategy over have different wordings. -/
theorem Skip.eq_of_message_eq {why why' : Skip} (h : why.message = why'.message) : why = why' := by
  cases why <;> cases why' <;> simp_all [message]

theorem unstarved_of_wasMade {trail : List TrailEntry} (h : ∀ e ∈ trail, wasMade e = true) :
    Unstarved trail := by
  intro e he hskipped
  simpa [wasMade, hskipped] using h e he

theorem Exchange.unstarved_entries (s : Strategy) (first : Nat) (xs : List (Exchange ε)) :
    Unstarved (entries s first xs) := by
  refine unstarved_of_wasMade fun e he => ?_
  obtain ⟨⟨x, number⟩, -, rfl⟩ := List.mem_map.1 he
  exact x.wasMade_entry number

theorem Took.unstarved {w w' : σ} {t : Turn ε} (h : Took crew policy r s w t w')
    (hattempts : policy.attempts ≠ 0) : Unstarved t.entries := by
  cases h with
  | @passed why hwhy =>
    intro e he hskipped
    obtain rfl := List.mem_singleton.1 he
    obtain rfl : why = .noAttempts := Skip.eq_of_message_eq (Outcome.skipped.inj hskipped)
    generalize crew.seated w s = seat at hwhy
    cases hwhy with
    | noAttempts hadmits hzero => exact hattempts hzero
  | exhausted => exact Exchange.unstarved_entries s 1 _
  | succeeded => exact Exchange.unstarved_entries s 1 _

theorem Turns.unstarved {w w' : σ} {chain : List Strategy} {ts : List (Turn ε)}
    (h : Turns crew policy r w chain ts w') (hattempts : policy.attempts ≠ 0) :
    ∀ t ∈ ts, Unstarved t.entries := by
  intro t ht
  obtain ⟨s, v, v', htook⟩ := h.took_of_mem ht
  exact htook.unstarved hattempts

end Engine

/-- The trail that a failure tells of, if it tells of one. -/
def Failure.trails : Failure → List (List TrailEntry)
  | exhausted _ _ trail => [trail]
  | _ => []

/-- The trail that is told of when a step got done, or failed. -/
def stepTrails : Except Failure StepResult → List (List TrailEntry)
  | .ok result => [result.trail]
  | .error f => f.trails

/-- The trails on the record of a run. -/
def RunRecord.trails (r : RunRecord) : List (List TrailEntry) :=
  r.steps.filterMap fun t => t.result.map StepResult.trail

/-- Where attempts are to be made, nothing is passed over for want of them. -/
theorem Engine.unstarved_run {σ : Type u} {ε : Type v} (crew : Crew σ ε) {policy : Policy}
    (hattempts : policy.attempts ≠ 0) (step method : String) (inputs : Bindings) (w : σ) :
    ∀ trail ∈ stepTrails (run crew policy step method inputs w).1, Unstarved trail := by
  obtain ⟨ts, w', hturns, hchain⟩ := @tryChain_turns _ _ crew policy
    ⟨step, method, inputs, policy.timeout⟩ _ (List.Subset.refl policy.chain) {} w
  have hunstarved : Unstarved (ts.flatMap Turn.entries) := by
    intro e he
    obtain ⟨t, ht, het⟩ := List.mem_flatMap.1 he
    exact hturns.unstarved hattempts t ht e het
  rcases hwinner : winner? ts with _ | ⟨s, o⟩ <;>
    simpa [run, hchain, hwinner, stepTrails, Failure.trails, Progress.extend] using hunstarved

namespace RunRecord

variable (r : RunRecord)

theorem trails_begin (s : Step) (id : String) (now : Timestamp) :
    (r.begin s id now).trails = r.trails := by
  simp [trails, begin]

theorem trails_modifyLast {f : StepRecord → StepRecord} (hf : ∀ t, (f t).result = t.result) :
    (r.modifyLast f).trails = r.trails := by
  rcases List.eq_nil_or_concat' r.steps with h | ⟨earlier, last, h⟩
  · simp [trails, modifyLast, h]
  · rw [trails, steps_modifyLast h, trails, h, List.filterMap_append, List.filterMap_append]
    simp [List.filterMap_cons, hf]

theorem trails_supply (given : Allotment) (inputs : Bindings) :
    (r.supply given inputs).trails = r.trails :=
  r.trails_modifyLast fun _ => rfl

theorem trails_settle (failure : Option Failure) (now : Timestamp) :
    (r.settle failure now).trails = r.trails :=
  r.trails_modifyLast fun _ => by cases failure <;> rfl

theorem mem_trails_deliver {result : StepResult} {trail : List TrailEntry}
    (h : trail ∈ (r.deliver result).trails) : trail ∈ r.trails ∨ trail = result.trail := by
  rcases List.eq_nil_or_concat' r.steps with hsteps | ⟨earlier, last, hsteps⟩
  · simp [trails, deliver, modifyLast, hsteps] at h
  · rw [trails, deliver, steps_modifyLast hsteps, List.filterMap_append, List.mem_append] at h
    rw [trails, hsteps, List.filterMap_append, List.mem_append]
    rcases h with h | h
    · exact .inl (.inl h)
    · exact .inr (by simpa using h)

end RunRecord

namespace Workshop

open Engine (Unstarved)

variable {w : Workshop} {u : PolicyUpdate} {updates : List PolicyUpdate}

/-! ### Updates one after another -/

theorem updatePolicy_of_workable (h : (w.policy.update u).Workable) :
    w.updatePolicy u = (.ok (w.policy.update u), { w with policy := w.policy.update u }) := by
  unfold updatePolicy
  simp only [Policy.flaw?_eq_none_iff.2 h]

theorem updatePolicy_of_not_workable (h : ¬ (w.policy.update u).Workable) :
    ∃ flaw, (w.updatePolicy u).1 = .error (.flawedPolicy flaw) ∧
      (w.updatePolicy u).2.policy = w.policy := by
  obtain ⟨flaw, hflaw⟩ := Option.ne_none_iff_exists'.1 (mt Policy.flaw?_eq_none_iff.1 h)
  unfold updatePolicy
  simp only [hflaw]
  exact ⟨flaw, rfl, rfl⟩

/-- The updates that are accepted when the policy is updated again and again. -/
def accepted : List PolicyUpdate → Workshop → List PolicyUpdate
  | [], _ => []
  | u :: rest, w =>
    match w.updatePolicy u with
    | (.ok _, w) => u :: accepted rest w
    | (.error _, w) => accepted rest w

/-- After some updates every part of the policy is as the last accepted one says that set it. -/
theorem policy_updateAll (updates : List PolicyUpdate) (w : Workshop) :
    (w.updateAll updates).policy = w.policy.asLastSet (accepted updates w) := by
  induction updates generalizing w with
  | nil => rfl
  | cons u rest ih =>
    have hrest := ih (w.updatePolicy u).2
    rcases hu : w.updatePolicy u with ⟨f | p, w'⟩
    · have hkept : w'.policy = w.policy := by
        simpa [hu] using updatePolicy_of_error (congrArg Prod.fst hu)
      rw [hu, hkept] at hrest
      simpa only [updateAll, List.foldl_cons, accepted, hu] using hrest
    · obtain ⟨hp, hpolicy⟩ := updatePolicy_of_ok (congrArg Prod.fst hu)
      rw [hu] at hpolicy hrest
      rw [hpolicy, hp, ← Policy.asLastSet_cons] at hrest
      simpa only [updateAll, List.foldl_cons, accepted, hu] using hrest

/-! ### Whoever attends to executors -/

/-- Somebody attends to executors, and what held of the policy before holds of it afterwards. -/
def Minds (P : Policy → Prop) (attendant : Attendant) : Prop :=
  ∀ commands v, P v.policy → P (attendant commands v).2.policy

/-- A run has got somewhere: something holds of the policy, and something of all trails that its
record and its failure tell of. -/
structure Minded (P : Policy → Prop) (G : List TrailEntry → Prop)
    (x : RunRecord × Option (Option Failure) × Workshop) : Prop where
  /-- It holds of the policy. -/
  policy : P x.2.2.policy
  /-- It holds of the trails on record. -/
  record : ∀ trail ∈ x.1.trails, G trail
  /-- It holds of the trail of the failure. -/
  failure : ∀ f, x.2.1 = some (some f) → ∀ trail ∈ f.trails, G trail

variable {P : Policy → Prop} {G : List TrailEntry → Prop} {attendant : Attendant}

theorem policy_attend (label : String) (call : ℕ) (commands : List Command) (w : Workshop) :
    (attend attendant label call commands w).2.policy =
      (attendant commands { w with depth := w.depth + 1 }).2.policy := by
  unfold attend
  dsimp only
  split <;> rfl

theorem policy_respond (place : ℕ) (r : Request) (w : Workshop) :
    (respond place r w).2.policy = w.policy := by
  unfold respond
  split <;> rfl

theorem policy_abandon (run : RunRecord) (w : Workshop) : (w.abandon run).policy = w.policy := by
  have hreleased := steady_foldl (f := fun w record => (w.release (StepRecord.id record)).2)
    (fun _ _ => ⟨rfl, rfl⟩) run.steps (w.note (.runAbandoned run.id run.steps.length))
  exact hreleased.policy

theorem trails_of_allocate {step : String} {requirements : List Requirement} {f : Failure}
    (h : (w.allocate step requirements).1 = .error f) : f.trails = [] := by
  rw [allocate_fst] at h
  unfold Store.allocate at h
  split at h
  · cases h
  · obtain rfl := Except.error.inj h
    rfl

section Attended

variable (hattend : Minds P attendant)

include hattend

theorem labour_minds (place : ℕ) (worker : Worker) (r : Request) (h : P w.policy) :
    P (labour attendant place worker r w).2.policy := by
  have hbegun : P (beginCall attendant place worker w).2.policy := by
    unfold beginCall
    dsimp only
    split
    · exact h
    · rw [policy_attend]
      exact hattend _ _ h
  rcases hbegin : beginCall attendant place worker w with ⟨_ | _, v⟩ <;>
    rw [hbegin] at hbegun <;> simp only [labour, hbegin]
  · exact hbegun
  · split <;> exact hbegun

theorem callWorker_minds (limit : Option ℕ) (place : ℕ) (r : Request) (h : P w.policy) :
    P (callWorker attendant limit place r w).2.policy := by
  cases hworker : w.workers[place]? with
  | none => simpa only [callWorker, hworker] using h
  | some worker =>
    have hlaboured := labour_minds hattend place worker r
      (w := { w with deadline := w.deadline.merge min (limit.map (w.clock + ·)) }) h
    rcases hlabour : labour attendant place worker r
      { w with deadline := w.deadline.merge min (limit.map (w.clock + ·)) } with ⟨answers, v⟩
    rw [hlabour] at hlaboured
    rw [callWorker_of_labour hworker hlabour]
    split
    · rw [policy_respond]
      exact hlaboured
    · split <;> exact hlaboured

theorem executeStep_minds (step method : String) (inputs : Bindings) (h : P w.policy) :
    P (executeStep attendant step method inputs w).2.policy := by
  have hattempt (place : ℕ) (r : Request) (s : Shift) (hs : P s.shop.policy) :
      P ((crew attendant).attempt place r s).2.shop.policy := by
    rw [shop_attempt]
    exact callWorker_minds hattend (some r.timeout) place r hs
  have hreach := Engine.run_reaches (R := fun s s' : Shift => P s.shop.policy → P s'.shop.policy)
    (fun place r s => .single (hattempt place r s)) (fun _ _ => .single id) w.policy step method
    inputs { shop := w }
  exact holds_of_reflTransGen (P := fun s : Shift => P s.shop.policy) hreach h

theorem callDirectly_minds (label step method : String) (inputs : Bindings) (h : P w.policy) :
    P (callDirectly attendant label step method inputs w).2.policy := by
  unfold callDirectly
  split
  · exact h
  · next place _ =>
    have hcalled := callWorker_minds hattend none place ⟨step, method, inputs, directTimeout⟩ h
    dsimp only
    split <;> (next heq => rw [heq] at hcalled; exact hcalled)

variable (hstep : ∀ step method inputs v, P v.policy →
  ∀ result ∈ (executeStep attendant step method inputs v).1, ∀ trail ∈ stepTrails result, G trail)

include hstep

theorem allocateAndExecute_minds (run : RunRecord) (id : String) (s : Step) (h : P w.policy)
    (hrun : ∀ trail ∈ run.trails, G trail) :
    Minded P G (allocateAndExecute attendant run id s w) := by
  unfold allocateAndExecute
  rcases hgiven : w.allocate id s.requirements with ⟨f | given, v⟩
  · have hpolicy : v.policy = w.policy := congrArg (fun x => x.2.policy) hgiven.symm
    refine ⟨hpolicy ▸ h, hrun, fun f' hf' => ?_⟩
    obtain rfl := Option.some.inj (Option.some.inj hf')
    simp [trails_of_allocate (congrArg Prod.fst hgiven)]
  · have hpolicy : v.policy = w.policy := congrArg (fun x => x.2.policy) hgiven.symm
    have hv : P (v.publish (run.supply given (run.inputsFor s))).policy := hpolicy ▸ h
    have hworked := executeStep_minds hattend s.name s.method (run.inputsFor s) hv
    have htrails := hstep s.name s.method (run.inputsFor s) _ hv
    dsimp only
    rcases hresult : executeStep attendant s.name s.method (run.inputsFor s)
      (v.publish (run.supply given (run.inputsFor s))) with ⟨_ | f | result, v'⟩ <;>
      rw [hresult] at hworked htrails
    · exact ⟨hworked, (run.trails_supply given _).symm ▸ hrun, by simp⟩
    · refine ⟨hworked, (run.trails_supply given _).symm ▸ hrun, fun f' hf' => ?_⟩
      obtain rfl := Option.some.inj (Option.some.inj hf')
      exact htrails _ rfl
    · refine ⟨hworked, fun trail htrail => ?_, by simp⟩
      rcases RunRecord.mem_trails_deliver _ htrail with htrail | rfl
      · exact hrun trail (run.trails_supply given _ ▸ htrail)
      · exact htrails _ rfl _ (List.mem_singleton_self _)

theorem runStep_minds {run : RunRecord} (s : Step) (h : P w.policy)
    (hrun : ∀ trail ∈ run.trails, G trail) : Minded P G (runStep attendant run s w) := by
  have hbegun := allocateAndExecute_minds hattend hstep (w := (beginStep run s w).2.2)
    (beginStep run s w).2.1 (beginStep run s w).1 s h
    ((run.trails_begin s _ _).symm ▸ hrun)
  rcases hworked : allocateAndExecute attendant (beginStep run s w).2.1 (beginStep run s w).1 s
    (beginStep run s w).2.2 with ⟨run', _ | failure, v⟩ <;>
    rw [hworked] at hbegun <;> simp only [runStep, hworked]
  · exact hbegun
  · exact ⟨hbegun.policy, (RunRecord.trails_settle _ _ _).symm ▸ hbegun.record, hbegun.failure⟩

theorem runSteps_minds {run : RunRecord} (left : List Step) (h : P w.policy)
    (hrun : ∀ trail ∈ run.trails, G trail) : Minded P G (runSteps attendant run left w) := by
  have habandoned {run' : RunRecord} {v : Workshop} (hv : P v.policy)
      (hrun' : ∀ trail ∈ run'.trails, G trail) :
      Minded P G (run', some (some .shutDown), v.abandon run') := by
    refine ⟨(policy_abandon run' v).symm ▸ hv, hrun', fun f hf => ?_⟩
    obtain rfl := Option.some.inj (Option.some.inj hf)
    exact fun trail htrail => absurd htrail List.not_mem_nil
  induction left generalizing run w with
  | nil =>
    unfold runSteps
    split
    · exact habandoned h hrun
    · exact ⟨h, hrun, by simp⟩
  | cons s rest ih =>
    have hdone := runStep_minds hattend hstep s h hrun
    unfold runSteps
    split
    · exact habandoned h hrun
    · rcases hstepped : runStep attendant run s w with ⟨run', _ | _ | f, w'⟩ <;>
        rw [hstepped] at hdone
      · exact ⟨hdone.policy, hdone.record, by simp⟩
      · exact ih hdone.policy hdone.record
      · dsimp only
        split
        · exact habandoned hdone.policy hdone.record
        · exact ⟨hdone.policy, hdone.record, hdone.failure⟩

theorem carryOut_minds (playbook : Playbook) (input : Bindings) (h : P w.policy) :
    Minded P G (carryOut attendant playbook input w) :=
  runSteps_minds hattend hstep playbook.steps h fun _ htrail => absurd htrail List.not_mem_nil

end Attended

/-! ### Sessions -/

theorem minds_replies {one : Command → Workshop → Option Reply × Workshop}
    (hone : ∀ c v, P v.policy → P (one c v).2.policy) : Minds P (replies one) := by
  intro commands v h
  induction commands generalizing v with
  | nil => exact h
  | cons c rest ih =>
    have hfirst := hone c v h
    rcases hc : one c v with ⟨_ | r, v'⟩ <;> rw [hc] at hfirst <;> simp only [replies, hc]
    · exact hfirst
    · exact ih v' hfirst

section Session

variable (hP : ∀ p u, P p → (p.update u).Workable → P (p.update u))

include hP

theorem updatePolicy_minds (u : PolicyUpdate) (h : P w.policy) : P (w.updatePolicy u).2.policy := by
  by_cases hworkable : (w.policy.update u).Workable
  · rw [updatePolicy_of_workable hworkable]
    exact hP _ u h hworkable
  · obtain ⟨flaw, -, hpolicy⟩ := updatePolicy_of_not_workable hworkable
    exact hpolicy ▸ h

/-- What accepted updates keep of the policy every command keeps, if the attendant does. -/
theorem answer_minds (hattend : Minds P attendant) (c : Command) (h : P w.policy) :
    P (answer attendant c w).2.policy := by
  have hquiet (hc : c.Quiet) (hupdate : c.isUpdate = false) : P (answer attendant c w).2.policy :=
    (answer_steady attendant hc hupdate w).policy ▸ h
  cases c with
  | executeStep step method inputs =>
    rw [answer, orDropped_snd]
    exact executeStep_minds hattend step method inputs h
  | callWorker label step method inputs =>
    have hcalled := callDirectly_minds hattend label step method inputs h
    unfold answer
    dsimp only
    split <;> (next heq => rw [heq] at hcalled; exact hcalled)
  | executePlaybook name input =>
    rw [answer, orDropped_snd]
    unfold executePlaybook
    split
    · exact h
    · split
      · exact h
      · next playbook _ =>
        exact (carryOut_minds (G := fun _ => True) hattend (fun _ _ _ _ _ _ _ _ _ => trivial)
          playbook input h).policy
  | updatePolicy u =>
    rw [answer, orFailure_snd]
    exact updatePolicy_minds hP u h
  -- the other commands leave the policy alone
  | _ => exact hquiet rfl rfl

/-- What accepted updates keep of the policy every session keeps, at whatever depth. -/
theorem replies_minds (levels : ℕ) : Minds P (replies (perform levels)) := by
  induction levels with
  | zero =>
    have hnobody : Minds P fun _ w => (some [], w) := fun _ _ h => h
    exact minds_replies fun c v h => answer_minds hP (w := { v with interludes := [] }) hnobody c h
  | succ levels ih =>
    exact minds_replies fun c v h => answer_minds hP (w := { v with interludes := [] }) ih c h

end Session

/-! ### What updates do -/

theorem workable_replies (levels : ℕ) : Minds Policy.Workable (replies (perform levels)) :=
  replies_minds (fun _ _ _ h => h) levels

/-- At any time of a session the policy is what some updates make of it, one after another. -/
theorem exists_updates (levels : ℕ) (commands : List Command) (w : Workshop) :
    ∃ updates, (replies (perform levels) commands w).2.policy = (w.updateAll updates).policy := by
  refine replies_minds (P := fun p => ∃ updates, p = (w.updateAll updates).policy) ?_ levels
    commands w ⟨[], rfl⟩
  rintro p u ⟨updates, rfl⟩ hworkable
  have hlast : w.updateAll (updates ++ [u]) = ((w.updateAll updates).updatePolicy u).2 := by
    simp [updateAll]
  exact ⟨updates ++ [u], by rw [hlast, updatePolicy_of_workable hworkable]⟩

theorem workable_updateAll (updates : List PolicyUpdate) (h : w.policy.Workable) :
    (w.updateAll updates).policy.Workable := by
  induction updates generalizing w with
  | nil => exact h
  | cons u rest ih => exact ih (updatePolicy_minds (fun _ _ _ hworkable => hworkable) u h)

/-- Updates of the policy are atomic, and keep it workable. An update is refused, as a flawed
policy, if and only if the policy merged with it makes no attempts or gives no time; the policy is
then as it was. Otherwise the merged policy is returned, and is the policy from then on. Nothing
else changes. So after any number of updates each of the five parts of the policy is as the last
accepted one says that set it, or as it was in the beginning; and at any time of a session, whatever
executors ask for, the policy is what some updates make of it, one after another.

A workable policy stays so by any updates, and in any session. Whoever attends to executors, no
strategy is passed over for want of attempts then, when a step is got done or fails to be, nor in
the course of a run, as long as whoever attends keeps the policy workable, as every session does. -/
theorem updates_keep_policy_workable :
    (∀ (w : Workshop) (u : PolicyUpdate),
      ((∃ f, (w.updatePolicy u).1 = .error f) ↔
        (w.policy.update u).attempts = 0 ∨ (w.policy.update u).timeout = 0) ∧
      (∀ f, (w.updatePolicy u).1 = .error f →
        (∃ flaw, f = .flawedPolicy flaw) ∧ (w.updatePolicy u).2.policy = w.policy) ∧
      (∀ p, (w.updatePolicy u).1 = .ok p →
        p = w.policy.update u ∧ (w.updatePolicy u).2.policy = w.policy.update u) ∧
      (w.updatePolicy u).2.bare = w.bare) ∧
    (∀ (w : Workshop) updates,
      (w.updateAll updates).policy = w.policy.asLastSet (accepted updates w)) ∧
    (∀ levels commands w, ∃ updates,
      (replies (perform levels) commands w).2.policy = (w.updateAll updates).policy) ∧
    (∀ w : Workshop, w.policy.Workable →
      (∀ updates, (w.updateAll updates).policy.Workable) ∧
      (∀ levels commands, (replies (perform levels) commands w).2.policy.Workable) ∧
      ∀ attendant,
        (∀ step method inputs, ∀ result ∈ (executeStep attendant step method inputs w).1,
          ∀ trail ∈ stepTrails result, Unstarved trail) ∧
        (Minds Policy.Workable attendant → ∀ playbook input,
          Minded Policy.Workable Unstarved (carryOut attendant playbook input w))) ∧
    ∀ levels, Minds Policy.Workable (replies (perform levels)) := by
  have hstep (attendant : Attendant) (step method : String) (inputs : Bindings) (v : Workshop)
      (hv : v.policy.Workable) : ∀ result ∈ (executeStep attendant step method inputs v).1,
        ∀ trail ∈ stepTrails result, Unstarved trail := by
    intro result hresult
    rw [← run_of_executeStep hresult]
    exact Engine.unstarved_run (crew attendant) hv.attempts step method inputs { shop := v }
  refine ⟨fun w u => ?_, fun w updates => policy_updateAll updates w,
    fun levels commands w => exists_updates levels commands w,
    fun w hw => ⟨fun updates => workable_updateAll updates hw,
      fun levels commands => workable_replies levels commands w hw,
      fun attendant => ⟨fun step method inputs => hstep attendant step method inputs w hw,
        fun hattend playbook input => carryOut_minds hattend (hstep attendant) playbook input hw⟩⟩,
    workable_replies⟩
  refine ⟨?_, fun f hf => ?_, fun p hp => ?_, bare_updatePolicy u w⟩
  · rw [← Policy.not_workable_iff]
    constructor
    · rintro ⟨f, hf⟩ hworkable
      rw [updatePolicy_of_workable hworkable] at hf
      cases hf
    · intro hflawed
      obtain ⟨flaw, hrefused, -⟩ := updatePolicy_of_not_workable hflawed
      exact ⟨_, hrefused⟩
  · by_cases hworkable : (w.policy.update u).Workable
    · rw [updatePolicy_of_workable hworkable] at hf
      cases hf
    · obtain ⟨flaw, hrefused, hpolicy⟩ := updatePolicy_of_not_workable hworkable
      rw [hrefused] at hf
      exact ⟨⟨flaw, (Except.error.inj hf).symm⟩, hpolicy⟩
  · obtain ⟨rfl, hpolicy⟩ := updatePolicy_of_ok hp
    exact ⟨rfl, hpolicy⟩

/-- A workshop with one executor, whose policy makes no attempts. -/
def resting : Workshop :=
  seat (new { policy := { Policy.standard with attempts := 0 } } (.shelf .empty) .own) .algorithmic
    ⟨.echo, []⟩ "helper"

/-- Four updates, of which the second and the last are accepted. -/
def awakening : List PolicyUpdate :=
  [{ timeout := some 5000 }, { chain := some [.algorithmic], attempts := some 2 },
    { humanOverride := some false, attempts := some 0 }, { timeout := some 100 }]

/-- Before the updates the step is not even attempted. The first and the third leave no trace; after
all four the policy is workable, and the step is attempted. -/
theorem updates_keep_policy_workable_resting :
    (executeStep (replies (perform 0)) "fetch" "" .empty resting).1.map
        (fun result => (stepTrails result).map fun trail => trail.map TrailEntry.outcome) =
      some [[.skipped "retry budget is zero", .skipped "no executor registered",
        .skipped "no executor registered"]] ∧
    (∃ f, (resting.updatePolicy { timeout := some 5000 }).1 = .error f) ∧
    (resting.updateAll awakening).policy =
      ⟨[.algorithmic], true, 2, 100, [.algorithmic, .ai, .human]⟩ ∧
    (resting.updateAll awakening).policy.Workable ∧
    (∀ commands, (replies (perform 1) commands (resting.updateAll awakening)).2.policy.Workable) ∧
    ∃ result ∈
        (executeStep (replies (perform 0)) "fetch" "" .empty (resting.updateAll awakening)).1,
      ∀ trail ∈ stepTrails result, Unstarved trail := by
  obtain ⟨hone, hall, -, hworkable, -⟩ := updates_keep_policy_workable
  obtain ⟨hrefused, -, -, -⟩ := hone resting { timeout := some 5000 }
  have hawake : (resting.updateAll awakening).policy.Workable :=
    ⟨by decide, by decide⟩
  obtain ⟨-, hsessions, hattended⟩ := hworkable _ hawake
  have hdone : (executeStep (replies (perform 0)) "fetch" "" .empty
      (resting.updateAll awakening)).1.isSome := by decide +kernel
  obtain ⟨result, hresult⟩ := Option.isSome_iff_exists.1 hdone
  refine ⟨by decide +kernel, hrefused.2 (.inl (by decide)), ?_, hawake, hsessions 1, result,
    hresult, (hattended _).1 "fetch" "" .empty result hresult⟩
  rw [hall]
  decide

end Workshop

end Foreman
