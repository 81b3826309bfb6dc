import Foreman.Proofs.Workshop.Deadline
import Foreman.Proofs.Workshop.Proceeding
/-!
# What the policy matters to

Commands in the course of which no executor is at work do not look at the policy, except to tell of
it, and only updates change it. So two workshops that differ in nothing but the policy still do so
after the same commands, and after updates of the policy by any of them. None of these commands lets
time pass, changes an executor that was taken on before, or is ever dropped.

## Main definitions

* `Foreman.Workshop.bare`: a workshop without its policy.
* `Foreman.Command.isUpdate`, `Foreman.Command.Quiet`: updates of the policy, and commands in the
  course of which no executor is at work.
* `Foreman.Workshop.KeepsAt`: the executor at a place, and the time, stay as they are.

## Main results

* `Foreman.Workshop.bare_answer`: what a command does to everything but the policy.
* `Foreman.Workshop.answer_steady`: commands that are no updates keep time and policy.
* `Foreman.Workshop.bare_replies_filter`: leaving out updates changes nothing but the policy.
-/

namespace Foreman

namespace Command

/-- Whether a command is to change the policy. -/
def isUpdate : Command → Bool
  | updatePolicy _ => true
  | _ => false

/-- No executor is at work in the course of a command. -/
def Quiet (c : Command) : Prop :=
  Workshop.engages c = false

theorem Throughout.quiet {allowed : Command → Prop} {c : Command} (h : c.Throughout allowed)
    (hallowed : ∀ c, allowed c → c.Quiet) : c.Quiet := by
  obtain ⟨hc, -⟩ := h
  exact hallowed c hc

end Command

namespace Workshop

open Command (Quiet)

variable {place : ℕ} {v v' w w' w'' : Workshop}

/-! ### Everything but the policy -/

/-- A workshop without its policy, its journal, and what executors have asked. -/
def bare (w : Workshop) : Workshop :=
  { w with policy := .standard, journal := [], interludes := [] }

/-- What does not look at the policy is the same in workshops that differ in nothing else. -/
theorem eq_of_bare_eq {β : Type} (g : Workshop → β) (hg : ∀ w, g w.bare = g w)
    (h : v.bare = v'.bare) : g v = g v' := by
  rw [← hg v, ← hg v', h]

theorem bare_updatePolicy (u : PolicyUpdate) (w : Workshop) :
    (w.updatePolicy u).2.bare = w.bare := by
  unfold updatePolicy
  dsimp only
  split <;> rfl

/-- Whatever is computed without regard to the policy comes to the same in workshops that differ in
nothing but the policy. -/
theorem bare_congr {f : Workshop → Workshop} (hf : ∀ w, (f w).bare = (f w.bare).bare)
    (h : v.bare = v'.bare) : (f v).bare = (f v').bare := by
  rw [hf v, hf v', h]

theorem bare_foldl {α : Type} {f : Workshop → α → Workshop}
    (hf : ∀ w a, (f w a).bare = (f w.bare a).bare) (as : List α) (h : v.bare = v'.bare) :
    (as.foldl f v).bare = (as.foldl f v').bare := by
  induction as generalizing v v' with
  | nil => exact h
  | cons a rest ih => exact ih (bare_congr (fun w => hf w a) h)

theorem bare_define (k : ResourceKind) (w : Workshop) :
    (w.define k).2.bare = (w.bare.define k).2.bare := by
  have hwiring : w.bare.wiring = w.wiring := rfl
  simp only [define, publishOffers, hwiring]
  cases w.wiring <;> rfl

theorem bare_registerManifest (m : Manifest) (w : Workshop) :
    (w.registerManifest m).2.bare = (w.bare.registerManifest m).2.bare := by
  have hnoted :
      (w.noteAll (m.rejected.map fun r => .malformedEntry r.heading r.index r.reason)).bare =
      (w.bare.noteAll (m.rejected.map fun r => .malformedEntry r.heading r.index r.reason)).bare :=
    rfl
  have hcapabilities := bare_foldl
    (f := fun w c => ((if c.name.isEmpty then w.note .namelessCapability else w).file
      (.capability c)).2) (fun w c => by split <;> rfl) m.capabilities hnoted
  have hresponsibilities := bare_foldl
    (f := fun w r => ((if r.capability.name.isEmpty then w.note .namelessResponsibility else w).file
      (.responsibility r)).2) (fun w r => by split <;> rfl) m.responsibilities hcapabilities
  have hdefined := bare_foldl
    (f := fun w k => if k.name.isEmpty then w.note .namelessKind else (w.define k).2) (fun w k => by
      split
      · rfl
      · exact bare_define k w) m.resources hresponsibilities
  refine bare_congr (f := fun v => if v.wiring = .own then v else
      { v.noteAll (Store.allCycleNotices v.store.kinds) with
        market := v.market.replaceProviders v.store.kinds.advertised }) (fun v => ?_) hdefined
  have hwiring : v.bare.wiring = v.wiring := rfl
  simp only [hwiring]
  split <;> rfl

theorem registerAs_snd (kind : String) (attributes : Bindings) (nickname : Option String)
    (w : Workshop) : (registerAs kind attributes nickname w).2 =
      match (w.register kind attributes).1, nickname with
      | .ok id, some name =>
        { (w.register kind attributes).2 with
          nicknames := (w.register kind attributes).2.nicknames.insert name id }
      | _, _ => (w.register kind attributes).2 := by
  unfold registerAs
  rcases w.register kind attributes with ⟨_ | id, v⟩ <;> cases nickname <;> rfl

theorem bare_shutdown (w : Workshop) : w.shutdown.bare = w.bare.shutdown.bare := by
  have hclosed : { w with ledger := w.ledger.close }.bare =
      { w.bare with ledger := w.ledger.close }.bare := rfl
  have hreleased := bare_foldl (f := fun w id => (w.release id).2) (fun _ _ => rfl)
    (runningSteps w.ledger.active) hclosed
  exact bare_congr (f := clear) (fun _ => rfl) hreleased

/-- What a command does to everything but the policy, it does without regard to the policy. -/
theorem bare_answer (b b' : Attendant) {c : Command} (hc : c.Quiet) (w : Workshop) :
    (answer b c w).2.bare = (answer b' c w.bare).2.bare := by
  cases c with
  | executeStep _ _ _ | callWorker _ _ _ _ | executePlaybook _ _ => cases hc
  | registerManifest source =>
    cases source with
    | given m => exact bare_registerManifest m w
    | text format s =>
      simp only [answer, registerSource]
      cases Manifest.ofText format s with
      | ok m => exact bare_registerManifest m w
      | error f => rfl
  | define k => exact bare_define k w
  | register kind attributes nickname =>
    have hsame : (w.bare.register kind attributes).1 = (w.register kind attributes).1 := rfl
    rw [answer, answer, registerAs_snd, registerAs_snd, hsame]
    cases (w.register kind attributes).1 <;> cases nickname <;> rfl
  | updatePolicy u =>
    rw [answer, answer, orFailure_snd, orFailure_snd, bare_updatePolicy, bare_updatePolicy]
    rfl
  | allocate step requirements =>
    rw [answer, answer, orFailure_snd, orFailure_snd]
    rfl
  | loadPlaybook name =>
    rw [answer, answer, orFailure_snd, orFailure_snd]
    rfl
  | shutdown => exact bare_shutdown w
  | effective name | playbookNames | describe subject =>
    unfold answer
    dsimp only
    split <;> split <;> rfl
  | _ => rfl

/-! ### Time and policy -/

/-- The time, and the policy, stay as they are. -/
structure Steady (w w' : Workshop) : Prop where
  /-- The time is the same. -/
  clock : w'.clock = w.clock
  /-- The policy is the same. -/
  policy : w'.policy = w.policy

theorem Steady.trans (h : Steady w w') (h' : Steady w' w'') : Steady w w'' :=
  ⟨h'.clock.trans h.clock, h'.policy.trans h.policy⟩

theorem steady_foldl {α : Type} {f : Workshop → α → Workshop} (hf : ∀ w a, Steady w (f w a))
    (as : List α) (w : Workshop) : Steady w (as.foldl f w) := by
  induction as generalizing w with
  | nil => exact ⟨rfl, rfl⟩
  | cons a rest ih => exact (hf w a).trans (ih (f w a))

theorem steady_define (k : ResourceKind) (w : Workshop) : Steady w (w.define k).2 := by
  simp only [define, publishOffers]
  split <;> exact ⟨rfl, rfl⟩

theorem steady_registerManifest (m : Manifest) (w : Workshop) :
    Steady w (w.registerManifest m).2 := by
  have hcapabilities (v : Workshop) : Steady v (v.fileCapabilities m.capabilities) :=
    steady_foldl (fun w c => by split <;> exact ⟨rfl, rfl⟩) _ v
  have hresponsibilities (v : Workshop) :
      Steady v (v.fileResponsibilities m.responsibilities) :=
    steady_foldl (fun w c => by split <;> exact ⟨rfl, rfl⟩) _ v
  have hdefined (v : Workshop) : Steady v (v.defineAll m.resources) := by
    refine steady_foldl (fun w k => ?_) _ v
    split
    · exact ⟨rfl, rfl⟩
    · exact steady_define k w
  have hall (v : Workshop) : Steady v (((v.fileCapabilities m.capabilities).fileResponsibilities
      m.responsibilities).defineAll m.resources) :=
    ((hcapabilities v).trans (hresponsibilities _)).trans (hdefined _)
  have hnoted : Steady w (w.noteAll (m.rejected.map fun r =>
    .malformedEntry r.heading r.index r.reason)) := ⟨rfl, rfl⟩
  unfold registerManifest
  dsimp only
  split
  · exact hnoted.trans (hall _)
  · exact (hnoted.trans (hall _)).trans ⟨rfl, rfl⟩

/-- A command that is no update, and in the course of which no executor is at work, keeps time and
policy. -/
theorem answer_steady (attendant : Attendant) {c : Command} (hc : c.Quiet)
    (hupdate : c.isUpdate = false) (w : Workshop) : Steady w (answer attendant c w).2 := by
  cases c with
  | executeStep _ _ _ | callWorker _ _ _ _ | executePlaybook _ _ => cases hc
  | updatePolicy u => cases hupdate
  | registerManifest source =>
    cases source with
    | given m => exact steady_registerManifest m w
    | text format s =>
      simp only [answer, registerSource]
      cases Manifest.ofText format s with
      | ok m => exact steady_registerManifest m w
      | error f => exact ⟨rfl, rfl⟩
  | define k => exact steady_define k w
  | register kind attributes nickname =>
    rw [answer, registerAs_snd]
    split <;> exact ⟨rfl, rfl⟩
  | allocate step requirements =>
    rw [answer, orFailure_snd]
    exact ⟨rfl, rfl⟩
  | loadPlaybook name =>
    rw [answer, orFailure_snd]
    exact ⟨rfl, rfl⟩
  | shutdown =>
    have hreleased := steady_foldl (f := fun w id => (w.release id).2) (fun _ _ => ⟨rfl, rfl⟩)
      (runningSteps w.ledger.active) { w with ledger := w.ledger.close }
    exact ⟨hreleased.clock, hreleased.policy⟩
  | effective name | playbookNames | describe subject =>
    unfold answer
    dsimp only
    split <;> exact ⟨rfl, rfl⟩
  | _ => exact ⟨rfl, rfl⟩

/-! ### The executor at a place -/

/-- The executor at a place, the time and the deadline stay as they are. -/
structure KeepsAt (place : ℕ) (w w' : Workshop) : Prop where
  /-- The executor is the same. -/
  worker : ∀ worker, w.workers[place]? = some worker → w'.workers[place]? = some worker
  /-- The time is the same. -/
  clock : w'.clock = w.clock
  /-- The deadline is the same. -/
  deadline : w'.deadline = w.deadline

theorem KeepsAt.refl (place : ℕ) (w : Workshop) : KeepsAt place w w :=
  ⟨fun _ h => h, rfl, rfl⟩

theorem KeepsAt.trans (h : KeepsAt place w w') (h' : KeepsAt place w' w'') :
    KeepsAt place w w'' :=
  ⟨fun worker hworker => h'.worker worker (h.worker worker hworker), h'.clock.trans h.clock,
    h'.deadline.trans h.deadline⟩

/-- Taking on an executor, in place of another or not, changes none of those there are. -/
theorem keepsAt_seat (place : ℕ) (w : Workshop) (strategy : Strategy) (spec : WorkerSpec Command)
    (label : String) : KeepsAt place w (w.seat strategy spec label) where
  worker worker hworker := by
    obtain ⟨hlt, rfl⟩ := List.getElem?_eq_some_iff.1 hworker
    simp [Workshop.seat, List.getElem?_append_left hlt]
  clock := rfl
  deadline := rfl

/-- No command in the course of which no executor is at work changes the executors there are. -/
theorem answer_keepsAt (attendant : Attendant) {c : Command} (hc : c.Quiet) (place : ℕ)
    (w : Workshop) : KeepsAt place w (answer attendant c w).2 := by
  by_cases hseat : ∃ strategy worker label, c = .seat strategy worker label
  · obtain ⟨strategy, worker, label, rfl⟩ := hseat
    exact keepsAt_seat place w strategy worker label
  · have hsame := answer_sameCrew attendant c w hc fun strategy worker label h =>
      hseat ⟨strategy, worker, label, h⟩
    refine ⟨?_, hsame.clock, hsame.deadline⟩
    rw [hsame.workers]
    exact fun _ h => h

/-! ### Commands one after another -/

variable {levels : ℕ} {commands : List Command} {c : Command}

theorem bare_answer_congr (b b' : Attendant) (hc : c.Quiet) (h : v.bare = v'.bare) :
    (answer b c v).2.bare = (answer b' c v').2.bare := by
  rw [bare_answer b b' hc v, bare_answer b' b' hc v', h]

/-- Carrying out a command at any level is replying to it, whoever attends to executors then. -/
theorem exists_perform_eq (levels : ℕ) : ∃ b, perform levels = reply b := by
  cases levels with
  | zero => exact ⟨_, rfl⟩
  | succ levels => exact ⟨_, rfl⟩

theorem bare_perform (hc : c.Quiet) (h : v.bare = v'.bare) :
    (perform levels c v).2.bare = (perform levels c v').2.bare := by
  obtain ⟨b, hb⟩ := exists_perform_eq levels
  have hfresh : { v with interludes := [] }.bare = { v' with interludes := [] }.bare := h
  rw [hb]
  exact bare_answer_congr b b hc hfresh

theorem bare_perform_of_isUpdate (hupdate : c.isUpdate = true) :
    (perform levels c v).2.bare = v.bare := by
  obtain ⟨b, hb⟩ := exists_perform_eq levels
  have hanswer : (answer b c { v with interludes := [] }).2.bare = v.bare := by
    cases c with
    | updatePolicy u =>
      rw [answer, orFailure_snd]
      exact bare_updatePolicy u _
    | _ => cases hupdate
  rw [hb]
  exact hanswer

/-- A command in the course of which no executor is at work is answered. -/
theorem isSome_perform (levels : ℕ) (hc : c.Quiet) (v : Workshop) :
    (perform levels c v).1.isSome := by
  obtain ⟨b, hb⟩ := exists_perform_eq levels
  rw [hb, reply, Option.isSome_map]
  exact isSome_answer b hc

/-- So those that come after it are carried out too. -/
theorem exists_replies_cons (levels : ℕ) (hc : c.Quiet) (rest : List Command) (v : Workshop) :
    ∃ r, replies (perform levels) (c :: rest) v =
      ((replies (perform levels) rest (perform levels c v).2).1.map (r :: ·),
        (replies (perform levels) rest (perform levels c v).2).2) := by
  obtain ⟨r, hr⟩ := Option.isSome_iff_exists.1 (isSome_perform levels hc v)
  rcases hfirst : perform levels c v with ⟨r', v'⟩
  obtain rfl : r' = some r := by simpa [hfirst] using hr
  exact ⟨r, by simp [replies, hfirst]⟩

theorem replies_cons_snd (hc : c.Quiet) (rest : List Command) (v : Workshop) :
    (replies (perform levels) (c :: rest) v).2 =
      (replies (perform levels) rest (perform levels c v).2).2 := by
  obtain ⟨r, hr⟩ := exists_replies_cons levels hc rest v
  rw [hr]

theorem isSome_replies (hcommands : ∀ c ∈ commands, c.Quiet) (v : Workshop) :
    (replies (perform levels) commands v).1.isSome := by
  induction commands generalizing v with
  | nil => rfl
  | cons c rest ih =>
    obtain ⟨hc, hrest⟩ := List.forall_mem_cons.1 hcommands
    obtain ⟨r, hr⟩ := exists_replies_cons levels hc rest v
    rw [hr, Option.isSome_map]
    exact ih hrest _

/-- Updates that are left out make no difference to anything but the policy. -/
theorem bare_replies_filter (hcommands : ∀ c ∈ commands, c.Quiet) (h : v.bare = v'.bare) :
    (replies (perform levels) commands v).2.bare =
      (replies (perform levels) (commands.filter fun c => !c.isUpdate) v').2.bare := by
  induction commands generalizing v v' with
  | nil => exact h
  | cons c rest ih =>
    obtain ⟨hc, hrest⟩ := List.forall_mem_cons.1 hcommands
    rw [replies_cons_snd hc]
    by_cases hupdate : c.isUpdate
    · rw [List.filter_cons_of_neg (by simpa using hupdate)]
      exact ih hrest ((bare_perform_of_isUpdate hupdate).trans h)
    · rw [List.filter_cons_of_pos (by simpa using hupdate), replies_cons_snd hc]
      exact ih hrest (bare_perform hc h)

theorem perform_keepsAt (hc : c.Quiet) (place : ℕ) (v : Workshop) :
    KeepsAt place v (perform levels c v).2 := by
  obtain ⟨b, hb⟩ := exists_perform_eq levels
  have hanswer := answer_keepsAt b hc place { v with interludes := [] }
  rw [hb]
  exact ⟨hanswer.worker, hanswer.clock, hanswer.deadline⟩

theorem replies_keepsAt (hcommands : ∀ c ∈ commands, c.Quiet) (place : ℕ) (v : Workshop) :
    KeepsAt place v (replies (perform levels) commands v).2 := by
  induction commands generalizing v with
  | nil => exact .refl place v
  | cons c rest ih =>
    obtain ⟨hc, hrest⟩ := List.forall_mem_cons.1 hcommands
    rw [replies_cons_snd hc]
    exact (perform_keepsAt hc place v).trans (ih hrest _)

/-- The policy stays as it is while there are no updates. -/
theorem replies_policy (hcommands : ∀ c ∈ commands, c.Quiet ∧ c.isUpdate = false) (v : Workshop) :
    (replies (perform levels) commands v).2.policy = v.policy := by
  induction commands generalizing v with
  | nil => rfl
  | cons c rest ih =>
    obtain ⟨⟨hc, hupdate⟩, hrest⟩ := List.forall_mem_cons.1 hcommands
    obtain ⟨b, hb⟩ := exists_perform_eq levels
    have hfirst : (perform levels c v).2.policy = v.policy := by
      rw [hb]
      exact (answer_steady b hc hupdate { v with interludes := [] }).policy
    rw [replies_cons_snd hc]
    exact (ih hrest _).trans hfirst

/-- While no executor is at work, executors that are taken on ask for what is allowed. -/
theorem perform_heeds {allowed : Command → Prop} (hallowed : ∀ c, allowed c → c.Quiet)
    (hc : c.Throughout allowed) (hv : Heeds allowed v) : Heeds allowed (perform levels c v).2 := by
  have hquiet := hc.quiet hallowed
  obtain ⟨b, hb⟩ := exists_perform_eq levels
  have hfresh : Heeds allowed { v with interludes := [] } := hv.congr rfl
  have hanswer : Heeds allowed (answer b c { v with interludes := [] }).2 := by
    cases c with
    | seat strategy worker label => exact hfresh.seat hc
    | _ => exact hfresh.congr (answer_sameCrew b _ _ hquiet (by simp)).scripts
  rw [hb]
  exact hanswer.congr rfl

theorem replies_heeds {allowed : Command → Prop} (hallowed : ∀ c, allowed c → c.Quiet)
    (hcommands : ∀ c ∈ commands, c.Throughout allowed) (hv : Heeds allowed v) :
    Heeds allowed (replies (perform levels) commands v).2 := by
  induction commands generalizing v with
  | nil => exact hv
  | cons c rest ih =>
    obtain ⟨hc, hrest⟩ := List.forall_mem_cons.1 hcommands
    rw [replies_cons_snd (hc.quiet hallowed)]
    exact ih hrest (perform_heeds hallowed hc hv)

end Workshop

end Foreman
