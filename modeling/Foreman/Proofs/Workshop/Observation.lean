import Foreman.Proofs.Workshop.Story
/-!
# What is seen

Every answer that can be seen in a session was given on a floor that has a story: to a command of
the session itself, or to a command that an executor gave, at whatever depth. While executors ask
for things, every run under way is at work on a step. So what holds on all such floors holds of all
that is ever seen.

## Main definitions

* `Foreman.Reply.Shows`: an answer is shown in a reply, at whatever depth.
* `Foreman.Floor.Waiting`: executors are at work on all runs under way.
* `Foreman.Floor.Seen`: an answer was given on a floor that the story has got to.

## Main results

* `Foreman.Workshop.replies_seen`: whatever the replies to some commands show was given on such a
  floor.
-/

namespace Foreman

/-- An answer is shown in a reply: it answers the command, or one that an executor gave in its
course. -/
inductive Reply.Shows : Reply → Answer → Prop
  | here {a instances interludes alarms} : Shows (.mk a instances interludes alarms) a
  | within {a b : Answer} {instances interludes alarms} {i : Interlude Reply} {r : Reply}
      (hi : i ∈ interludes) (hr : r ∈ i.replies) (h : Shows r b) :
      Shows (.mk a instances interludes alarms) b

namespace Workshop

/-! ### Nobody is asked -/

/-- The executors stay as they are, nobody is asked for anything, and no time passes. -/
structure SameCrew (w w' : Workshop) : Prop where
  /-- The executors are the same. -/
  workers : w'.workers = w.workers
  /-- What they asked for and were told stays on record. -/
  interludes : w'.interludes = w.interludes
  /-- The time is the same. -/
  clock : w'.clock = w.clock
  /-- So is the deadline. -/
  deadline : w'.deadline = w.deadline

theorem SameCrew.trans {w w' w'' : Workshop} (h : SameCrew w w') (h' : SameCrew w' w'') :
    SameCrew w w'' :=
  ⟨h'.workers.trans h.workers, h'.interludes.trans h.interludes, h'.clock.trans h.clock,
    h'.deadline.trans h.deadline⟩

theorem SameCrew.scripts {w w' : Workshop} (h : SameCrew w w') : w'.scripts = w.scripts :=
  congrArg (List.map Worker.interludes) h.workers

theorem sameCrew_foldl {α : Type} {f : Workshop → α → Workshop}
    (hf : ∀ w a, SameCrew w (f w a)) (as : List α) (w : Workshop) : SameCrew w (as.foldl f w) := by
  induction as generalizing w with
  | nil => exact ⟨rfl, rfl, rfl, rfl⟩
  | cons a rest ih => exact (hf w a).trans (ih (f w a))

theorem sameCrew_releaseAll {α : Type} (id : α → String) (as : List α) (w : Workshop) :
    SameCrew w (as.foldl (fun w a => (w.release (id a)).2) w) :=
  sameCrew_foldl (f := fun w a => (w.release (id a)).2) (fun _ _ => ⟨rfl, rfl, rfl, rfl⟩) as w

theorem sameCrew_publishOffers (w : Workshop) : SameCrew w w.publishOffers := by
  unfold publishOffers
  split <;> exact ⟨rfl, rfl, rfl, rfl⟩

theorem sameCrew_define (k : ResourceKind) (w : Workshop) : SameCrew w (w.define k).2 := by
  have hdefined : SameCrew w { w with store := w.store.define k } := ⟨rfl, rfl, rfl, rfl⟩
  exact hdefined.trans (sameCrew_publishOffers _)

theorem sameCrew_registerManifest (m : Manifest) (w : Workshop) :
    SameCrew w (w.registerManifest m).2 := by
  have hcapabilities (v : Workshop) : SameCrew v (v.fileCapabilities m.capabilities) :=
    sameCrew_foldl (fun w c => by split <;> exact ⟨rfl, rfl, rfl, rfl⟩) _ v
  have hresponsibilities (v : Workshop) :
      SameCrew v (v.fileResponsibilities m.responsibilities) :=
    sameCrew_foldl (fun w c => by split <;> exact ⟨rfl, rfl, rfl, rfl⟩) _ v
  have hdefined (v : Workshop) : SameCrew v (v.defineAll m.resources) := by
    refine sameCrew_foldl (fun w k => ?_) _ v
    split
    · exact ⟨rfl, rfl, rfl, rfl⟩
    · exact sameCrew_define k w
  have hall (v : Workshop) : SameCrew v (((v.fileCapabilities m.capabilities).fileResponsibilities
      m.responsibilities).defineAll m.resources) :=
    ((hcapabilities v).trans (hresponsibilities _)).trans (hdefined _)
  have hnoted : SameCrew w (w.noteAll (m.rejected.map fun r =>
    .malformedEntry r.heading r.index r.reason)) := ⟨rfl, rfl, rfl, rfl⟩
  unfold registerManifest
  dsimp only
  split
  · exact hnoted.trans (hall _)
  · exact (hnoted.trans (hall _)).trans ⟨rfl, rfl, rfl, rfl⟩

theorem sameCrew_registerSource (source : ManifestSource) (w : Workshop) :
    SameCrew w (registerSource source w).2 := by
  unfold registerSource
  dsimp only
  split
  · exact sameCrew_registerManifest _ w
  · split
    · exact sameCrew_registerManifest _ w
    · exact ⟨rfl, rfl, rfl, rfl⟩

theorem sameCrew_registerAs (kind : String) (attributes : Bindings) (nickname : Option String)
    (w : Workshop) : SameCrew w (registerAs kind attributes nickname w).2 := by
  have hregistered : SameCrew w (w.register kind attributes).2 := ⟨rfl, rfl, rfl, rfl⟩
  unfold registerAs
  split
  · next h =>
    rw [h] at hregistered
    exact hregistered
  · next h =>
    rw [h] at hregistered
    dsimp only
    split
    · exact hregistered.trans ⟨rfl, rfl, rfl, rfl⟩
    · exact hregistered

theorem sameCrew_updatePolicy (u : PolicyUpdate) (w : Workshop) :
    SameCrew w (w.updatePolicy u).2 := by
  unfold updatePolicy
  dsimp only
  split <;> exact ⟨rfl, rfl, rfl, rfl⟩

/-- Whether executors are at work in the course of a command. -/
def engages : Command → Bool
  | .executeStep _ _ _ | .callWorker _ _ _ _ | .executePlaybook _ _ => true
  | _ => false

/-- Where no executor is at work, and none is taken on, nobody is asked for anything. -/
theorem answer_sameCrew (attendant : Attendant) (c : Command) (w : Workshop)
    (hc : engages c = false) (hseat : ∀ strategy worker label, c ≠ .seat strategy worker label) :
    SameCrew w (answer attendant c w).2 := by
  cases c with
  | executeStep _ _ _ => cases hc
  | callWorker _ _ _ _ => cases hc
  | executePlaybook _ _ => cases hc
  | seat strategy worker label => exact absurd rfl (hseat strategy worker label)
  | registerManifest source => exact sameCrew_registerSource source w
  | define k => exact sameCrew_define k w
  | register kind attributes nickname => exact sameCrew_registerAs kind attributes nickname w
  | updatePolicy u =>
    rw [answer, orFailure_snd]
    exact sameCrew_updatePolicy u w
  | allocate step requirements =>
    rw [answer, orFailure_snd]
    exact ⟨rfl, rfl, rfl, rfl⟩
  | loadPlaybook name =>
    rw [answer, orFailure_snd]
    exact ⟨rfl, rfl, rfl, rfl⟩
  | shutdown =>
    have hclosed : SameCrew w { w with ledger := w.ledger.close } := ⟨rfl, rfl, rfl, rfl⟩
    have hreleased := hclosed.trans (sameCrew_releaseAll id (runningSteps w.ledger.active) _)
    exact hreleased.trans ⟨rfl, rfl, rfl, rfl⟩
  | effective name | playbookNames | describe subject =>
    unfold answer
    dsimp only
    split <;> exact ⟨rfl, rfl, rfl, rfl⟩
  | _ => exact ⟨rfl, rfl, rfl, rfl⟩

/-- What executors were told stays on record where none is at work. -/
theorem answer_interludes (attendant : Attendant) (c : Command) (w : Workshop)
    (hc : engages c = false) : (answer attendant c w).2.interludes = w.interludes := by
  by_cases hseat : ∃ strategy worker label, c = .seat strategy worker label
  · obtain ⟨strategy, worker, label, rfl⟩ := hseat
    rfl
  · exact (answer_sameCrew attendant c w hc fun strategy worker label h =>
      hseat ⟨strategy, worker, label, h⟩).interludes

end Workshop

namespace Errand

variable {e e' : Errand} {w w' : Workshop} {deeds : List Store.Deed} {run : RunRecord}
  {failure : Option Failure}

theorem Turn.sameCrew (h : e.Turn w deeds e' w') : Workshop.SameCrew w w' := by
  cases h <;> exact ⟨rfl, rfl, rfl, rfl⟩

theorem Returns.sameCrew (h : e.Returns w deeds run failure w') : Workshop.SameCrew w w' := by
  cases h with
  | abandoned hclosed hidle =>
    have hnoted : Workshop.SameCrew w (w.note (.runAbandoned e.run.id e.run.steps.length)) :=
      ⟨rfl, rfl, rfl, rfl⟩
    have hreleased := hnoted.trans (Workshop.sameCrew_releaseAll StepRecord.id e.run.steps _)
    exact hreleased.trans ⟨rfl, rfl, rfl, rfl⟩
  | completed hopen => exact ⟨rfl, rfl, rfl, rfl⟩
  | failed hopen => exact ⟨rfl, rfl, rfl, rfl⟩

end Errand

namespace Floor

open Workshop

variable {σ τ υ : Floor} {story more : List Happening} {a : Answer}

/-- Executors are at work on all runs under way. -/
def Waiting (σ : Floor) : Prop :=
  ∀ e ∈ σ.errands, e.AtWork

/-- An answer was given on a floor that the story has got to, where executors were at work on all
runs under way. Somebody attended to them, of whom nothing is known but that the floor moves by what
is done. -/
def Seen (σ : Floor) (a : Answer) : Prop :=
  ∃ story τ attendant c, Story σ story τ ∧ τ.Waiting ∧
    (∀ commands v, Leads τ v (attendant commands v).2) ∧ (answer attendant c τ.shop).1 = some a

theorem Seen.of_story (h : Story σ story τ) (hseen : Seen τ a) : Seen σ a := by
  obtain ⟨more, υ, attendant, c, hmore, hwaiting, hattend, ha⟩ := hseen
  exact ⟨_, υ, attendant, c, h.trans hmore, hwaiting, hattend, ha⟩

/-- The story has got to a floor, and all that executors were told since the command under way began
was seen in its course. -/
structure Told (σ τ : Floor) : Prop where
  /-- The story has got there. -/
  reached : ∃ story, Story σ story τ
  /-- What executors were told was seen. -/
  seen : ∀ i ∈ τ.shop.interludes, ∀ r ∈ i.replies, ∀ a, r.Shows a → Seen σ a

theorem Told.scene {x : Happening} (h : Told σ τ) (hscene : Scene τ x υ)
    (hinterludes : υ.shop.interludes = τ.shop.interludes) : Told σ υ := by
  obtain ⟨story, hstory⟩ := h.reached
  refine ⟨⟨_, hstory.tail hscene⟩, ?_⟩
  rw [hinterludes]
  exact h.seen

theorem Told.leads {w w' : Workshop} {errands : List Errand} (h : Told σ ⟨w, errands⟩)
    (hleads : Leads σ w w') (hinterludes : w'.interludes = w.interludes) :
    Told σ ⟨w', errands⟩ := by
  obtain ⟨story, hstory⟩ := h.reached
  obtain ⟨more, hmore⟩ := story_of_leads hleads hstory
  exact ⟨⟨_, hstory.trans hmore⟩, hinterludes ▸ h.seen⟩

end Floor

namespace Workshop

open Floor Errand

variable {σ : Floor} {attendant : Attendant} {w w' : Workshop} {errands : List Errand}
  {story : List Happening} {a : Answer}

/-- Where one workshop leads to another, it does so from any floor that the story gets to. -/
theorem Leads.of_story {τ : Floor} (h : Leads σ w w') (hstory : Story σ story τ) :
    Leads τ w w' := by
  intro errands past hreached
  obtain ⟨deeds, hmoves⟩ := hstory.moves
  exact h errands _ (hmoves.trans hreached)

/-! ### Who attends to executors -/

/-- Somebody who carries out the commands of executors: the floor moves by what is done, and
whatever is shown in the replies was seen. -/
structure Attentive (σ : Floor) (attendant : Attendant) : Prop where
  /-- The floor moves by what is done. -/
  leads : ∀ commands v, Leads σ v (attendant commands v).2
  /-- What executors were told before stays on record. -/
  interludes : ∀ commands v, (attendant commands v).2.interludes = v.interludes
  /-- Whatever is shown in the replies was seen. -/
  seen : ∀ commands v errands story, Story σ story ⟨v, errands⟩ → Waiting ⟨v, errands⟩ →
    ∀ rs ∈ (attendant commands v).1, ∀ r ∈ rs, ∀ a, r.Shows a → Seen σ a

theorem told_of_idle (hidle : Idle w w') (h : Told σ ⟨w, errands⟩) : Told σ ⟨w', errands⟩ :=
  h.scene (.act hidle.does) hidle.interludes

theorem told_of_course {e₀ e : Errand} (hcourse : Course
      (fun e v v' => Told σ ⟨v, e :: errands⟩ → Told σ ⟨v', e :: errands⟩) e₀ w e w')
    (h : Told σ ⟨w, e₀ :: errands⟩) : Told σ ⟨w', e :: errands⟩ := by
  induction hcourse with
  | start => exact h
  | turn _ hturn ih => exact ih.scene (.turn [] errands hturn) hturn.sameCrew.interludes
  | meanwhile _ hbesides ih => exact hbesides ih

section Attended

variable (hattentive : Attentive σ attendant)

include hattentive

theorem attend_told (hwaiting : Waiting ⟨w, errands⟩) (label : String) (call : ℕ)
    (commands : List Command) (h : Told σ ⟨w, errands⟩) :
    Told σ ⟨(attend attendant label call commands w).2, errands⟩ := by
  have hdeeper : Told σ ⟨{ w with depth := w.depth + 1 }, errands⟩ :=
    told_of_idle (idle_depth _ w) h
  have hdone := hdeeper.leads (hattentive.leads commands _) (hattentive.interludes commands _)
  obtain ⟨story, hstory⟩ := hdeeper.reached
  obtain ⟨story', hstory'⟩ := hdone.reached
  have hseen := hattentive.seen commands _ errands story hstory hwaiting
  refine ⟨⟨_, hstory'.tail (.act (does_attend label call commands w))⟩, ?_⟩
  rcases hreplies : attendant commands { w with depth := w.depth + 1 } with ⟨_ | rs, v⟩ <;>
    rw [hreplies] at hdone hseen <;> simp only [attend, hreplies]
  · exact hdone.seen
  · intro i hi r hr a ha
    rcases List.mem_append.1 hi with hi | hi
    · exact hdone.seen i hi r hr a ha
    · obtain rfl := List.mem_singleton.1 hi
      exact hseen rs rfl r hr a ha

theorem executeStep_told (hwaiting : ∀ e ∈ errands, e.AtWork) (step method : String)
    (inputs : Bindings) (h : Told σ ⟨w, errands⟩) :
    Told σ ⟨(executeStep attendant step method inputs w).2, errands⟩ := by
  have hreach := executeStep_reaches (R := fun v v' => Told σ ⟨v, errands⟩ → Told σ ⟨v', errands⟩)
    (fun _ _ hidle => told_of_idle hidle)
    (fun label call commands v _ => attend_told hattentive hwaiting label call commands)
    step method inputs w
  exact holds_of_reflTransGen (P := fun v => Told σ ⟨v, errands⟩) hreach h

theorem callDirectly_told (hwaiting : ∀ e ∈ errands, e.AtWork) (label step method : String)
    (inputs : Bindings) (h : Told σ ⟨w, errands⟩) :
    Told σ ⟨(callDirectly attendant label step method inputs w).2, errands⟩ := by
  have hreach := callDirectly_reaches (R := fun v v' => Told σ ⟨v, errands⟩ → Told σ ⟨v', errands⟩)
    (fun _ _ hidle => told_of_idle hidle)
    (fun label call commands v _ => attend_told hattentive hwaiting label call commands)
    label step method inputs w
  exact holds_of_reflTransGen (P := fun v => Told σ ⟨v, errands⟩) hreach h

/-- While a playbook is run, executors are at work on its run whenever they ask for things. -/
theorem executePlaybook_told (hwaiting : ∀ e ∈ errands, e.AtWork) (name : String)
    (input : Bindings) (h : Told σ ⟨w, errands⟩) :
    Told σ ⟨(executePlaybook attendant name input w).2, errands⟩ := by
  have hcall : Call (fun e v v' => Told σ ⟨v, e :: errands⟩ → Told σ ⟨v', e :: errands⟩) name input
      w (executePlaybook attendant name input w).1 (stepIds attendant name input w)
      (executePlaybook attendant name input w).2 := by
    refine call_of_course (fun e v v' hidle => told_of_idle hidle) ?_
    intro playbook hload e s id v label call commands hcourse hwork _
    refine hcourse.meanwhile (attend_told hattentive ?_ label call commands)
    intro f hf
    rcases List.mem_cons.1 hf with rfl | hf
    · exact ⟨s, id, hwork⟩
    · exact hwaiting f hf
  generalize executePlaybook attendant name input w = result at hcall ⊢
  generalize stepIds attendant name input w = ids at hcall
  obtain ⟨result, w'⟩ := result
  cases hcall with
  | closed hclosed => exact h
  | notFound hopen hload => exact h
  | ran hopen hload hcourse hends =>
    have hentered := h.scene (.enter errands input hopen hload) rfl
    have htold := told_of_course hcourse hentered
    cases hends with
    | returned hreturns =>
      exact htold.scene (.leave [] errands hreturns) hreturns.sameCrew.interludes
    | dropped hwork => exact htold.scene (.drop [] errands hwork) rfl

/-- After any command the story has got further, and all that executors were told was seen. -/
theorem answer_told (hwaiting : ∀ e ∈ errands, e.AtWork) (c : Command)
    (h : Told σ ⟨w, errands⟩) : Told σ ⟨(answer attendant c w).2, errands⟩ := by
  cases c with
  | executeStep step method inputs =>
    rw [answer, orDropped_snd]
    exact executeStep_told hattentive hwaiting step method inputs h
  | callWorker label step method inputs =>
    have hcalled := callDirectly_told hattentive hwaiting label step method inputs h
    unfold answer
    dsimp only
    split <;> (next heq => rw [heq] at hcalled; exact hcalled)
  | executePlaybook name input =>
    rw [answer, orDropped_snd]
    exact executePlaybook_told hattentive hwaiting name input h
  -- no executor is at work in the course of the other commands
  | _ => exact h.leads (answer_leads hattentive.leads _ w) (answer_interludes attendant _ w rfl)

/-- Whatever the reply to a command shows was seen. -/
theorem reply_seen (c : Command) (hstory : Story σ story ⟨w, errands⟩)
    (hwaiting : ∀ e ∈ errands, e.AtWork) {r : Reply} (hr : r ∈ (reply attendant c w).1)
    (hshows : r.Shows a) : Seen σ a := by
  have hfresh : Told σ ⟨{ w with interludes := [] }, errands⟩ :=
    ⟨⟨_, hstory.tail (.act (does_nil rfl rfl))⟩, fun i hi => absurd hi List.not_mem_nil⟩
  have hanswered := answer_told hattentive hwaiting c hfresh
  obtain ⟨fresh, hfresh⟩ := hfresh.reached
  obtain ⟨b, hb, rfl⟩ := Option.map_eq_some_iff.1 hr
  cases hshows with
  | here =>
    exact ⟨_, _, attendant, c, hfresh, hwaiting,
      fun commands v => (hattentive.leads commands v).of_story hfresh, hb⟩
  | within hi hr h => exact hanswered.seen _ hi _ hr _ h

end Attended

/-- One command is carried out: the floor moves by what is done, and whatever is shown in the reply
was seen. -/
structure Spoken (σ : Floor) (one : Command → Workshop → Option Reply × Workshop) : Prop where
  /-- The floor moves by what is done. -/
  leads : ∀ c v, Leads σ v (one c v).2
  /-- What executors were told before stays on record. -/
  interludes : ∀ c v, (one c v).2.interludes = v.interludes
  /-- Whatever is shown in the reply was seen. -/
  seen : ∀ c v errands story, Story σ story ⟨v, errands⟩ → Waiting ⟨v, errands⟩ →
    ∀ r ∈ (one c v).1, ∀ a, r.Shows a → Seen σ a

theorem Attentive.reply (h : Attentive σ attendant) : Spoken σ (reply attendant) where
  leads := reply_leads h.leads
  interludes _ _ := rfl
  seen c _ _ _ hstory hwaiting _ hr _ := reply_seen h c hstory hwaiting hr

theorem Spoken.replies {one : Command → Workshop → Option Reply × Workshop} (h : Spoken σ one) :
    Attentive σ (replies one) where
  leads := leads_of_replies h.leads
  interludes commands v := by
    induction commands generalizing v with
    | nil => rfl
    | cons c rest ih =>
      have hfirst := h.interludes c v
      rcases hc : one c v with ⟨_ | r, v'⟩ <;> rw [hc] at hfirst <;>
        simp only [Workshop.replies, hc]
      · exact hfirst
      · exact (ih v').trans hfirst
  seen commands v errands story hstory hwaiting := by
    induction commands generalizing v story with
    | nil =>
      rintro _ ⟨⟩ r hr
      exact absurd hr List.not_mem_nil
    | cons c rest ih =>
      intro rs hrs r hr a ha
      have hfirst := h.seen c v errands story hstory hwaiting
      obtain ⟨more, hmore⟩ := story_of_leads (h.leads c v) hstory
      rcases hc : one c v with ⟨_ | r', v'⟩ <;> rw [hc] at hfirst hmore <;>
        simp only [Workshop.replies, hc] at hrs
      · cases hrs
      · obtain ⟨rs', hrs', rfl⟩ := Option.map_eq_some_iff.1 hrs
        rcases List.mem_cons.1 hr with rfl | hr
        · exact hfirst r rfl a ha
        · exact ih v' _ (hstory.trans hmore) hwaiting rs' hrs' r hr a ha

/-- At every level, whatever is shown in the reply to a command was seen. -/
theorem spoken_perform (σ : Floor) (levels : ℕ) : Spoken σ (perform levels) := by
  induction levels with
  | zero =>
    have hnobody : Attentive σ fun _ w => (some [], w) := by
      refine ⟨fun _ v => .refl σ v, fun _ _ => rfl, ?_⟩
      rintro _ _ _ _ _ _ _ ⟨⟩ r hr
      exact absurd hr List.not_mem_nil
    exact hnobody.reply
  | succ levels ih => exact ih.replies.reply

/-- Whatever the replies to some commands show, at whatever depth, was given on a floor that the
story has got to, where executors were at work on all runs under way. -/
theorem replies_seen (hwaiting : σ.Waiting) (levels : ℕ) (commands : List Command) :
    ∀ rs ∈ (replies (perform levels) commands σ.shop).1, ∀ r ∈ rs, ∀ a, r.Shows a → Seen σ a :=
  (spoken_perform σ levels).replies.seen commands σ.shop σ.errands [] .refl hwaiting

end Workshop

end Foreman
