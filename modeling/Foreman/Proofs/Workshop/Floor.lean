import Foreman.Proofs.Workshop.Errand
import Foreman.Session
/-!
# The floor of a workshop

On the floor of a workshop stand the runs under way. The floor moves when something is done in the
workshop, when everything is shut down, when a run enters, when a run takes a turn, and when a run
leaves, because it returns or because it is dropped while executors are at work on it; in whatever
order, and no run needs to get to its end. All that the commands of a session do, and all that
executors ask for in the course of it at any depth, are moves of the floor.

## Main definitions

* `Foreman.Floor`, `Foreman.Floor.Move`, `Foreman.Floor.Moves`: the floor and its moves.
* `Foreman.Workshop.Leads`: one workshop comes from another by moves of the floor, which leave the
  runs that were under way where they were.

## Main results

* `Foreman.Floor.Moves.store`: the deeds done to the store in the course of some moves.
* `Foreman.Workshop.replies_leads`: commands lead from one workshop to another.
-/

namespace Foreman

open Store (Deed)

/-- A workshop and the runs under way in it. -/
structure Floor where
  /-- The workshop. -/
  shop : Workshop
  /-- The runs under way. -/
  errands : List Errand

namespace Floor

/-- Something happens on the floor, and some deeds are done to the store. -/
inductive Move : Floor → List Deed → Floor → Prop
  | act {w w' errands deeds} (hdoes : w.Does deeds w') : Move ⟨w, errands⟩ deeds ⟨w', errands⟩
  | shutdown {w errands} :
      Move ⟨w, errands⟩ ((Workshop.runningSteps w.ledger.active).map .release ++ [.clear])
        ⟨w.shutdown, errands⟩
  | enter {w name playbook} (errands : List Errand) (input : Bindings)
      (hopen : w.ledger.closed = false) (hload : w.library.load name = .ok playbook) :
      Move ⟨w, errands⟩ []
        ⟨(w.beginRun playbook input).2,
          .ofRun (w.beginRun playbook input).1 playbook.steps :: errands⟩
  | turn {w w' e e' deeds} (before after : List Errand) (hturn : e.Turn w deeds e' w') :
      Move ⟨w, before ++ e :: after⟩ deeds ⟨w', before ++ e' :: after⟩
  | leave {w w' e deeds run failure} (before after : List Errand)
      (hreturns : e.Returns w deeds run failure w') :
      Move ⟨w, before ++ e :: after⟩ deeds ⟨w', before ++ after⟩
  | drop {w e} (before after : List Errand) (hwork : e.AtWork) :
      Move ⟨w, before ++ e :: after⟩ [] ⟨w, before ++ after⟩

/-- One move after another, and all the deeds done in their course. -/
inductive Moves (σ : Floor) : List Deed → Floor → Prop
  | refl : Moves σ [] σ
  | tail {deeds τ more υ} (h : Moves σ deeds τ) (hmove : Move τ more υ) : Moves σ (deeds ++ more) υ

variable {σ τ υ : Floor} {deeds others : List Deed}

theorem Move.single (h : Move σ deeds τ) : Moves σ deeds τ :=
  Moves.refl.tail h

theorem Moves.trans (h : Moves σ deeds τ) (h' : Moves τ others υ) :
    Moves σ (deeds ++ others) υ := by
  induction h' with
  | refl => simpa using h
  | tail _ hmove ih =>
    rw [← List.append_assoc]
    exact ih.tail hmove

/-- In a move of the floor the store undergoes the deeds of the move. -/
theorem Move.store (h : Move σ deeds τ) :
    τ.shop.store = (σ.shop.store.performAll deeds).2 := by
  cases h with
  | act hdoes => exact hdoes.store
  | shutdown => exact (Workshop.does_shutdown _).store
  | enter errands input hopen hload => rfl
  | turn before after hturn => exact hturn.store
  | leave before after hreturns => exact hreturns.store
  | drop before after hwork => rfl

/-- The store undergoes all the deeds of some moves. -/
theorem Moves.store (h : Moves σ deeds τ) :
    τ.shop.store = (σ.shop.store.performAll deeds).2 := by
  induction h with
  | refl => rfl
  | tail _ hmove ih => rw [hmove.store, ih, Store.performAll_append]

end Floor

namespace Workshop

open Floor (Move Moves)
open Errand Relation

/-- Wherever the floor has got to from where it stands, one workshop comes from another by moves of
the floor, whichever runs are under way then; those are under way afterwards as they were before. -/
def Leads (σ : Floor) (w w' : Workshop) : Prop :=
  ∀ errands past, Moves σ past ⟨w, errands⟩ → ∃ deeds, Moves ⟨w, errands⟩ deeds ⟨w', errands⟩

variable {σ : Floor} {w w' w'' : Workshop} {attendant : Attendant}

theorem Leads.refl (σ : Floor) (w : Workshop) : Leads σ w w :=
  fun _ _ _ => ⟨[], .refl⟩

theorem Leads.trans (h : Leads σ w w') (h' : Leads σ w' w'') : Leads σ w w'' := by
  intro errands past hreached
  obtain ⟨deeds, hmoves⟩ := h errands past hreached
  obtain ⟨others, hmoves'⟩ := h' errands _ (hreached.trans hmoves)
  exact ⟨deeds ++ others, hmoves.trans hmoves'⟩

theorem leads_of_reflTransGen (h : ReflTransGen (Leads σ) w w') : Leads σ w w' := by
  induction h with
  | refl => exact .refl σ w
  | tail _ hlast ih => exact ih.trans hlast

theorem Does.leads {deeds : List Deed} (h : w.Does deeds w') : Leads σ w w' :=
  fun _ _ _ => ⟨deeds, (Move.act h).single⟩

theorem leads_of_idle (hstore : w'.store = w.store) (hledger : w'.ledger = w.ledger) :
    Leads σ w w' :=
  (does_nil hstore hledger).leads

theorem leads_shutdown (w : Workshop) : Leads σ w w.shutdown :=
  fun _ _ _ => ⟨_, Move.shutdown.single⟩

/-! ### Runs -/

/-- While a run goes its way, the floor moves. -/
theorem moves_of_course {e₀ e : Errand} (h : Course (fun _ v v' => Leads σ v v') e₀ w e w')
    {errands : List Errand} {past : List Deed} (hreached : Moves σ past ⟨w, e₀ :: errands⟩) :
    ∃ deeds, Moves ⟨w, e₀ :: errands⟩ deeds ⟨w', e :: errands⟩ := by
  induction h with
  | start => exact ⟨[], .refl⟩
  | turn _ hturn ih =>
    obtain ⟨deeds, hmoves⟩ := ih
    exact ⟨_, hmoves.tail (.turn [] errands hturn)⟩
  | @meanwhile e v v' _ hleads ih =>
    obtain ⟨deeds, hmoves⟩ := ih
    obtain ⟨others, hmoves'⟩ := hleads (e :: errands) _ (hreached.trans hmoves)
    exact ⟨_, hmoves.trans hmoves'⟩

theorem leads_of_call {name : String} {input : Bindings}
    {result : Option (Except Failure RunRecord)} {ids : List String}
    (h : Call (fun _ v v' => Leads σ v v') name input w result ids w') :
    Leads σ w w' := by
  cases h with
  | closed hclosed => exact .refl σ w
  | notFound hopen hload => exact .refl σ w
  | ran hopen hload hcourse hends =>
    intro errands past hreached
    have hentered := (Move.enter errands input hopen hload).single
    obtain ⟨deeds, hmoves⟩ := moves_of_course hcourse (hreached.trans hentered)
    cases hends with
    | returned hreturns => exact ⟨_, (hentered.trans hmoves).tail (.leave [] errands hreturns)⟩
    | dropped hwork => exact ⟨_, (hentered.trans hmoves).tail (.drop [] errands hwork)⟩

section Attended

variable (hattend : ∀ commands v, Leads σ v (attendant commands v).2)

include hattend

theorem executePlaybook_leads (name : String) (input : Bindings) (w : Workshop) :
    Leads σ w (executePlaybook attendant name input w).2 := by
  have hattends : Attends attendant (fun _ v v' => Leads σ v v') name input w :=
    ⟨fun _ _ _ hdoes => hdoes.leads, fun _ _ _ v commands _ => hattend commands v⟩
  exact leads_of_call hattends.call

theorem attend_leads (label : String) (call : Nat) (commands : List Command) (w : Workshop) :
    Leads σ w (attend attendant label call commands w).2 := by
  have hdeeper : Leads σ w { w with depth := w.depth + 1 } := leads_of_idle rfl rfl
  exact (hdeeper.trans (hattend commands _)).trans (does_attend label call commands w).leads

theorem executeStep_leads (step method : String) (inputs : Bindings) (w : Workshop) :
    Leads σ w (executeStep attendant step method inputs w).2 :=
  leads_of_reflTransGen
    (executeStep_reaches (fun _ _ h => h.does.leads)
      (fun label call commands v _ => attend_leads hattend label call commands v) _ _ _ w)

theorem callDirectly_leads (label step method : String) (inputs : Bindings) (w : Workshop) :
    Leads σ w (callDirectly attendant label step method inputs w).2 :=
  leads_of_reflTransGen
    (callDirectly_reaches (fun _ _ h => h.does.leads)
      (fun label call commands v _ => attend_leads hattend label call commands v) _ _ _ _ w)

end Attended

/-! ### Commands -/

theorem orFailure_snd (answer : α → Answer) (r : Except Failure α × Workshop) :
    (orFailure answer r).2 = r.2 := by
  rcases r with ⟨_ | _, w⟩ <;> rfl

theorem orDropped_snd (answer : α → Answer) (r : Option (Except Failure α) × Workshop) :
    (orDropped answer r).2 = r.2 := by
  rcases r with ⟨_ | _ | _, w⟩ <;> rfl

theorem registerAs_leads (kind : String) (attributes : Bindings) (nickname : Option String)
    (w : Workshop) : Leads σ w (registerAs kind attributes nickname w).2 := by
  have hregistered : Leads σ w (w.register kind attributes).2 :=
    (does_register kind attributes w).leads
  unfold registerAs
  split
  · next h =>
    rw [h] at hregistered
    exact hregistered
  · next h =>
    rw [h] at hregistered
    refine hregistered.trans ?_
    dsimp only
    split
    · exact leads_of_idle rfl rfl
    · exact .refl σ _

theorem registerSource_leads (source : ManifestSource) (w : Workshop) :
    Leads σ w (registerSource source w).2 := by
  have hregistered (m : Manifest) : Leads σ w (w.registerManifest m).2 :=
    (does_registerManifest m w).leads
  unfold registerSource
  dsimp only
  split
  · exact hregistered _
  · split
    · exact hregistered _
    · exact .refl σ w

section Attended

variable (hattend : ∀ commands v, Leads σ v (attendant commands v).2)

include hattend

/-- Carrying out a command leads from one workshop to another, if what the attendant does leads from
one workshop to another. -/
theorem answer_leads (c : Command) (w : Workshop) : Leads σ w (answer attendant c w).2 := by
  cases c with
  | registerManifest source => exact registerSource_leads source w
  | define k => exact (does_define k w).leads
  | register kind attributes nickname => exact registerAs_leads kind attributes nickname w
  | remove id => exact (does_remove _ w).leads
  | retire id => exact (does_retire _ w).leads
  | reinstate id => exact (does_reinstate _ w).leads
  | allocate step requirements =>
    rw [answer, orFailure_snd]
    exact (does_allocate step requirements w).leads
  | release step => exact (does_release step w).leads
  | clear => exact (does_clear w).leads
  | file e => exact (does_file e w).leads
  | resolve name => exact (does_resolve name w).leads
  | seat strategy worker label => exact (does_seat strategy worker label w).leads
  | updatePolicy u =>
    rw [answer, orFailure_snd]
    exact (does_updatePolicy u w).leads
  | executeStep step method inputs =>
    rw [answer, orDropped_snd]
    exact executeStep_leads hattend step method inputs w
  | callWorker label step method inputs =>
    have hcalled := callDirectly_leads hattend label step method inputs w
    unfold answer
    dsimp only
    split <;> (next h => rw [h] at hcalled; exact hcalled)
  | executePlaybook name input =>
    rw [answer, orDropped_snd]
    exact executePlaybook_leads hattend name input w
  | shutdown => exact leads_shutdown w
  | effective name =>
    unfold answer
    dsimp only
    split
    · exact (does_noteAll _ w).leads
    · exact .refl σ w
  | advertised => exact (does_noteAll _ w).leads
  | playbookNames =>
    unfold answer
    dsimp only
    split <;> exact .refl σ w
  | loadPlaybook name =>
    rw [answer, orFailure_snd]
    exact .refl σ w
  | describe subject =>
    unfold answer
    dsimp only
    split <;> exact .refl σ w
  -- all other commands only look, or change what is neither store nor ledger
  | _ => exact leads_of_idle rfl rfl

theorem reply_leads (c : Command) (w : Workshop) : Leads σ w (reply attendant c w).2 := by
  have hfresh : Leads σ w { w with interludes := [] } := leads_of_idle rfl rfl
  refine (hfresh.trans (answer_leads hattend c _)).trans ?_
  exact leads_of_idle rfl rfl

end Attended

theorem leads_of_replies {one : Command → Workshop → Option Reply × Workshop}
    (hone : ∀ c v, Leads σ v (one c v).2) (commands : List Command) (w : Workshop) :
    Leads σ w (replies one commands w).2 := by
  induction commands generalizing w with
  | nil => exact .refl σ w
  | cons c rest ih =>
    have hfirst := hone c w
    rcases hc : one c w with ⟨_ | r, w'⟩ <;> rw [hc] at hfirst <;> simp only [replies, hc]
    · exact hfirst
    · exact hfirst.trans (ih w')

/-- Carrying out a command at any level leads from one workshop to another. -/
theorem perform_leads (levels : ℕ) (c : Command) (w : Workshop) :
    Leads σ w (perform levels c w).2 := by
  induction levels generalizing c w with
  | zero => exact reply_leads (fun _ v => .refl σ v) c w
  | succ levels ih =>
    exact reply_leads (fun commands v => leads_of_replies ih commands v) c w

/-- Commands lead from one workshop to another, whatever executors ask for in their course. -/
theorem replies_leads (levels : ℕ) (commands : List Command) (w : Workshop) :
    Leads σ w (replies (perform levels) commands w).2 :=
  leads_of_replies (perform_leads levels) commands w

end Workshop

end Foreman
