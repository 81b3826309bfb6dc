import Foreman.Proofs.Workshop.Proceeding
/-!
# Chronicles

A chronicle says what has been done to the store of a workshop since some time: which deeds, in
which order, whoever asked for them. A command in the course of which no executor is at work does
deeds of its own; a run does those of its turns. Whatever is asked in the course of a session, at
whatever depth, there is a chronicle of it, and whatever is seen was answered at some time of which
there is one.

## Main definitions

* `Foreman.Workshop.deedsOf`: the deeds of a command.
* `Foreman.Workshop.Works`, `Foreman.Workshop.Chronicle`: what is done in one thing that happens,
  and in one after another.
* `Foreman.Workshop.Chronicled`: of every session there is a chronicle.

## Main results

* `Foreman.Workshop.answer_store`: a command does its deeds to the store.
* `Foreman.Workshop.Chronicle.store`: the store after what a chronicle says.
* `Foreman.Workshop.chronicled`: every session is chronicled.
-/

namespace Foreman

open Store (Deed)

/-- The manifest that a source gives, if it can be read. -/
def ManifestSource.manifest? : ManifestSource → Option Manifest
  | given m => some m
  | text format s => (Manifest.ofText format s).toOption

/-- Everything may be asked. -/
theorem Command.throughout_true (c : Command) : c.Throughout fun _ => True :=
  .mk trivial fun _ worker _ _ commands _ d _ => throughout_true d
termination_by sizeOf c
decreasing_by
  rename_i hc hcommands hd
  subst hc
  have := List.sizeOf_lt_of_mem hcommands
  have := List.sizeOf_lt_of_mem hd
  cases worker
  simp at *
  omega

namespace Workshop

/-- What a command does to the store, if no executor is at work in its course. -/
def deedsOf (w : Workshop) : Command → List Deed
  | .registerManifest source => (source.manifest?.map fun m => definitions m.resources).getD []
  | .define k => [.define k]
  | .register kind attributes _ =>
    [.register (Store.idFor kind attributes w.freshMark.1) kind attributes w.now]
  | .remove id => [.remove (w.meant id)]
  | .retire id => [.retire (w.meant id)]
  | .reinstate id => [.reinstate (w.meant id)]
  | .allocate step requirements => [.allocate step requirements]
  | .release step => [.release step]
  | .clear => [.clear]
  | .shutdown => (runningSteps w.ledger.active).map .release ++ [.clear]
  | _ => []

theorem registerSource_store (source : ManifestSource) (w : Workshop) :
    (registerSource source w).2.store =
      (w.store.performAll (w.deedsOf (.registerManifest source))).2 := by
  cases source with
  | given m => exact (does_registerManifest m w).store
  | text format s =>
    simp only [registerSource, deedsOf, ManifestSource.manifest?]
    cases Manifest.ofText format s with
    | ok m => exact (does_registerManifest m w).store
    | error f => rfl

theorem registerAs_store (kind : String) (attributes : Bindings) (nickname : Option String)
    (w : Workshop) : (registerAs kind attributes nickname w).2.store =
      (w.register kind attributes).2.store := by
  unfold registerAs
  split
  · next h => rw [h]
  · next h =>
    rw [h]
    cases nickname <;> rfl

/-- A command in the course of which no executor is at work does its deeds to the store. -/
theorem answer_store (attendant : Attendant) {c : Command} (hc : engages c = false)
    (w : Workshop) : (answer attendant c w).2.store = (w.store.performAll (w.deedsOf c)).2 := by
  cases c with
  | executeStep _ _ _ | callWorker _ _ _ _ | executePlaybook _ _ => cases hc
  | registerManifest source => exact registerSource_store source w
  | define k => exact (does_define k w).store
  | register kind attributes nickname =>
    have hregistered := (does_register kind attributes w).store
    exact (registerAs_store kind attributes nickname w).trans hregistered
  | remove id => exact (does_remove _ w).store
  | retire id => exact (does_retire _ w).store
  | reinstate id => exact (does_reinstate _ w).store
  | allocate step requirements =>
    rw [answer, orFailure_snd]
    exact (does_allocate step requirements w).store
  | release step => exact (does_release step w).store
  | clear => exact (does_clear w).store
  | shutdown => exact (does_shutdown w).store
  | updatePolicy u =>
    rw [answer, orFailure_snd]
    exact (does_updatePolicy u w).store
  | loadPlaybook name =>
    rw [answer, orFailure_snd]
    rfl
  | effective name | playbookNames | describe subject =>
    unfold answer
    dsimp only
    split <;> rfl
  -- all other commands leave the store alone
  | _ => rfl

/-- One thing happens in a workshop, in which some deeds are done to the store. Whose run takes a
turn is left open, so the runs under way may do so in any order. -/
inductive Works : Workshop → List Deed → Workshop → Prop
  | command {w} (attendant : Attendant) {c} (hengages : engages c = false) :
      Works w (w.deedsOf c) (answer attendant c w).2
  | begin {w} (playbook : Playbook) (input : Bindings) :
      Works w [] (w.beginRun playbook input).2
  | turn {e e' : Errand} {w w' deeds} (hturn : e.Turn w deeds e' w') : Works w deeds w'
  | leave {e : Errand} {w w' deeds run failure} (hreturns : e.Returns w deeds run failure w') :
      Works w deeds w'
  | idle {w w'} (hidle : Idle w w') : Works w [] w'
  | tell {w} (interludes : List (Interlude Reply)) : Works w [] { w with interludes }

/-- One thing after another, and all the deeds done to the store in their course. -/
inductive Chronicle (w₀ : Workshop) : List Deed → Workshop → Prop
  | refl : Chronicle w₀ [] w₀
  | tail {deeds w more w'} (h : Chronicle w₀ deeds w) (hworks : Works w more w') :
      Chronicle w₀ (deeds ++ more) w'

variable {w₀ w w' : Workshop} {deeds more : List Deed}

theorem Works.store (h : Works w deeds w') : w'.store = (w.store.performAll deeds).2 := by
  cases h with
  | command attendant hengages => exact answer_store attendant hengages w
  | begin playbook input => rfl
  | turn hturn => exact hturn.store
  | leave hreturns => exact hreturns.store
  | idle hidle => exact hidle.does.store
  | tell interludes => rfl

/-- The store has undergone all the deeds of a chronicle. -/
theorem Chronicle.store (h : Chronicle w₀ deeds w) :
    w.store = (w₀.store.performAll deeds).2 := by
  induction h with
  | refl => rfl
  | tail _ hworks ih => rw [hworks.store, ih, Store.performAll_append]

theorem Proceeds.works {allowed : Command → Prop} (h : Proceeds allowed w w') :
    ∃ deeds, Works w deeds w' := by
  cases h with
  | command attendant hc hengages => exact ⟨_, .command attendant hengages⟩
  | begin playbook input => exact ⟨_, .begin playbook input⟩
  | turn hturn => exact ⟨_, .turn hturn⟩
  | leave hreturns => exact ⟨_, .leave hreturns⟩
  | idle hidle => exact ⟨_, .idle hidle⟩
  | tell interludes => exact ⟨_, .tell interludes⟩

/-- There is a chronicle of whatever happens. -/
theorem exists_chronicle {allowed : Command → Prop}
    (h : Relation.ReflTransGen (Proceeds allowed) w₀ w) : ∃ deeds, Chronicle w₀ deeds w := by
  induction h with
  | refl => exact ⟨[], .refl⟩
  | tail _ hproceeds ih =>
    obtain ⟨deeds, hchronicle⟩ := ih
    obtain ⟨more, hworks⟩ := hproceeds.works
    exact ⟨_, hchronicle.tail hworks⟩

/-- Of every session there is a chronicle: of what has happened when it is over, and of what had
happened when any of the answers was given that are seen in its course, at whatever depth. -/
def Chronicled (w₀ : Workshop) : Prop :=
  ∀ levels commands,
    (∃ deeds, Chronicle w₀ deeds (replies (perform levels) commands w₀).2) ∧
      ∀ rs ∈ (replies (perform levels) commands w₀).1, ∀ r ∈ rs, ∀ a, r.Shows a →
        ∃ attendant c v deeds, Chronicle w₀ deeds v ∧ (answer attendant c v).1 = some a

/-- Every session that begins when nobody has asked for anything yet is chronicled. -/
theorem chronicled (hnone : w₀.interludes = []) : Chronicled w₀ := by
  intro levels commands
  have hheeds : Heeds (fun _ => True) w₀ := fun _ _ c _ => c.throughout_true
  obtain ⟨hreached, hheard⟩ :=
    replies_proceed hheeds hnone levels fun c _ => c.throughout_true
  refine ⟨exists_chronicle hreached, fun rs hrs r hr a ha => ?_⟩
  obtain ⟨attendant, c, v, hv, -, hanswer⟩ := hheard rs hrs r hr a ha
  obtain ⟨deeds, hchronicle⟩ := exists_chronicle hv
  exact ⟨attendant, c, v, deeds, hchronicle, hanswer⟩

end Workshop

end Foreman
