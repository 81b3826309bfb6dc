import Foreman.Proofs.Market.Providers
import Foreman.Proofs.Workshop.Proceeding
/-!
# The index is kept up to date

A workshop whose store is wired to its own catalogue keeps the index of the catalogue up to date:
whatever happens, the index agrees with what steps find out, unless somebody replaces it by hand. It
does not matter in which order kinds are described, how often, or what they extend. A catalogue that
is not the workshop's own is kept up to date too, from the first kind on, if the store is wired to
it; and then, or if the store is wired to none, the workshop's own is brought up to date whenever a
manifest is registered.

## Main definitions

* `Foreman.Command.SparesIndex`: a command does not replace the index by hand.
* `Foreman.Workshop.Indexed`: the catalogue that the store is wired to lists the kinds of the store.
* `Foreman.Workshop.UpToDate`: the catalogues agree with the store.

## Main results

* `Foreman.Workshop.Proceeds.indexed`: whatever happens, the kinds of the store are listed.
* `Foreman.Workshop.providers_agree_with_allocator`: the catalogues agree with the store throughout.
-/

namespace Foreman

open Store (Deed)

/-- A command does not replace the index of the catalogue by hand. -/
def Command.SparesIndex (c : Command) : Prop :=
  ∀ index, c ≠ .replaceProviders index

namespace Workshop

open Relation

variable {wiring : Wiring} {known : String → Prop} {w w' w'' : Workshop}

/-! ### Nothing new is offered -/

/-- A workshop changes, but neither the kinds of its store nor what its catalogues list. -/
structure SameOffers (w w' : Workshop) : Prop where
  /-- What is done to the store describes no kind. -/
  store : ∃ deeds, (∀ k, .define k ∉ deeds) ∧ w'.store = (w.store.performAll deeds).2
  /-- The store is wired as before. -/
  wiring : w'.wiring = w.wiring
  /-- The index of the workshop's catalogue is the same. -/
  market : w'.market.providers = w.market.providers
  /-- So is that of the other catalogue. -/
  otherMarket : w'.otherMarket.providers = w.otherMarket.providers

theorem SameOffers.trans (h : SameOffers w w') (h' : SameOffers w' w'') : SameOffers w w'' := by
  obtain ⟨deeds, hnone, hstore⟩ := h.store
  obtain ⟨others, hnone', hstore'⟩ := h'.store
  refine ⟨⟨deeds ++ others, fun k hk => ?_, ?_⟩, h'.wiring.trans h.wiring,
    h'.market.trans h.market, h'.otherMarket.trans h.otherMarket⟩
  · exact (List.mem_append.1 hk).elim (hnone k) (hnone' k)
  · rw [hstore', hstore, Store.performAll_append]

/-- Deeds that describe no kind offer nothing new. -/
theorem Does.sameOffers {deeds : List Deed} (h : w.Does deeds w') (hdeeds : ∀ k, .define k ∉ deeds)
    (hcatalogues : SameCatalogues w w') : SameOffers w w' :=
  ⟨⟨deeds, hdeeds, h.store⟩, hcatalogues.wiring, congrArg _ hcatalogues.market,
    congrArg _ hcatalogues.otherMarket⟩

theorem Idle.sameOffers (h : Idle w w') : SameOffers w w' :=
  h.does.sameOffers (by simp) h.catalogues

/-- Nothing happens to the store. -/
theorem sameOffers_of_store_eq (hstore : w'.store = w.store) (hwiring : w'.wiring = w.wiring)
    (hmarket : w'.market.providers = w.market.providers)
    (hother : w'.otherMarket.providers = w.otherMarket.providers) : SameOffers w w' :=
  ⟨⟨[], by simp, hstore⟩, hwiring, hmarket, hother⟩

theorem sameOffers_foldl {α : Type} {f : Workshop → α → Workshop}
    (hf : ∀ w a, SameOffers w (f w a)) (as : List α) (w : Workshop) :
    SameOffers w (as.foldl f w) := by
  induction as generalizing w with
  | nil => exact sameOffers_of_store_eq rfl rfl rfl rfl
  | cons a rest ih => exact (hf w a).trans (ih (f w a))

theorem sameOffers_release (step : String) (w : Workshop) : SameOffers w (w.release step).2 :=
  (does_release step w).sameOffers (by simp) ⟨rfl, rfl, rfl⟩

theorem sameOffers_releaseAll {α : Type} (id : α → String) (as : List α) (w : Workshop) :
    SameOffers w (as.foldl (fun w a => (w.release (id a)).2) w) :=
  sameOffers_foldl (fun w a => sameOffers_release (id a) w) as w

theorem sameOffers_shutdown (w : Workshop) : SameOffers w w.shutdown := by
  have hclosed : SameOffers w { w with ledger := w.ledger.close } :=
    sameOffers_of_store_eq rfl rfl rfl rfl
  have hreleased := hclosed.trans (sameOffers_releaseAll id (runningSteps w.ledger.active) _)
  exact hreleased.trans ((does_clear _).sameOffers (by simp) ⟨rfl, rfl, rfl⟩)

theorem sameOffers_of_turn {e e' : Errand} {deeds : List Deed} (h : e.Turn w deeds e' w') :
    SameOffers w w' := by
  have hstore := h.store
  cases h <;> exact ⟨⟨_, by simp, hstore⟩, rfl, rfl, rfl⟩

theorem sameOffers_of_returns {e : Errand} {deeds : List Deed} {run : RunRecord}
    {failure : Option Failure} (h : e.Returns w deeds run failure w') : SameOffers w w' := by
  cases h with
  | abandoned hclosed hidle =>
    have hnoted : SameOffers w (w.note (.runAbandoned e.run.id e.run.steps.length)) :=
      sameOffers_of_store_eq rfl rfl rfl rfl
    have hreleased := hnoted.trans (sameOffers_releaseAll StepRecord.id e.run.steps _)
    exact hreleased.trans (sameOffers_of_store_eq rfl rfl rfl rfl)
  | completed hopen => exact sameOffers_of_store_eq rfl rfl rfl rfl
  | failed hopen => exact sameOffers_of_store_eq rfl rfl rfl rfl

theorem sameOffers_resolve (name : String) (w : Workshop) : SameOffers w (w.resolve name).2 := by
  refine sameOffers_of_store_eq rfl rfl ?_ rfl
  simp only [resolve, Market.resolve]
  split
  · rfl
  · split
    · rfl
    · split <;> rfl

theorem sameOffers_registerAs (kind : String) (attributes : Bindings) (nickname : Option String)
    (w : Workshop) : SameOffers w (registerAs kind attributes nickname w).2 := by
  have hregistered : SameOffers w (w.register kind attributes).2 :=
    (does_register kind attributes w).sameOffers (by simp) ⟨rfl, rfl, rfl⟩
  unfold registerAs
  split
  · next h =>
    rw [h] at hregistered
    exact hregistered
  · next h =>
    rw [h] at hregistered
    refine hregistered.trans ?_
    dsimp only
    split <;> exact sameOffers_of_store_eq rfl rfl rfl rfl

/-- What a command does where no executor is at work describes a kind, or replaces the index, or
else it leaves alone what is offered. -/
theorem answer_sameOffers (attendant : Attendant) (c : Command) (w : Workshop)
    (hengages : engages c = false) (hspares : c.SparesIndex) (hdefine : ∀ k, c ≠ .define k)
    (hmanifest : ∀ source, c ≠ .registerManifest source) :
    SameOffers w (answer attendant c w).2 := by
  cases c with
  | executeStep _ _ _ => cases hengages
  | callWorker _ _ _ _ => cases hengages
  | executePlaybook _ _ => cases hengages
  | define k => exact absurd rfl (hdefine k)
  | registerManifest source => exact absurd rfl (hmanifest source)
  | replaceProviders index => exact absurd rfl (hspares index)
  | register kind attributes nickname => exact sameOffers_registerAs kind attributes nickname w
  | remove id => exact (does_remove _ w).sameOffers (by simp) ⟨rfl, rfl, rfl⟩
  | retire id => exact (does_retire _ w).sameOffers (by simp) ⟨rfl, rfl, rfl⟩
  | reinstate id => exact (does_reinstate _ w).sameOffers (by simp) ⟨rfl, rfl, rfl⟩
  | allocate step requirements =>
    rw [answer, orFailure_snd]
    exact (does_allocate step requirements w).sameOffers (by simp) ⟨rfl, rfl, rfl⟩
  | release step => exact sameOffers_release step w
  | clear => exact ⟨⟨_, by simp, (does_clear w).store⟩, rfl, rfl, rfl⟩
  | resolve name => exact sameOffers_resolve name w
  | shutdown => exact sameOffers_shutdown w
  | updatePolicy u =>
    rw [answer, orFailure_snd, updatePolicy]
    dsimp only
    split <;> exact sameOffers_of_store_eq rfl rfl rfl rfl
  | loadPlaybook name =>
    rw [answer, orFailure_snd]
    exact sameOffers_of_store_eq rfl rfl rfl rfl
  | effective name | playbookNames | describe subject =>
    unfold answer
    dsimp only
    split <;> exact sameOffers_of_store_eq rfl rfl rfl rfl
  -- all other commands touch neither the store nor the index
  | _ => exact sameOffers_of_store_eq rfl rfl rfl rfl

/-! ### All kinds are listed -/

/-- The store is one that can come about, some kinds are known in it, and the catalogue that it is
wired to lists all its kinds; if that is not the workshop's own, from the first kind on. -/
structure Indexed (wiring : Wiring) (known : String → Prop) (w : Workshop) : Prop where
  /-- The store can come about. -/
  reachable : w.store.Reachable
  /-- The store is wired like this. -/
  wired : w.wiring = wiring
  /-- These kinds are known. -/
  known : ∀ name, known name → w.store.kinds.contains name = true
  /-- The workshop's own catalogue lists all kinds, if the store is wired to it. -/
  own : wiring = .own → w.market.Lists w.store.kinds
  /-- The other one does, if the store is wired to that, and if there are any kinds. -/
  foreign : wiring = .foreign → w.store.kinds ≠ .empty → w.otherMarket.Lists w.store.kinds

theorem indexed_new (config : Config) (library : Library) (wiring : Wiring) (other : Market) :
    Indexed wiring (fun _ => False) { new config library wiring with otherMarket := other } where
  reachable := ⟨[], rfl⟩
  wired := rfl
  known _ h := h.elim
  own _ := rfl
  foreign _ hkinds := absurd rfl hkinds

theorem SameOffers.indexed (h : SameOffers w w') (hw : Indexed wiring known w) :
    Indexed wiring known w' := by
  obtain ⟨deeds, hdeeds, hstore⟩ := h.store
  have hkinds : w'.store.kinds = w.store.kinds :=
    hstore ▸ hw.reachable.sound.kinds_performAll hdeeds
  refine ⟨hstore ▸ hw.reachable.performAll deeds, h.wiring.trans hw.wired, ?_, ?_, ?_⟩
  · rw [hkinds]
    exact hw.known
  · rw [Market.Lists, h.market, hkinds]
    exact hw.own
  · rw [Market.Lists, h.otherMarket, hkinds]
    exact hw.foreign

/-- When a kind is described, for the first time or anew, all kinds are listed again. -/
theorem Indexed.define (hw : Indexed wiring known w) (k : ResourceKind) :
    Indexed wiring known (w.define k).2 := by
  have hreachable : (w.store.define k).Reachable := hw.reachable.performAll [.define k]
  have hknown : ∀ name, known name → (w.store.define k).kinds.contains name = true := by
    intro name hname
    simp only [Store.define, Table.contains, Table.get?_insert]
    split
    · rfl
    · exact hw.known name hname
  obtain rfl := hw.wired
  unfold Workshop.define publishOffers
  dsimp only
  split
  · next hown =>
    exact ⟨hreachable, rfl, hknown, fun _ => Market.lists_replaceProviders _ _,
      fun hforeign => by simp [hown] at hforeign⟩
  · next hdetached =>
    exact ⟨hreachable, rfl, hknown, fun hown => by simp [hdetached] at hown,
      fun hforeign => by simp [hdetached] at hforeign⟩
  · next hforeign =>
    exact ⟨hreachable, rfl, hknown, fun hown => by simp [hforeign] at hown,
      fun _ _ => Market.lists_replaceProviders _ _⟩

theorem Indexed.defineAll (hw : Indexed wiring known w) (ks : List ResourceKind) :
    Indexed wiring known (w.defineAll ks) := by
  induction ks generalizing w with
  | nil => exact hw
  | cons k rest ih =>
    refine ih (w := if k.name.isEmpty then w.note .namelessKind else (w.define k).2) ?_
    split
    · have hnoted : SameOffers w (w.note .namelessKind) := sameOffers_of_store_eq rfl rfl rfl rfl
      exact hnoted.indexed hw
    · exact hw.define k

/-- When a manifest is registered, all kinds are listed again, in the workshop's own catalogue in
any case. -/
theorem Indexed.registerManifest (hw : Indexed wiring known w) (m : Manifest) :
    Indexed wiring known (w.registerManifest m).2 ∧
      (w.registerManifest m).2.market.Lists (w.registerManifest m).2.store.kinds := by
  have hcapabilities (v : Workshop) : SameOffers v (v.fileCapabilities m.capabilities) :=
    sameOffers_foldl (fun w c => by split <;> exact sameOffers_of_store_eq rfl rfl rfl rfl) _ v
  have hresponsibilities (v : Workshop) :
      SameOffers v (v.fileResponsibilities m.responsibilities) :=
    sameOffers_foldl (fun w c => by split <;> exact sameOffers_of_store_eq rfl rfl rfl rfl) _ v
  have hnoted : SameOffers w (w.noteAll (m.rejected.map fun r =>
    .malformedEntry r.heading r.index r.reason)) := sameOffers_of_store_eq rfl rfl rfl rfl
  have hdefined := (((hnoted.trans (hcapabilities _)).trans (hresponsibilities _)).indexed
    hw).defineAll m.resources
  unfold Workshop.registerManifest
  dsimp only
  split
  · next hown => exact ⟨hdefined, hdefined.own (hdefined.wired.symm.trans hown)⟩
  · next hother =>
    refine ⟨⟨hdefined.reachable, hdefined.wired, hdefined.known, fun hown => ?_, hdefined.foreign⟩,
      Market.lists_replaceProviders _ _⟩
    exact absurd (hdefined.wired.trans hown) hother

/-- Whatever happens, unless somebody replaces the index by hand, all kinds are listed. -/
theorem Proceeds.indexed (h : Proceeds Command.SparesIndex w w') (hw : Indexed wiring known w) :
    Indexed wiring known w' := by
  cases h with
  | @command _ attendant c hspares hengages =>
    by_cases hdefine : ∃ k, c = .define k
    · obtain ⟨k, rfl⟩ := hdefine
      exact hw.define k
    · by_cases hmanifest : ∃ source, c = .registerManifest source
      · obtain ⟨source, rfl⟩ := hmanifest
        unfold answer registerSource
        dsimp only
        split
        · exact (hw.registerManifest _).1
        · split
          · exact (hw.registerManifest _).1
          · exact hw
      · exact (answer_sameOffers attendant c w hengages hspares (fun k hk => hdefine ⟨k, hk⟩)
          fun source hsource => hmanifest ⟨source, hsource⟩).indexed hw
  | begin playbook input =>
    have hbegun : SameOffers w (w.beginRun playbook input).2 :=
      sameOffers_of_store_eq rfl rfl rfl rfl
    exact hbegun.indexed hw
  | turn hturn => exact (sameOffers_of_turn hturn).indexed hw
  | leave hreturns => exact (sameOffers_of_returns hreturns).indexed hw
  | idle hidle => exact hidle.sameOffers.indexed hw
  | tell interludes =>
    have htold : SameOffers w { w with interludes } := sameOffers_of_store_eq rfl rfl rfl rfl
    exact htold.indexed hw

theorem indexed_of_proceeds (h : ReflTransGen (Proceeds Command.SparesIndex) w w')
    (hw : Indexed wiring known w) : Indexed wiring known w' := by
  induction h with
  | refl => exact hw
  | tail _ hlast ih => exact hlast.indexed ih

/-! ### The catalogues agree with the store -/

/-- The catalogue that the store is wired to agrees with the store; if that is not the workshop's
own, from the first kind on. Wherever the store is wired to, the workshop's own catalogue does so
whenever a manifest was just registered. -/
structure UpToDate (w : Workshop) : Prop where
  /-- The workshop's own catalogue agrees with a store that is wired to it. -/
  own : w.wiring = .own → w.market.AgreesWith w.store
  /-- So does another one, if there are any kinds. -/
  foreign : w.wiring = .foreign → w.store.kinds ≠ .empty → w.otherMarket.AgreesWith w.store
  /-- When a manifest was registered, the workshop's own agrees in any case. -/
  manifest : ∀ m, (w.registerManifest m).2.market.AgreesWith (w.registerManifest m).2.store

theorem Indexed.upToDate (hw : Indexed wiring known w) : w.UpToDate where
  own h := (hw.own (hw.wired.symm.trans h)).agreesWith hw.reachable.sound
  foreign h hkinds := (hw.foreign (hw.wired.symm.trans h) hkinds).agreesWith hw.reachable.sound
  manifest m := by
    obtain ⟨hafter, hlists⟩ := hw.registerManifest m
    exact hlists.agreesWith hafter.reachable.sound

/-- The index agrees with what steps find out. Take a new workshop, beside any other catalogue, and
let anything happen in it one after another: commands and the runs under way may come in any order,
as long as nobody replaces the index by hand. Then at all times the catalogue that the store is
wired to agrees with the store, if it is not the workshop's own from the first kind on; the
workshop's own does so whenever a manifest was just registered; and kinds that are known stay known.

All that is done in the course of a session happens one after another like this, at whatever depth
executors ask for things, and whatever is seen in the replies was answered in between. -/
theorem providers_agree_with_allocator (config : Config) (library : Library) (wiring : Wiring)
    (other : Market) :
    let start : Workshop := { new config library wiring with otherMarket := other }
    (∀ v, ReflTransGen (Proceeds Command.SparesIndex) start v → v.wiring = wiring ∧ v.UpToDate ∧
      ∀ v', ReflTransGen (Proceeds Command.SparesIndex) v v' →
        ∀ name, v.store.kinds.contains name = true → v'.store.kinds.contains name = true) ∧
    ∀ levels commands, (∀ c ∈ commands, c.Throughout Command.SparesIndex) →
      ReflTransGen (Proceeds Command.SparesIndex) start
          (replies (perform levels) commands start).2 ∧
        ∀ rs ∈ (replies (perform levels) commands start).1, ∀ r ∈ rs, ∀ a, r.Shows a →
          Heard Command.SparesIndex start a := by
  intro start
  have hstart := indexed_new config library wiring other
  refine ⟨fun v hv => ?_, fun levels commands hcommands => ?_⟩
  · have hindexed := indexed_of_proceeds hv hstart
    refine ⟨hindexed.wired, hindexed.upToDate, fun v' hv' name hname => ?_⟩
    have hknown : Indexed wiring (fun name => v.store.kinds.contains name = true) v :=
      ⟨hindexed.reachable, hindexed.wired, fun _ h => h, hindexed.own, hindexed.foreign⟩
    exact (indexed_of_proceeds hv' hknown).known name hname
  · have hnobody : Heeds Command.SparesIndex start := by
      rintro commands ⟨script, hscript, -⟩
      exact absurd hscript List.not_mem_nil
    exact replies_proceed hnobody rfl levels hcommands

/-- An apprentice is described before the chef that it extends, and a robot that does not list its
capability. Then a chef of other capabilities, which extends the apprentice in turn, is described by
an executor while it is at work. -/
def guild : List Command :=
  [.define ⟨"apprentice", some "chef", .empty⟩,
    .define ⟨"chef", none, .ofList [("capabilities", .list ["bake"])]⟩,
    .define ⟨"robot", none, .ofList [("capabilities", .text "bake")]⟩,
    .seat .algorithmic
      ⟨.echo, [[.define ⟨"chef", some "apprentice", .ofList [("capabilities", .list ["roast"])]⟩,
        .providersFor "bake"]]⟩ "scribe",
    .executeStep "copy" "write" .empty]

/-- A new workshop in which the first of these commands were given. -/
def guildAfter (n : ℕ) : Workshop :=
  (replies (perform 1) (guild.take n) { new {} (.ofPlaybooks []) .own with otherMarket := {} }).2

/-- As soon as the chef is described, it and the apprentice are listed; when it is described anew,
nobody is listed any more for what it does not offer any longer. -/
theorem providers_agree_with_allocator_guild :
    (∀ c ∈ guild, c.Throughout Command.SparesIndex) ∧
    (∀ n, (guildAfter n).market.AgreesWith (guildAfter n).store) ∧
    (guildAfter 1).market.providersFor "bake" = [] ∧
    (guildAfter 3).market.providersFor "bake" = ["apprentice", "chef"] ∧
    (guildAfter 5).market.providersFor "bake" = [] ∧
    (guildAfter 5).market.providersFor "roast" = ["apprentice", "chef"] ∧
    (guildAfter 5).market.info.providers = 2 := by
  have hplain {c : Command} (hspares : c.SparesIndex)
      (hseat : ∀ strategy worker label, c ≠ .seat strategy worker label) :
      c.Throughout Command.SparesIndex :=
    ⟨hspares, fun strategy worker label h => absurd h (hseat strategy worker label)⟩
  have hcommands : ∀ c ∈ guild, c.Throughout Command.SparesIndex := by
    intro c hc
    simp only [guild, List.mem_cons, List.not_mem_nil, or_false] at hc
    rcases hc with rfl | rfl | rfl | rfl | rfl
    on_goal 4 =>
      refine ⟨by simp [Command.SparesIndex], fun strategy worker label h => ?_⟩
      obtain ⟨-, rfl, -⟩ := Command.seat.inj h
      intro commands hcommands d hd
      obtain rfl := List.mem_singleton.1 hcommands
      rcases List.mem_pair.1 hd with rfl | rfl
    all_goals exact hplain (by simp [Command.SparesIndex]) (by simp)
  refine ⟨hcommands, fun n => ?_, by decide +kernel, by decide +kernel, by decide +kernel,
    by decide +kernel, by decide +kernel⟩
  obtain ⟨hmoments, hsessions⟩ := providers_agree_with_allocator {} (.ofPlaybooks []) .own {}
  obtain ⟨hreached, -⟩ :=
    hsessions 1 (guild.take n) fun c hc => hcommands c (List.mem_of_mem_take hc)
  obtain ⟨hwiring, hupToDate, -⟩ := hmoments _ hreached
  exact hupToDate.own hwiring

end Workshop

end Foreman
