import Foreman.Proofs.Workshop.Floor
/-!
# Stories

A story says what happened while the floor of a workshop moved: commands were carried out,
everything was shut down, runs entered with their playbooks, took turns, returned with a record or a
failure, or were dropped. Every way in which the floor can move has a story, and every story tells
of such a way. Running a playbook is a story of its own: the run enters, whatever happens besides
happens, and the run returns what the call returns, or is dropped like the call.

## Main definitions

* `Foreman.Happening`, `Foreman.Floor.Scene`, `Foreman.Floor.Story`: what happens in one move, and
  in one move after another.
* `Foreman.Happening.entries`, `Foreman.Happening.returns`, `Foreman.Happening.drops`: the runs that
  entered, those that returned and those that were dropped in the course of a story.

## Main results

* `Foreman.Floor.Story.moves`, `Foreman.Floor.Moves.exists_story`: stories tell how the floor moved.
* `Foreman.Floor.executePlaybook_story`: the story of a playbook that is run.
-/

namespace Foreman

/-- What happens in a move of the floor. -/
inductive Happening where
  /-- Something is done in the workshop that is not about runs. -/
  | done
  /-- Everything is shut down. -/
  | shutDown
  /-- A run of a playbook begins, under an id. -/
  | entered (id : String) (playbook : Playbook)
  /-- A run under way takes a turn. -/
  | turned (e e' : Errand)
  /-- A run under way returns its record, and the failure, if it failed. -/
  | returned (e : Errand) (run : RunRecord) (failure : Option Failure)
  /-- A run under way is dropped. -/
  | dropped (e : Errand)

namespace Happening

/-- The run that enters, by its id, and its playbook. -/
@[simp] def entry? : Happening → Option (String × Playbook)
  | entered id playbook => some (id, playbook)
  | _ => none

/-- The record and the failure that a run returns. -/
@[simp] def return? : Happening → Option (RunRecord × Option Failure)
  | returned _ run failure => some (run, failure)
  | _ => none

/-- The run that is dropped. -/
@[simp] def drop? : Happening → Option Errand
  | dropped e => some e
  | _ => none

/-- The run that takes a turn, returns or is dropped, as it was before. -/
def actor? : Happening → Option Errand
  | turned e _ | returned e _ _ | dropped e => some e
  | _ => none

/-- The runs that entered, in order. -/
def entries (story : List Happening) : List (String × Playbook) :=
  story.filterMap entry?

/-- The ids of the runs that entered, in order. -/
def enteredIds (story : List Happening) : List String :=
  (entries story).map Prod.fst

/-- What runs returned, in order. -/
def returns (story : List Happening) : List (RunRecord × Option Failure) :=
  story.filterMap return?

/-- The runs that were dropped, in order, as they were then. -/
def drops (story : List Happening) : List Errand :=
  story.filterMap drop?

@[simp] theorem entries_append (story more : List Happening) :
    entries (story ++ more) = entries story ++ entries more :=
  List.filterMap_append

@[simp] theorem enteredIds_append (story more : List Happening) :
    enteredIds (story ++ more) = enteredIds story ++ enteredIds more := by
  simp [enteredIds]

@[simp] theorem entries_singleton (x : Happening) : entries [x] = x.entry?.toList := by
  cases x <;> rfl

@[simp] theorem enteredIds_singleton (x : Happening) :
    enteredIds [x] = (x.entry?.map Prod.fst).toList := by
  cases x <;> rfl

@[simp] theorem returns_singleton (x : Happening) : returns [x] = x.return?.toList := by
  cases x <;> rfl

@[simp] theorem returns_append (story more : List Happening) :
    returns (story ++ more) = returns story ++ returns more :=
  List.filterMap_append

@[simp] theorem drops_singleton (x : Happening) : drops [x] = x.drop?.toList := by
  cases x <;> rfl

@[simp] theorem drops_append (story more : List Happening) :
    drops (story ++ more) = drops story ++ drops more :=
  List.filterMap_append

theorem mem_returns {story : List Happening} {e : Errand} {run : RunRecord}
    {failure : Option Failure} (h : .returned e run failure ∈ story) :
    (run, failure) ∈ returns story :=
  List.mem_filterMap.2 ⟨_, h, rfl⟩

end Happening

/-- Whether all that is on the record of a run that has come so far is published. -/
def Stage.isPublished : Stage → Bool
  | .ending _ _ _ => false
  | _ => true

/-- How a run ends that has failed, or not. -/
def RunStatus.ofFailure : Option Failure → RunStatus
  | none => .completed
  | some _ => .failed

namespace Ledger

/-- The ways in which a ledger changes. Runs enter and are finished only while it is open. -/
inductive Change (l : Ledger) : Ledger → Prop
  | same : Change l l
  | close : Change l l.close
  | start (r : RunRecord) (hopen : l.closed = false) : Change l (l.start r)
  | publish (r : RunRecord) : Change l (l.publish r)
  | drop (id : String) (hclosed : l.closed = true) : Change l (l.drop id)
  | finish (r : RunRecord) (hopen : l.closed = false) : Change l (l.finish r)

variable {l l' : Ledger}

@[simp] theorem closed_finish (l : Ledger) (r : RunRecord) : (l.finish r).closed = l.closed := by
  unfold finish
  split <;> rfl

/-- What is open has been open before. -/
theorem Change.open_of_open (h : l.Change l') (hopen : l'.closed = false) : l.closed = false := by
  cases h with
  | close => cases hopen
  | start r hbefore | finish r hbefore => exact hbefore
  | same | publish _ | drop _ _ => exact hopen

/-- Once everything is forgotten it stays so. -/
theorem Change.forgotten (h : l.Change l') (hforgotten : l = ⟨[], [], true⟩) :
    l' = ⟨[], [], true⟩ := by
  subst hforgotten
  cases h with
  | same => rfl
  | close => rfl
  | start r hopen => cases hopen
  | publish r => rfl
  | drop id _ => rfl
  | finish r hopen => cases hopen

/-- Only shutting everything down closes the ledger, and it forgets everything. -/
theorem Change.forgotten_of_closed (h : l.Change l') (hopen : l.closed = false)
    (hclosed : l'.closed = true) : l' = ⟨[], [], true⟩ := by
  cases h with
  | close => rfl
  | drop id hclosed' => simp [hopen] at hclosed'
  | finish r _ => simp [hopen] at hclosed
  | same | start _ _ | publish _ => exact absurd (hopen.symm.trans hclosed) Bool.false_ne_true

end Ledger

namespace Errand

variable {besides : Errand → Workshop → Workshop → Prop} {e₀ e e' : Errand} {w₀ w w' : Workshop}
  {deeds : List Store.Deed} {run : RunRecord} {failure : Option Failure}

/-- A run keeps its id in every turn. -/
theorem Turn.run_id (h : e.Turn w deeds e' w') : e'.run.id = e.run.id := by
  cases h <;> rfl

theorem Course.run_id (h : Course besides e₀ w₀ e w) : e.run.id = e₀.run.id := by
  induction h with
  | start => rfl
  | turn _ hturn ih => exact hturn.run_id.trans ih
  | meanwhile _ _ ih => exact ih

/-- A run returns a record of its own. -/
theorem Returns.run_id (h : e.Returns w deeds run failure w') : run.id = e.run.id := by
  cases h <;> rfl

/-! ### The ledger, turn by turn -/

/-- In a turn the record of a run is published, unless the step has yet to give back what it
holds. -/
theorem Turn.ledger (h : e.Turn w deeds e' w') :
    w'.ledger = if e'.stage.isPublished then w.ledger.publish e'.run else w.ledger := by
  cases h with
  | begin hopen => rfl
  | supply hgiven => rfl
  | refuse hrefused => rfl
  | deliver result => rfl
  | giveUp f => rfl
  | @settle run left s id failure w => cases failure <;> rfl

theorem Turn.history_eq (h : e.Turn w deeds e' w') : w'.ledger.history = w.ledger.history := by
  rw [h.ledger]
  split <;> rfl

theorem Turn.closed_eq (h : e.Turn w deeds e' w') : w'.ledger.closed = w.ledger.closed := by
  rw [h.ledger]
  split <;> rfl

/-- Once everything has been shut down, a run that returns is dropped from the ledger. Before that
it is finished. -/
theorem Returns.ledger (h : e.Returns w deeds run failure w') :
    (w.ledger.closed = true ∧ failure = some .shutDown ∧ w'.ledger = w.ledger.drop run.id) ∨
      (w.ledger.closed = false ∧ run.status = .ofFailure failure ∧
        w'.ledger = w.ledger.finish run) := by
  cases h with
  | abandoned hclosed hidle =>
    have hnoted := Workshop.does_note (.runAbandoned e.run.id e.run.steps.length) w
    have hreleased := (hnoted.trans (Workshop.does_releaseAll e.run.ids _)).ledger
    rw [RunRecord.ids, List.foldl_map] at hreleased
    refine .inl ⟨hclosed, rfl, ?_⟩
    unfold Workshop.abandon
    dsimp only
    rw [hreleased]
  | completed hopen => exact .inr ⟨hopen, rfl, rfl⟩
  | failed hopen => exact .inr ⟨hopen, rfl, rfl⟩

end Errand

namespace Floor

open Workshop Errand

/-- What happens in a move of the floor. -/
inductive Scene : Floor → Happening → Floor → Prop
  | act {w w' errands deeds} (hdoes : w.Does deeds w') : Scene ⟨w, errands⟩ .done ⟨w', errands⟩
  | shutdown {w errands} : Scene ⟨w, errands⟩ .shutDown ⟨w.shutdown, errands⟩
  | enter {w name playbook} (errands : List Errand) (input : Bindings)
      (hopen : w.ledger.closed = false) (hload : w.library.load name = .ok playbook) :
      Scene ⟨w, errands⟩ (.entered (w.beginRun playbook input).1.id playbook)
        ⟨(w.beginRun playbook input).2,
          .ofRun (w.beginRun playbook input).1 playbook.steps :: errands⟩
  | turn {w w' e e' deeds} (before after : List Errand) (hturn : e.Turn w deeds e' w') :
      Scene ⟨w, before ++ e :: after⟩ (.turned e e') ⟨w', before ++ e' :: after⟩
  | leave {w w' e deeds run failure} (before after : List Errand)
      (hreturns : e.Returns w deeds run failure w') :
      Scene ⟨w, before ++ e :: after⟩ (.returned e run failure) ⟨w', before ++ after⟩
  | drop {w e} (before after : List Errand) (hwork : e.AtWork) :
      Scene ⟨w, before ++ e :: after⟩ (.dropped e) ⟨w, before ++ after⟩

/-- What happens in one move after another. -/
inductive Story (σ : Floor) : List Happening → Floor → Prop
  | refl : Story σ [] σ
  | tail {story τ x υ} (h : Story σ story τ) (hscene : Scene τ x υ) : Story σ (story ++ [x]) υ

variable {σ τ υ : Floor} {story more : List Happening} {x : Happening}

theorem Scene.single (h : Scene σ x τ) : Story σ [x] τ :=
  Story.refl.tail h

theorem Story.trans (h : Story σ story τ) (h' : Story τ more υ) : Story σ (story ++ more) υ := by
  induction h' with
  | refl => simpa using h
  | tail _ hscene ih =>
    rw [← List.append_assoc]
    exact ih.tail hscene

/-! ### The ledger in the course of a story -/

/-- What happens on the floor changes the ledger in one of a few ways. -/
theorem Scene.ledger (h : Scene σ x τ) : σ.shop.ledger.Change τ.shop.ledger := by
  cases h with
  | act hdoes =>
    rw [hdoes.ledger]
    exact .same
  | shutdown =>
    rw [(Workshop.does_shutdown _).ledger]
    exact .close
  | enter errands input hopen hload => exact .start _ hopen
  | turn before after hturn =>
    rw [hturn.ledger]
    split
    · exact .publish _
    · exact .same
  | leave before after hreturns =>
    rcases hreturns.ledger with ⟨hclosed, -, hledger⟩ | ⟨hopen, -, hledger⟩
    · rw [hledger]
      exact .drop _ hclosed
    · rw [hledger]
      exact .finish _ hopen
  | drop before after hwork => exact .same

/-- Once everything is forgotten it stays so. -/
theorem Story.forgotten (h : Story σ story τ) (hforgotten : σ.shop.ledger = ⟨[], [], true⟩) :
    τ.shop.ledger = ⟨[], [], true⟩ := by
  induction h with
  | refl => exact hforgotten
  | tail _ hscene ih => exact hscene.ledger.forgotten ih

/-- In a story that begins in a new workshop, a closed ledger is an empty one. -/
theorem Story.forgotten_of_closed {config : Config} {library : Library} {wiring : Wiring}
    (h : Story ⟨.new config library wiring, []⟩ story σ) (hclosed : σ.shop.ledger.closed = true) :
    σ.shop.ledger = ⟨[], [], true⟩ := by
  induction h with
  | refl => cases hclosed
  | @tail story τ x υ _ hscene ih =>
    cases hbefore : τ.shop.ledger.closed with
    | true => exact hscene.ledger.forgotten (ih hbefore)
    | false => exact hscene.ledger.forgotten_of_closed hbefore hclosed

/-! ### Stories and moves -/

theorem Scene.move (h : Scene σ x τ) : ∃ deeds, Move σ deeds τ := by
  cases h with
  | act hdoes => exact ⟨_, .act hdoes⟩
  | shutdown => exact ⟨_, .shutdown⟩
  | enter errands input hopen hload => exact ⟨_, .enter errands input hopen hload⟩
  | turn before after hturn => exact ⟨_, .turn before after hturn⟩
  | leave before after hreturns => exact ⟨_, .leave before after hreturns⟩
  | drop before after hwork => exact ⟨_, .drop before after hwork⟩

theorem Move.scene {deeds : List Store.Deed} (h : Move σ deeds τ) : ∃ x, Scene σ x τ := by
  cases h with
  | act hdoes => exact ⟨_, .act hdoes⟩
  | shutdown => exact ⟨_, .shutdown⟩
  | enter errands input hopen hload => exact ⟨_, .enter errands input hopen hload⟩
  | turn before after hturn => exact ⟨_, .turn before after hturn⟩
  | leave before after hreturns => exact ⟨_, .leave before after hreturns⟩
  | drop before after hwork => exact ⟨_, .drop before after hwork⟩

/-- A story tells how the floor moved. -/
theorem Story.moves (h : Story σ story τ) : ∃ deeds, Moves σ deeds τ := by
  induction h with
  | refl => exact ⟨[], .refl⟩
  | tail _ hscene ih =>
    obtain ⟨deeds, hmoves⟩ := ih
    obtain ⟨others, hmove⟩ := hscene.move
    exact ⟨_, hmoves.tail hmove⟩

/-- However the floor moves, there is a story of it. -/
theorem Moves.exists_story {deeds : List Store.Deed} (h : Moves σ deeds τ) :
    ∃ story, Story σ story τ := by
  induction h with
  | refl => exact ⟨[], .refl⟩
  | tail _ hmove ih =>
    obtain ⟨story, hstory⟩ := ih
    obtain ⟨x, hscene⟩ := hmove.scene
    exact ⟨_, hstory.tail hscene⟩

/-- If one workshop leads to another, there is a story of how it does. -/
theorem story_of_leads {w w' : Workshop} {errands : List Errand} (hleads : Leads σ w w')
    (h : Story σ story ⟨w, errands⟩) : ∃ more, Story ⟨w, errands⟩ more ⟨w', errands⟩ := by
  obtain ⟨deeds, hmoves⟩ := h.moves
  obtain ⟨others, hmoves'⟩ := hleads errands deeds hmoves
  exact hmoves'.exists_story

/-! ### The story of a run -/

/-- While a run goes its way, there is a story of it. -/
theorem story_of_course {w w' : Workshop} {e₀ e : Errand} {errands : List Errand}
    (h : Course (fun _ v v' => Leads σ v v') e₀ w e w')
    (hreached : Story σ story ⟨w, e₀ :: errands⟩) :
    ∃ more, Story ⟨w, e₀ :: errands⟩ more ⟨w', e :: errands⟩ := by
  induction h with
  | start => exact ⟨[], .refl⟩
  | turn _ hturn ih =>
    obtain ⟨more, hmore⟩ := ih
    exact ⟨_, hmore.tail (.turn [] errands hturn)⟩
  | meanwhile _ hleads ih =>
    obtain ⟨more, hmore⟩ := ih
    obtain ⟨rest, hrest⟩ := story_of_leads hleads (hreached.trans hmore)
    exact ⟨_, hmore.trans hrest⟩

/-- A run enters, and in the end it returns what its call returns, or is dropped like it. -/
inductive Runs (σ : Floor) (id : String) (playbook : Playbook) :
    Option (Except Failure RunRecord) → Floor → Prop
  | returned (more : List Happening) {e run failure τ} (hid : run.id = id)
      (hstory : Story σ (.entered id playbook :: (more ++ [.returned e run failure])) τ) :
      Runs σ id playbook (some (run.outcome failure)) τ
  | dropped (more : List Happening) {e τ} (hid : e.run.id = id)
      (hstory : Story σ (.entered id playbook :: (more ++ [.dropped e])) τ) :
      Runs σ id playbook none τ

/-- A record that is returned in the end is returned in the course of the story. -/
theorem Runs.of_ok {id : String} {playbook : Playbook} {result : Option (Except Failure RunRecord)}
    {run : RunRecord} (h : Runs σ id playbook result τ) (hok : result = some (.ok run)) :
    ∃ story, Story σ story τ ∧ (run, none) ∈ Happening.returns story := by
  cases h with
  | dropped => cases hok
  | @returned more e _ failure _ _ hstory =>
    cases failure with
    | none =>
      obtain rfl := Except.ok.inj (Option.some.inj hok)
      exact ⟨_, hstory, Happening.mem_returns (e := e) (by simp)⟩
    | some f => cases hok

/-- A playbook is run on a floor, whoever attends to the executors. Once everything has been shut
down, or if there is no such playbook, nothing happens. Otherwise a run enters, and in the end it
returns what the call returns, or is dropped like the call. -/
theorem executePlaybook_story {attendant : Attendant} {w : Workshop} {errands : List Errand}
    (hattend : ∀ commands v, Leads σ v (attendant commands v).2)
    (hreached : Story σ story ⟨w, errands⟩) (name : String) (input : Bindings) :
    (w.ledger.closed = true →
      executePlaybook attendant name input w = (some (.error .shutDown), w)) ∧
    (w.ledger.closed = false → ∀ f, w.library.load name = .error f →
      executePlaybook attendant name input w = (some (.error f), w)) ∧
    (w.ledger.closed = false → ∀ playbook, w.library.load name = .ok playbook →
      Runs ⟨w, errands⟩ (w.beginRun playbook input).1.id playbook
        (executePlaybook attendant name input w).1
        ⟨(executePlaybook attendant name input w).2, errands⟩) := by
  refine ⟨fun hclosed => by simp [executePlaybook, hclosed],
    fun hopen f hload => by simp [executePlaybook, hopen, hload], fun hopen playbook hload => ?_⟩
  have hattends : Attends attendant (fun _ v v' => Leads σ v v') name input w :=
    ⟨fun _ _ _ hdoes => hdoes.leads, fun _ _ _ v commands _ => hattend commands v⟩
  have hcall := hattends.call
  generalize executePlaybook attendant name input w = result at hcall ⊢
  generalize stepIds attendant name input w = ids at hcall
  obtain ⟨result, w'⟩ := result
  cases hcall with
  | closed hclosed =>
    rw [hopen] at hclosed
    cases hclosed
  | notFound _ hload' =>
    rw [hload] at hload'
    cases hload'
  | @ran playbook' e v deeds run ended _ _ hload' hcourse hends =>
    obtain rfl : playbook = playbook' := by simpa [hload] using hload'
    have hentered := (Scene.enter errands input hopen hload).single
    obtain ⟨more, hmore⟩ := story_of_course hcourse (hreached.trans hentered)
    have hid : e.run.id = (w.beginRun playbook input).1.id := hcourse.run_id
    cases hends with
    | returned hreturns =>
      have hleft := (hentered.trans hmore).tail (.leave [] errands hreturns)
      exact .returned more (hreturns.run_id.trans hid) (by simpa using hleft)
    | dropped hwork =>
      have hdropped := (hentered.trans hmore).tail (.drop [] errands hwork)
      exact .dropped more hid (by simpa using hdropped)

end Floor

end Foreman
