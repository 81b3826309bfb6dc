import Foreman.Proofs.Workshop.Story
import Mathlib.Data.List.Perm.Basic
/-!
# Calls under way, turn by turn

A call to run a playbook first looks whether everything has been shut down, then waits for its
playbook, and then puts its run on record; then it looks again before every step and behind the
last, publishes its steps, and in the end records its run as over or takes it off the record. A call
to shut everything down first says so, and then forgets what is on record. In a turn a call has
access to the ledger at most once, and any of the others may take turns before its next. A call that
is dropped takes no turn any more.

## Main definitions

* `Foreman.Caller`, `Foreman.Caller.Turn`: a call under way, and its turns.
* `Foreman.Lobby`, `Foreman.Lobby.Moves`: a ledger and all calls under way, which take turns in any
  order.
* `Foreman.Lobby.Mirrors`: the calls are those of the runs on the floor of a workshop.

## Main results

* `Foreman.Errand.Turn.reaches`, `Foreman.Errand.Returns.reaches`: what a run does by itself is made
  up of turns of its call.
* `Foreman.Floor.Story.lobby`: whatever happens on the floor of a workshop comes of such turns.
-/

namespace Foreman

open Relation

/-- A call under way, by what it does next. -/
inductive Caller where
  /-- A call to run a playbook, which is to look whether everything has been shut down. -/
  | arriving
  /-- One that waits for its playbook. -/
  | waiting
  /-- One that is to put its run on record. -/
  | ready (run : RunRecord)
  /-- One whose run has no step under way. -/
  | due (id : String)
  /-- One whose run has a step under way. -/
  | working (id : String)
  /-- One whose run has a step that failed. -/
  | stuck (id : String)
  /-- One whose run is to be recorded as over. -/
  | concluding (id : String)
  /-- One whose run is to be taken off the record, because everything has been shut down. -/
  | leaving (id : String)
  /-- A call to shut everything down, which has yet to say so. -/
  | closing
  /-- One that has yet to forget what is on record. -/
  | draining
  /-- One that is through with the ledger. -/
  | gone

namespace Caller

/-- What a call does next, and what becomes of the ledger. A run may have as many steps as it likes,
and a step may be published as often as it likes. -/
inductive Turn : Caller → Ledger → Caller → Ledger → Prop
  | refuse {l} (hclosed : l.closed = true) : Turn .arriving l .gone l
  | letIn {l} (hopen : l.closed = false) : Turn .arriving l .waiting l
  | notFound {l} : Turn .waiting l .gone l
  | found {l} (run : RunRecord) : Turn .waiting l (.ready run) l
  | start {run l} : Turn (.ready run) l (.due run.id) (l.start run)
  | proceed {id l} (hopen : l.closed = false) : Turn (.due id) l (.working id) l
  | publish {l} (run : RunRecord) : Turn (.working run.id) l (.working run.id) (l.publish run)
  | getDone {id l} : Turn (.working id) l (.due id) l
  | fail {id l} : Turn (.working id) l (.stuck id) l
  | complete {id l} (hopen : l.closed = false) : Turn (.due id) l (.concluding id) l
  | giveUp {id l} (hopen : l.closed = false) : Turn (.stuck id) l (.concluding id) l
  | finish {l} (run : RunRecord) : Turn (.concluding run.id) l .gone (l.finish run)
  | interrupt {id l} (hclosed : l.closed = true) : Turn (.due id) l (.leaving id) l
  | abandon {id l} (hclosed : l.closed = true) : Turn (.stuck id) l (.leaving id) l
  | drop {id l} : Turn (.leaving id) l .gone (l.drop id)
  | announce {l} : Turn .closing l .draining { l with closed := true }
  | drain {l} : Turn .draining l .gone l.close

/-- What comes of some turns of a call, with none of the others between them. -/
def Reaches (c : Caller) (l : Ledger) (c' : Caller) (l' : Ledger) : Prop :=
  ReflTransGen (fun p q => Turn p.1 p.2 q.1 q.2) (c, l) (c', l')

variable {c c' c'' : Caller} {l l' l'' : Ledger}

theorem Reaches.refl : c.Reaches l c l :=
  ReflTransGen.refl

theorem Reaches.tail (h : c.Reaches l c' l') (hturn : c'.Turn l' c'' l'') : c.Reaches l c'' l'' :=
  ReflTransGen.tail h hturn

theorem Turn.reaches (h : c.Turn l c' l') : c.Reaches l c' l' :=
  Reaches.refl.tail h

end Caller

/-- A ledger and the calls under way. -/
structure Lobby where
  /-- The ledger. -/
  ledger : Ledger := {}
  /-- The calls, in the order in which they came. -/
  callers : List Caller := []

namespace Lobby

/-- Someone calls, or a call takes a turn. -/
inductive Move : Lobby → Lobby → Prop
  | call (σ : Lobby) : Move σ { σ with callers := σ.callers ++ [.arriving] }
  | shutdown (σ : Lobby) : Move σ { σ with callers := σ.callers ++ [.closing] }
  | turn {l l' callers c c'} (k : ℕ) (hk : callers[k]? = some c) (hturn : c.Turn l c' l') :
      Move ⟨l, callers⟩ ⟨l', callers.set k c'⟩

/-- One move after another. -/
abbrev Moves : Lobby → Lobby → Prop :=
  ReflTransGen Move

variable {σ σ' τ υ : Lobby} {l l' : Ledger} {callers rest : List Caller} {c c' : Caller} {k : ℕ}

/-- The turns of one call are moves. -/
theorem moves_of_reaches (hk : callers[k]? = some c) (h : c.Reaches l c' l') :
    Moves ⟨l, callers⟩ ⟨l', callers.set k c'⟩ := by
  have hlt : k < callers.length := (List.getElem?_eq_some_iff.1 hk).1
  -- for pairs, as the induction needs
  suffices hpairs : ∀ q, ReflTransGen (fun p q => Caller.Turn p.1 p.2 q.1 q.2) (c, l) q →
      Moves ⟨l, callers⟩ ⟨q.2, callers.set k q.1⟩ from hpairs (c', l') h
  intro q hq
  induction hq with
  | refl =>
    obtain ⟨_, rfl⟩ := List.getElem?_eq_some_iff.1 hk
    rw [List.set_getElem_self]
  | @tail p q _ hturn ih =>
    have hp : (callers.set k p.1)[k]? = some p.1 := by simp [hlt]
    have hmove := Move.turn k hp hturn
    rw [List.set_set] at hmove
    exact ih.tail hmove

/-- Someone calls, and the call takes some turns. -/
theorem moves_of_join (hjoin : Move σ ⟨σ.ledger, σ.callers ++ [c]⟩)
    (h : c.Reaches σ.ledger c' l') : Moves σ ⟨l', σ.callers ++ [c']⟩ := by
  have hlast : (σ.callers ++ [c])[σ.callers.length]? = some c := List.getElem?_concat_length
  have hmoves := moves_of_reaches hlast h
  rw [List.set_append_right _ _ (Nat.le_refl _), Nat.sub_self] at hmoves
  exact (ReflTransGen.single hjoin).trans hmoves

/-- One of the calls takes some turns; the order of the calls does not matter. -/
theorem exists_moves_of_perm (hperm : callers.Perm (c :: rest)) (h : c.Reaches l c' l') :
    ∃ callers', Moves ⟨l, callers⟩ ⟨l', callers'⟩ ∧ callers'.Perm (c' :: rest) := by
  obtain ⟨k, hlt, rfl⟩ := List.getElem_of_mem (hperm.mem_iff.2 List.mem_cons_self)
  refine ⟨_, moves_of_reaches (List.getElem?_eq_getElem hlt) h, ?_⟩
  have hrest : (callers.eraseIdx k).Perm rest :=
    ((List.getElem_cons_eraseIdx_perm hlt).trans hperm).cons_inv
  exact (List.set_perm_cons_eraseIdx hlt c').trans (hrest.cons c')

end Lobby

/-! ### The floor of a workshop -/

namespace Errand

variable {e e' : Errand} {w w' : Workshop} {deeds : List Store.Deed} {run : RunRecord}
  {failure : Option Failure}

/-- A run under way, as a call. -/
def caller (e : Errand) : Caller :=
  match e.stage with
  | .due => .due e.run.id
  | .begun _ _ | .atWork _ _ | .ending _ _ _ => .working e.run.id
  | .failed _ _ => .stuck e.run.id

/-- When a run takes a turn, so does its call. -/
theorem Turn.reaches (h : e.Turn w deeds e' w') :
    e.caller.Reaches w.ledger e'.caller w'.ledger := by
  cases h with
  | @begin run s rest w hopen =>
    have hproceeding : (Caller.due run.id).Reaches w.ledger (.working run.id) w.ledger :=
      (Caller.Turn.proceed hopen).reaches
    exact hproceeding.tail (.publish (Workshop.beginStep run s w).2.1)
  | @supply run left s id w given hgiven =>
    exact (Caller.Turn.publish (l := w.ledger) (run.supply given (run.inputsFor s))).reaches
  | refuse hrefused => exact .refl
  | deliver result => exact .refl
  | giveUp f => exact .refl
  | @settle run left s id failure w =>
    have hpublished := (Caller.Turn.publish (l := w.ledger) (run.settle failure w.now)).reaches
    cases failure with
    | none => exact hpublished.tail .getDone
    | some f => exact hpublished.tail .fail

/-- When a run returns, its call is through. -/
theorem Returns.reaches (h : e.Returns w deeds run failure w') :
    e.caller.Reaches w.ledger .gone w'.ledger := by
  rcases h.ledger with ⟨hclosed, -, hledger⟩ | ⟨hopen, -, hledger⟩
  · have hidle := h.current?_eq_none
    have hleaving : e.caller.Reaches w.ledger (.leaving e.run.id) w.ledger := by
      obtain ⟨run, left, stage⟩ := e
      cases stage with
      | due => exact (Caller.Turn.interrupt hclosed).reaches
      | failed _ _ => exact (Caller.Turn.abandon hclosed).reaches
      | begun _ _ | atWork _ _ | ending _ _ _ => exact nomatch hidle
    rw [hledger, h.run_id]
    exact hleaving.tail .drop
  · have hconcluding : e.caller.Reaches w.ledger (.concluding run.id) w.ledger := by
      cases h with
      | abandoned hclosed hidle => exact absurd (hopen.symm.trans hclosed) Bool.false_ne_true
      | completed hopen => exact (Caller.Turn.complete hopen).reaches
      | failed hopen => exact (Caller.Turn.giveUp hopen).reaches
    rw [hledger]
    exact hconcluding.tail (.finish run)

end Errand

namespace Lobby

variable {σ σ' τ υ : Lobby} {l l' : Ledger} {callers before : List Caller} {c c' : Caller}
  {k : ℕ} {φ ψ : Floor} {x : Happening} {story : List Happening}

/-- The calls of some runs under way, and so many that are through. -/
def calls (errands : List Errand) (through : ℕ) : List Caller :=
  errands.map Errand.caller ++ List.replicate through Caller.gone

theorem calls_perm {errands others : List Errand} (h : errands.Perm others) (through : ℕ) :
    (calls errands through).Perm (calls others through) :=
  (h.map _).append_right _

/-- One of the runs that are on the floor, besides some that were dropped. -/
theorem calls_middle (earlier later dropped : List Errand) (e : Errand) (through : ℕ) :
    (calls (earlier ++ e :: later ++ dropped) through).Perm
      (e.caller :: calls (earlier ++ later ++ dropped) through) :=
  calls_perm (List.perm_middle.append_right dropped) through

theorem calls_succ (errands : List Errand) (through : ℕ) :
    (calls errands (through + 1)).Perm (.gone :: calls errands through) := by
  rw [calls, List.replicate_succ]
  exact List.perm_middle

/-- The ledger is that of a workshop, and the calls are those of the runs under way there, besides
calls that were dropped and calls that are through. -/
structure Mirrors (σ : Lobby) (φ : Floor) : Prop where
  /-- The ledger is the same. -/
  ledger : σ.ledger = φ.shop.ledger
  /-- The calls are those of the runs, in any order. -/
  callers : ∃ dropped through, σ.callers.Perm (calls (φ.errands ++ dropped) through)

/-- What happens on the floor of a workshop comes of moves. -/
theorem Mirrors.scene (hσ : σ.Mirrors φ) (h : Floor.Scene φ x ψ) :
    ∃ τ, Moves σ τ ∧ τ.Mirrors ψ := by
  obtain ⟨l, callers⟩ := σ
  obtain ⟨hledger, dropped, through, hperm⟩ := hσ
  cases h with
  | act hdoes => exact ⟨_, .refl, hledger.trans hdoes.ledger.symm, dropped, through, hperm⟩
  | @shutdown w errands =>
    refine ⟨_, moves_of_join (.shutdown _) (Caller.Turn.announce.reaches.tail .drain),
      (Workshop.does_shutdown w).ledger.symm, dropped, through + 1, ?_⟩
    exact (List.perm_append_singleton _ _).trans ((hperm.cons _).trans (calls_succ _ _).symm)
  | @enter w name playbook errands input hopen hload =>
    obtain rfl : l = w.ledger := hledger
    have hentered := ((Caller.Turn.letIn hopen).reaches.tail
      (.found (w.beginRun playbook input).1)).tail .start
    refine ⟨_, moves_of_join (.call _) hentered, rfl, dropped, through, ?_⟩
    exact (List.perm_append_singleton _ _).trans (hperm.cons _)
  | @turn w w' e e' deeds earlier later hturn =>
    obtain rfl : l = w.ledger := hledger
    obtain ⟨callers', hmoves, hperm'⟩ := exists_moves_of_perm
      (hperm.trans (calls_middle earlier later dropped e through)) hturn.reaches
    exact ⟨_, hmoves, rfl, dropped, through,
      hperm'.trans (calls_middle earlier later dropped e' through).symm⟩
  | @leave w w' e deeds run failure earlier later hreturns =>
    obtain rfl : l = w.ledger := hledger
    obtain ⟨callers', hmoves, hperm'⟩ := exists_moves_of_perm
      (hperm.trans (calls_middle earlier later dropped e through)) hreturns.reaches
    exact ⟨_, hmoves, rfl, dropped, through + 1, hperm'.trans (calls_succ _ through).symm⟩
  | @drop w e earlier later hwork =>
    refine ⟨_, .refl, hledger, e :: dropped, through, hperm.trans ?_⟩
    exact (calls_middle earlier later dropped e through).trans
      (calls_perm List.perm_middle through).symm

end Lobby

/-- Whatever happens on the floor of a workshop, beginning with a new one, comes of moves. -/
theorem Floor.Story.lobby {config : Config} {library : Library} {wiring : Wiring} {φ : Floor}
    {story : List Happening} (h : Story ⟨.new config library wiring, []⟩ story φ) :
    ∃ τ, Lobby.Moves {} τ ∧ τ.Mirrors φ := by
  induction h with
  | refl => exact ⟨{}, .refl, rfl, [], 0, .refl _⟩
  | tail _ hscene ih =>
    obtain ⟨τ, hmoves, hτ⟩ := ih
    obtain ⟨υ, hmore, hυ⟩ := hτ.scene hscene
    exact ⟨υ, hmoves.trans hmore, hυ⟩

end Foreman
