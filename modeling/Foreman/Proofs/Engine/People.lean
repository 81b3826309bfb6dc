import Foreman.Proofs.Engine.Trail
import Foreman.Workshop.Labour
/-!
# When people are asked

A person is asked in the course of a step if and only if the policy admits people: they may be used,
and the policy says that they may be asked, or leaves no other strategy of its chain to be used.
Where it does not admit them, the turn of a person leaves nothing but an entry that says so, and the
step comes to the same as if people were not in the chain at all.

Somebody may follow several strategies, so that a call alone does not tell whether a person was
asked. Executors are therefore given labels, which name the strategy on behalf of which they are
called. Labels change nothing about the run.

## Main definitions

* `Foreman.Crew.labelled`: a crew whose executors carry labels.
* `Foreman.Engine.calls`: the calls in the course of a step, with the strategy of each.
* `Foreman.Engine.reasonAgainstPeople`: why people are passed over who are not admitted.
* `Foreman.Policy.withoutPeople`, `Foreman.Engine.leaveOutPeople`: a policy with no people in its
  chain, and an outcome with no people in its trail.

## Main results

* `Foreman.Engine.calls_admitted`: nobody is called on behalf of a strategy that is not admitted.
* `Foreman.Engine.exists_turn`: what a strategy leaves whose turn comes.
* `Foreman.Engine.getElem?_calls`, `Foreman.Engine.getElem?_trailOf`: whoever is admitted is called
  next, and if nobody is, the next entry says so.
* `Foreman.Engine.run_withoutPeople`: people who are not admitted may as well be left out.
* `Foreman.Engine.people_asked_where_admitted`: people are asked where they are admitted.
-/

namespace Foreman

variable {σ : Type u} {ε : Type v}

/-- A crew whose executors carry the strategy on behalf of which they are called, and which
otherwise behaves like the one given. -/
def Crew.labelled (crew : Crew σ ε) : Crew σ (Strategy × ε) where
  seated w s := (crew.seated w s).map fun who => (s, who)
  attempt who r w := crew.attempt who.2 r w
  note := crew.note
  clock := crew.clock

/-- A policy with no people in its chain. -/
def Policy.withoutPeople (p : Policy) : Policy :=
  { p with chain := p.chain.filter (· ≠ .human) }

namespace Engine

variable {crew : Crew σ ε} {policy : Policy} {r : Request} {s : Strategy} {p q : Progress} {w v : σ}

/-! ### Labels change nothing -/

theorem tryRepeatedly_labelled (label : Strategy) (who : ε) (left number : Nat) (p : Progress)
    (w : σ) :
    tryRepeatedly crew.labelled (label, who) r s left number p w =
      tryRepeatedly crew who r s left number p w := by
  induction left generalizing number p w with
  | zero => rfl
  | succ left ih =>
    rcases hplain : crew.attempt who r w with ⟨a, w'⟩
    have hlabelled : crew.labelled.attempt (label, who) r w = (a, w') := hplain
    simp only [tryRepeatedly, hplain, hlabelled]
    split
    · rfl
    · exact ih _ _ _

theorem tryStrategy_labelled (p : Progress) (w : σ) :
    tryStrategy crew.labelled policy r s p w = tryStrategy crew policy r s p w := by
  unfold tryStrategy
  cases skip? policy s with
  | some why => rfl
  | none =>
    have hseated : crew.labelled.seated w s = (crew.seated w s).map fun who => (s, who) := rfl
    rw [hseated]
    cases crew.seated w s with
    | none => rfl
    | some who =>
      simp only [Option.map_some, tryRepeatedly_labelled]
      rfl

theorem tryChain_labelled (chain : List Strategy) (p : Progress) (w : σ) :
    tryChain crew.labelled policy r chain p w = tryChain crew policy r chain p w := by
  induction chain generalizing p w with
  | nil => rfl
  | cons s rest ih =>
    simp only [tryChain, tryStrategy_labelled, ih]

theorem run_labelled (crew : Crew σ ε) (policy : Policy) (step method : String) (inputs : Bindings)
    (w : σ) :
    run crew.labelled policy step method inputs w = run crew policy step method inputs w := by
  simp only [run, tryChain_labelled]
  rfl

/-! ### Calls and trails -/

/-- The calls of executors in the course of a step, each with the strategy on behalf of which it is
made. -/
def calls (crew : Crew σ ε) (policy : Policy) (step method : String) (inputs : Bindings) (w : σ) :
    List (Strategy × ε) :=
  (run crew.labelled.watched policy step method inputs (w, [])).2.2.map Exchange.who

/-- The trail that an outcome tells of. -/
def trailOf : Except Failure StepResult → List TrailEntry
  | .ok result => result.trail
  | .error (.exhausted _ _ trail) => trail
  | .error _ => []

theorem run_snd (crew : Crew σ ε) (policy : Policy) (step method : String) (inputs : Bindings)
    (w : σ) :
    (run crew policy step method inputs w).2 =
      (tryChain crew policy ⟨step, method, inputs, policy.timeout⟩ policy.chain {} w).2.2 := by
  rcases h : tryChain crew policy ⟨step, method, inputs, policy.timeout⟩ policy.chain {} w with
    ⟨_ | ⟨s, o⟩, p, w'⟩ <;> simp only [run, h]

theorem trailOf_run (crew : Crew σ ε) (policy : Policy) (step method : String) (inputs : Bindings)
    (w : σ) :
    trailOf (run crew policy step method inputs w).1 =
      (tryChain crew policy ⟨step, method, inputs, policy.timeout⟩
        policy.chain {} w).2.1.trail := by
  rcases h : tryChain crew policy ⟨step, method, inputs, policy.timeout⟩ policy.chain {} w with
    ⟨_ | ⟨s, o⟩, p, w'⟩ <;> simp only [run, h, trailOf]

/-! ### Nobody is called without being admitted -/

theorem Fails.who_eq {who : ε} {number : Nat} {xs : List (Exchange ε)}
    (h : Fails crew r s who number w xs v) : ∀ x ∈ xs, x.who = who := by
  induction h with
  | done => exact fun x hx => absurd hx List.not_mem_nil
  | more _ _ ih => exact List.forall_mem_cons.2 ⟨rfl, ih⟩

/-- In its turn a strategy that is admitted is followed by whoever is there to follow it, and a
strategy that is not admitted is followed by nobody. -/
theorem Took.seated_of_mem {t : Turn ε} {x : Exchange ε} (h : Took crew policy r s w t v)
    (hx : x ∈ t.exchanges) : Admits policy s ∧ crew.seated w s = some x.who := by
  cases h with
  | passed => exact absurd hx List.not_mem_nil
  | exhausted hadmits hseated _ _ hfails => exact ⟨hadmits, by rw [hseated, hfails.who_eq x hx]⟩
  | succeeded hadmits hseated _ hfails _ =>
    refine ⟨hadmits, ?_⟩
    rcases List.mem_append.1 hx with hx | hx
    · rw [hseated, hfails.who_eq x hx]
    · obtain rfl := List.mem_singleton.1 hx
      exact hseated

/-- An executor with a label is called in the turn of that strategy only. -/
theorem Took.label_of_mem {t : Turn (Strategy × ε)} {x : Exchange (Strategy × ε)}
    (h : Took crew.labelled policy r s w t v) (hx : x ∈ t.exchanges) : x.who.1 = s := by
  obtain ⟨-, hseated⟩ := h.seated_of_mem hx
  obtain ⟨who, -, hwho⟩ := Option.map_eq_some_iff.1 hseated
  rw [← hwho]

/-- If a strategy is admitted, attempts are to be made, and somebody is there to follow it, then
that one is called in its turn. -/
theorem Took.exists_exchange {t : Turn ε} {who : ε} (h : Took crew policy r s w t v)
    (hadmits : Admits policy s) (hpos : 0 < policy.attempts)
    (hseated : crew.seated w s = some who) :
    ∃ x xs, t.exchanges = x :: xs ∧ x.who = who := by
  have hne : t.exchanges ≠ [] := by
    cases h with
    | passed hwhy =>
      rw [hseated] at hwhy
      cases hwhy with
      | notAvailable hnot => exact absurd hadmits.available hnot
      | humanNotAllowed _ hhuman hnot => exact absurd (hadmits.human hhuman) hnot
      | noAttempts _ hzero => omega
    | exhausted _ _ _ hlength _ => exact List.ne_nil_of_length_pos (hlength ▸ hpos)
    | succeeded => simp
  obtain ⟨x, xs, hexchanges⟩ := List.exists_cons_of_ne_nil hne
  obtain ⟨-, hwho⟩ := h.seated_of_mem (hexchanges ▸ List.mem_cons_self)
  exact ⟨x, xs, hexchanges, Option.some.inj (hwho.symm.trans hseated)⟩

/-- Nobody is called on behalf of a strategy that is not admitted. -/
theorem calls_admitted (crew : Crew σ ε) (policy : Policy) (step method : String)
    (inputs : Bindings) (w : σ) :
    ∀ c ∈ calls crew policy step method inputs w, Admits policy c.1 := by
  obtain ⟨ts, w', hturns, -, hwatched⟩ := tryChain_watched_turns crew.labelled
    ⟨step, method, inputs, policy.timeout⟩ (List.Subset.refl policy.chain) {} w []
  intro c hc
  simp only [calls, run_snd, hwatched, List.nil_append] at hc
  obtain ⟨x, hx, rfl⟩ := List.mem_map.1 hc
  obtain ⟨t, ht, hxt⟩ := List.mem_flatMap.1 hx
  obtain ⟨s, u, u', htook⟩ := hturns.took_of_mem ht
  rw [htook.label_of_mem hxt]
  exact (htook.seated_of_mem hxt).1

/-! ### The turn of a strategy in a run -/

theorem tryChain_append {before : List Strategy}
    (h : tryChain crew policy r before p w = (none, q, v)) (rest : List Strategy) :
    tryChain crew policy r (before ++ rest) p w = tryChain crew policy r rest q v := by
  induction before generalizing p w with
  | nil =>
    cases h
    rfl
  | cons s before ih =>
    rcases hs : tryStrategy crew policy r s p w with ⟨_ | o, p', w'⟩
    · simp only [tryChain, hs] at h
      simpa only [List.cons_append, tryChain, hs] using ih h
    · simp only [tryChain, hs] at h
      cases h

theorem Turns.exists_took {rest : List Strategy} {ts : List (Turn ε)}
    (h : Turns crew policy r w (s :: rest) ts v) :
    ∃ t us v', ts = t :: us ∧ Took crew policy r s w t v' := by
  cases h with
  | success hturn _ => exact ⟨_, [], _, rfl, hturn⟩
  | next hturn _ _ => exact ⟨_, _, _, rfl, hturn⟩

/-- If the strategies before a place in the chain have not got a step done, the strategy at that
place takes its turn. What its turn leaves in the trail, and the calls in its course, come right
after what there was before. -/
theorem exists_turn {step method : String} {inputs : Bindings} {before after : List Strategy}
    (hchain : policy.chain = before ++ s :: after)
    (hbefore : tryChain crew policy ⟨step, method, inputs, policy.timeout⟩ before {} w =
      (none, p, v)) :
    ∃ t v', Took crew.labelled policy ⟨step, method, inputs, policy.timeout⟩ s v t v' ∧
      p.trail ++ t.entries <+: trailOf (run crew policy step method inputs w).1 ∧
      ∃ earlier, earlier.length = p.attempts ∧
        earlier ++ t.exchanges.map Exchange.who <+: calls crew policy step method inputs w := by
  have hsub : before ⊆ policy.chain := by simp [hchain]
  have hsub' : s :: after ⊆ policy.chain := by simp [hchain]
  obtain ⟨ts, u, -, hplain, hwatched⟩ := tryChain_watched_turns crew.labelled
    ⟨step, method, inputs, policy.timeout⟩ hsub {} w []
  rw [tryChain_labelled, hbefore, Prod.mk.injEq, Prod.mk.injEq] at hplain
  obtain ⟨hlost, hp, rfl⟩ := hplain
  rw [← hlost, ← hp, List.nil_append] at hwatched
  obtain ⟨us, w', hturns, hplain', hwatched'⟩ := tryChain_watched_turns crew.labelled
    ⟨step, method, inputs, policy.timeout⟩ hsub' p v (ts.flatMap Turn.exchanges)
  obtain ⟨t, us, v', rfl, htook⟩ := hturns.exists_took
  refine ⟨t, v', htook, ?_, (ts.flatMap Turn.exchanges).map Exchange.who, ?_, ?_⟩
  · rw [tryChain_labelled] at hplain'
    rw [trailOf_run, hchain, tryChain_append hbefore, hplain']
    simp [Progress.extend]
  · simp [hp, Progress.extend]
  · simp only [calls, run_snd, hchain, tryChain_append hwatched, hwatched']
    simp

/-- A strategy that is not admitted is passed over. -/
theorem Took.passed_of_not_admits {t : Turn ε} (h : Took crew policy r s w t v)
    (hnot : ¬ Admits policy s) :
    ∃ why, PassedOver policy s (crew.seated w s) why ∧
      t.entries = [⟨s, 0, .skipped why.message, .ofMillis (crew.clock w)⟩] := by
  cases h with
  | passed hwhy => exact ⟨_, hwhy, rfl⟩
  | exhausted hadmits => exact absurd hadmits hnot
  | succeeded hadmits => exact absurd hadmits hnot

section Place

variable {step method : String} {inputs : Bindings} {before after : List Strategy}
  (hchain : policy.chain = before ++ s :: after)
  (hbefore : tryChain crew policy ⟨step, method, inputs, policy.timeout⟩ before {} w = (none, p, v))

include hchain hbefore

/-- Whoever is there to follow a strategy that is admitted is called next when its turn comes. -/
theorem getElem?_calls {who : ε} (hadmits : Admits policy s) (hpos : 0 < policy.attempts)
    (hseated : crew.seated v s = some who) :
    (calls crew policy step method inputs w)[p.attempts]? = some (s, who) := by
  have hlabelled : crew.labelled.seated v s = some (s, who) := by simp [Crew.labelled, hseated]
  obtain ⟨t, v', htook, -, earlier, hlength, later, hlater⟩ := exists_turn hchain hbefore
  obtain ⟨x, xs, hexchanges, hwho⟩ := htook.exists_exchange hadmits hpos hlabelled
  simp [← hlater, ← hlength, hexchanges, hwho]

/-- When the turn of a strategy comes that is not admitted, the next entry says so. -/
theorem getElem?_trailOf (hnot : ¬ Admits policy s) :
    ∃ why, PassedOver policy s (crew.labelled.seated v s) why ∧
      (trailOf (run crew policy step method inputs w).1)[p.trail.length]? =
        some ⟨s, 0, .skipped why.message, .ofMillis (crew.clock v)⟩ := by
  obtain ⟨t, v', htook, ⟨later, hlater⟩, -⟩ := exists_turn hchain hbefore
  obtain ⟨why, hwhy, hentries⟩ := htook.passed_of_not_admits hnot
  exact ⟨why, hwhy, by simp [← hlater, hentries, Crew.labelled]⟩

end Place

/-! ### People who are not admitted -/

/-- Why people are passed over who are not admitted. -/
def reasonAgainstPeople (p : Policy) : Skip :=
  if .human ∈ p.available then .humanNotAllowed else .notAvailable

theorem PassedOver.eq_reasonAgainstPeople {seat : Option ε} {why : Skip}
    (h : PassedOver policy .human seat why) (hnot : ¬ Admits policy .human) :
    why = reasonAgainstPeople policy := by
  cases h with
  | notAvailable hunavailable => exact (if_neg hunavailable).symm
  | humanNotAllowed havailable => exact (if_pos havailable).symm
  | nobodySeated hadmits => exact absurd hadmits hnot
  | noAttempts hadmits => exact absurd hadmits hnot

/-- A trail without the entries about people. -/
def exceptPeople (trail : List TrailEntry) : List TrailEntry :=
  trail.filter (·.strategy ≠ .human)

/-- What has been done, without the entries about people. -/
def Progress.withoutPeople (p : Progress) : Progress :=
  { p with trail := exceptPeople p.trail }

/-- What something came to, without the entries about people. -/
def withoutPeople {α : Type u'} (x : α × Progress × σ) : α × Progress × σ :=
  (x.1, x.2.1.withoutPeople, x.2.2)

/-- An outcome without the entries about people in its trail. -/
def leaveOutPeople : Except Failure StepResult → Except Failure StepResult
  | .ok result => .ok { result with trail := exceptPeople result.trail }
  | .error (.exhausted step reason trail) => .error (.exhausted step reason (exceptPeople trail))
  | .error other => .error other

theorem Progress.withoutPeople_record (hs : s ≠ .human) (p : Progress) (number : Nat)
    (outcome : Outcome) (clock : Nat) :
    (p.record s number outcome clock).withoutPeople =
      p.withoutPeople.record s number outcome clock := by
  simp [withoutPeople, record, exceptPeople, hs]

theorem Progress.withoutPeople_record_human (p : Progress) (number : Nat) (outcome : Outcome)
    (clock : Nat) : (p.record .human number outcome clock).withoutPeople = p.withoutPeople := by
  simp [withoutPeople, record, exceptPeople]

theorem Progress.withoutPeople_extend (hs : s ≠ .human) (p : Progress) (x : Exchange ε)
    (number : Nat) :
    (p.extend [x.entry s number] [x]).withoutPeople =
      p.withoutPeople.extend [x.entry s number] [x] := by
  simp [withoutPeople, extend, exceptPeople, Exchange.entry, hs]

theorem tryRepeatedly_withoutPeople (hs : s ≠ .human) (who : ε) (left number : Nat) (p : Progress)
    (w : σ) :
    tryRepeatedly crew who r s left number p.withoutPeople w =
      withoutPeople (tryRepeatedly crew who r s left number p w) := by
  induction left generalizing number p w with
  | zero => rfl
  | succ left ih =>
    rw [tryRepeatedly_succ, tryRepeatedly_succ]
    dsimp only
    rw [← Progress.withoutPeople_extend hs]
    split
    · rfl
    · exact ih _ _ _

/-- Whether a strategy other than people is passed over does not depend on the chain. -/
theorem skip?_withoutPeople (hs : s ≠ .human) : skip? policy.withoutPeople s = skip? policy s := by
  simp [skip?, hs, Policy.withoutPeople, Policy.permits]

theorem tryStrategy_withoutPeople (hs : s ≠ .human) (p : Progress) (w : σ) :
    tryStrategy crew policy.withoutPeople r s p.withoutPeople w =
      withoutPeople (tryStrategy crew policy r s p w) := by
  have hpass (why : Skip) :
      ((none, p.withoutPeople.record s 0 (.skipped why.message) (crew.clock w), w) :
        Option Output × Progress × σ) =
      withoutPeople (none, p.record s 0 (.skipped why.message) (crew.clock w), w) := by
    rw [withoutPeople, Progress.withoutPeople_record hs]
  unfold tryStrategy
  rw [skip?_withoutPeople hs]
  cases skip? policy s with
  | some why => exact hpass why
  | none =>
    cases crew.seated w s with
    | none => exact hpass .nobodySeated
    | some who =>
      have hattempts : policy.withoutPeople.attempts = policy.attempts := rfl
      simp only [hattempts]
      split
      · exact hpass .noAttempts
      · exact tryRepeatedly_withoutPeople hs who _ _ p w

/-- When people are not admitted, their turn leaves nothing but an entry. -/
theorem tryStrategy_human (hchain : .human ∈ policy.chain) (hnot : ¬ Admits policy .human)
    (p : Progress) (w : σ) :
    withoutPeople (tryStrategy crew policy r .human p w) = (none, p.withoutPeople, w) := by
  unfold tryStrategy
  cases hskip : skip? policy .human with
  | none => exact absurd (skip?_eq_none hchain hskip) hnot
  | some why => simp only [withoutPeople, Progress.withoutPeople_record_human]

theorem tryChain_withoutPeople (hnot : ¬ Admits policy .human) {chain : List Strategy}
    (hchain : chain ⊆ policy.chain) (p : Progress) (w : σ) :
    tryChain crew policy.withoutPeople r (chain.filter (· ≠ .human)) p.withoutPeople w =
      withoutPeople (tryChain crew policy r chain p w) := by
  induction chain generalizing p w with
  | nil => rfl
  | cons s rest ih =>
    have hrest := List.subset_of_cons_subset hchain
    by_cases hs : s = .human
    · subst hs
      have hturn := @tryStrategy_human _ _ crew policy r (hchain List.mem_cons_self) hnot p w
      rcases hpeople : tryStrategy crew policy r .human p w with ⟨o, q, v⟩
      rw [hpeople] at hturn
      simp only [withoutPeople, Prod.mk.injEq] at hturn
      obtain ⟨rfl, hq, rfl⟩ := hturn
      rw [List.filter_cons_of_neg (by simp), ← hq, ih hrest]
      simp only [tryChain, hpeople]
    · have hturn := @tryStrategy_withoutPeople _ _ crew policy r s hs p w
      rw [List.filter_cons_of_pos (by simpa using hs), tryChain, tryChain, hturn]
      rcases tryStrategy crew policy r s p w with ⟨_ | o, q, v⟩
      · exact ih hrest q v
      · rfl

/-- Where people are not admitted, a step comes to the same as if people were not in the chain: the
same strategy gets it done, or it fails for the same reason, in the same surroundings. -/
theorem run_withoutPeople (hnot : ¬ Admits policy .human) (step method : String)
    (inputs : Bindings) (w : σ) :
    run crew policy.withoutPeople step method inputs w =
      (leaveOutPeople (run crew policy step method inputs w).1,
        (run crew policy step method inputs w).2) := by
  have hchain := @tryChain_withoutPeople _ _ crew policy ⟨step, method, inputs, policy.timeout⟩ hnot
    _ (List.Subset.refl policy.chain) {} w
  have hrun : tryChain crew policy.withoutPeople
      ⟨step, method, inputs, policy.withoutPeople.timeout⟩ policy.withoutPeople.chain {} w =
    withoutPeople (tryChain crew policy ⟨step, method, inputs, policy.timeout⟩ policy.chain {} w) :=
    hchain
  rw [run, run, hrun]
  rcases tryChain crew policy ⟨step, method, inputs, policy.timeout⟩ policy.chain {} w with
    ⟨_ | ⟨s, o⟩, p, v⟩ <;> rfl

/-- Every entry of the trail of a step was left by a strategy in its turn. -/
theorem exists_took_of_mem_trailOf {step method : String} {inputs : Bindings} {e : TrailEntry}
    (he : e ∈ trailOf (run crew policy step method inputs w).1) :
    ∃ s t u u', Took crew policy ⟨step, method, inputs, policy.timeout⟩ s u t u' ∧
      e ∈ t.entries := by
  obtain ⟨ts, w', hturns, hchain⟩ := @tryChain_turns _ _ crew policy
    ⟨step, method, inputs, policy.timeout⟩ _ (List.Subset.refl policy.chain) {} w
  have htrail : trailOf (run crew policy step method inputs w).1 = ts.flatMap Turn.entries := by
    simp [trailOf_run, hchain, Progress.extend]
  obtain ⟨t, ht, het⟩ := List.mem_flatMap.1 (htrail ▸ he)
  obtain ⟨s, u, u', htook⟩ := hturns.took_of_mem ht
  exact ⟨s, t, u, u', htook, het⟩

/-- The entries about people who are not admitted say why they are passed over. -/
theorem Took.outcome_of_human {t : Turn ε} {e : TrailEntry} (h : Took crew policy r s w t v)
    (hnot : ¬ Admits policy .human) (he : e ∈ t.entries) (hhuman : e.strategy = .human) :
    e.attempt = 0 ∧ e.outcome = .skipped (reasonAgainstPeople policy).message := by
  obtain rfl : s = .human := (h.strategy_of_mem he).symm.trans hhuman
  obtain ⟨why, hwhy, hentries⟩ := h.passed_of_not_admits hnot
  rw [hentries, hwhy.eq_reasonAgainstPeople hnot] at he
  obtain rfl := List.mem_singleton.1 he
  exact ⟨rfl, rfl⟩

/-- In the course of a step a person is called only if the policy admits people. Whenever the turn
of a person comes, because the strategies before it have not got the step done, there are two cases.
If people are admitted, attempts are to be made, and somebody is there to be asked, that is the very
next call. If people are not admitted, the next entry of the trail says that they are passed over
and why. In that case no entry says anything else about people, and the step comes to the same as if
people were not in the chain: the same strategy gets it done, or it fails for the same reason. -/
theorem people_asked_where_admitted (crew : Crew σ ε) (policy : Policy) (step method : String)
    (inputs : Bindings) (w : σ) :
    let outcome := (run crew policy step method inputs w).1
    let after := (run crew policy step method inputs w).2
    (run crew.labelled.watched policy step method inputs (w, [])).1 = outcome ∧
    (run crew.labelled.watched policy step method inputs (w, [])).2.1 = after ∧
    (∀ c ∈ calls crew policy step method inputs w, c.1 = .human → Admits policy .human) ∧
    (∀ before rest p v, policy.chain = before ++ .human :: rest →
      tryChain crew policy ⟨step, method, inputs, policy.timeout⟩ before {} w = (none, p, v) →
      (Admits policy .human → 0 < policy.attempts → ∀ who, crew.seated v .human = some who →
        (calls crew policy step method inputs w)[p.attempts]? = some (.human, who)) ∧
      (¬ Admits policy .human →
        (trailOf outcome)[p.trail.length]? =
          some ⟨.human, 0, .skipped (reasonAgainstPeople policy).message,
            .ofMillis (crew.clock v)⟩)) ∧
    (¬ Admits policy .human →
      (∀ e ∈ trailOf outcome, e.strategy = .human →
        e.attempt = 0 ∧ e.outcome = .skipped (reasonAgainstPeople policy).message) ∧
      run crew policy.withoutPeople step method inputs w = (leaveOutPeople outcome, after)) := by
  intro outcome after
  obtain ⟨houtcome, hafter⟩ := run_watched crew.labelled policy step method inputs w []
  rw [run_labelled] at houtcome hafter
  refine ⟨houtcome, hafter, ?_, ?_, ?_⟩
  · intro c hc hhuman
    exact hhuman ▸ calls_admitted crew policy step method inputs w c hc
  · intro before rest p v hchain hbefore
    refine ⟨fun hadmits hpos who hseated => ?_, fun hnot => ?_⟩
    · exact getElem?_calls hchain hbefore hadmits hpos hseated
    · obtain ⟨why, hwhy, hentry⟩ := getElem?_trailOf hchain hbefore hnot
      obtain rfl := hwhy.eq_reasonAgainstPeople hnot
      exact hentry
  · intro hnot
    refine ⟨fun e he hhuman => ?_, run_withoutPeople hnot step method inputs w⟩
    obtain ⟨s, t, u, u', htook, het⟩ := exists_took_of_mem_trailOf he
    exact htook.outcome_of_human hnot het hhuman

/-- An office with a clerk who is not sure of anything, and a head who can be asked. -/
def office : Workshop :=
  ((Workshop.new {} (.shelf .empty) .own).seat .ai
    ⟨.script "clerk" [.ok (.failed "not sure")] 0, []⟩ "clerk").seat .human
    ⟨.script "head" [.ok (.succeeded .empty)] 0, []⟩ "head"

/-- The office may not ask people beside others. If nothing but people may be used, the head is
called all the same. If the clerk may be used as well, the head is passed over, and the step fails
because the clerk is not sure, as it does without people. -/
theorem people_asked_where_admitted_office :
    let crew := Workshop.crew fun _ w => (some [], w)
    let onlyPeople : Policy := ⟨[.ai, .human], false, 1, 1000, [.human]⟩
    let anybody : Policy := ⟨[.ai, .human], false, 1, 1000, [.ai, .human]⟩
    let clerk : TrailEntry := ⟨.ai, 1, .failed "not sure", .ofMillis 0⟩
    Admits onlyPeople .human ∧
      (calls crew onlyPeople "sign" "decide" .empty { shop := office })[0]? = some (.human, 1) ∧
    ¬ Admits anybody .human ∧
      (trailOf (run crew anybody "sign" "decide" .empty { shop := office }).1)[1]? =
        some ⟨.human, 0, .skipped "human override not allowed", .ofMillis 0⟩ ∧
      (run crew anybody.withoutPeople "sign" "decide" .empty { shop := office }).1 =
        .error (.exhausted "sign" "not sure" [clerk]) := by
  intro crew onlyPeople anybody clerk
  have hadmits : Admits onlyPeople .human := ⟨by decide, fun _ => .inr (by decide)⟩
  have hnot : ¬ Admits anybody .human := by
    rintro ⟨-, hhuman⟩
    rcases hhuman rfl with hoverride | honly
    · cases hoverride
    · cases honly .ai (by decide) (by decide)
  obtain ⟨-, -, -, hturn, -⟩ :=
    people_asked_where_admitted crew onlyPeople "sign" "decide" .empty { shop := office }
  obtain ⟨hasked, -⟩ := hturn [.ai] [] _ _ rfl rfl
  obtain ⟨-, -, -, hturn', hleft⟩ :=
    people_asked_where_admitted crew anybody "sign" "decide" .empty { shop := office }
  obtain ⟨-, hpassed⟩ := hturn' [.ai] [] _ _ rfl rfl
  refine ⟨hadmits, hasked hadmits (by decide) 1 rfl, hnot, hpassed hnot, ?_⟩
  rw [(hleft hnot).2]
  rfl

end Engine

end Foreman
