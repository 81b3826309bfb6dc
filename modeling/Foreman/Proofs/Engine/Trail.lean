import Foreman.Engine
/-!
# The trail is the run

The engine leaves a trail, and the trail says exactly what was done. It falls into one block for
each strategy whose turn came, in the order of the chain. A strategy that was passed over has a
single entry with the first reason that applied. Any other strategy has one entry for each exchange
with its executor, numbered from one: all the attempts it was given, if none succeeded, or fewer
failures and then one success, which ends everything.

What was really done is told by a crew that writes down every exchange. It behaves like the crew it
watches, so the trail can be compared with what it has written down.

## Main definitions

* `Foreman.Engine.Exchange`, `Foreman.Crew.watched`: an exchange with an executor, and the crew that
  writes all of them down.
* `Foreman.Engine.Exchange.Succeeded`, `Foreman.Engine.Exchange.outcome`: what an exchange came to.
* `Foreman.Engine.PassedOver`: the first reason for which a strategy is passed over.
* `Foreman.Engine.Turn`, `Foreman.Engine.Took`, `Foreman.Engine.Turns`: what the turn of a strategy
  comes to, and the turns of a chain.

## Main results

* `Foreman.Engine.tryChain_turns`: the strategies of a chain take their turns.
* `Foreman.Engine.trail_is_run`: the trail is the concatenation of the blocks of these turns.
-/

namespace Foreman

namespace Engine

/-- An executor was handed a request. -/
structure Exchange (ε : Type v) where
  /-- Who was handed the request. -/
  who : ε
  /-- The request. -/
  request : Request
  /-- What the attempt brought. -/
  attempt : Attempt
  /-- When it was over, in milliseconds. -/
  ended : Nat

end Engine

open Engine (Exchange)

variable {σ : Type u} {ε : Type v}

/-- The exchange in which an executor is handed a request. -/
def Crew.exchange (crew : Crew σ ε) (who : ε) (r : Request) (w : σ) : Exchange ε :=
  ⟨who, r, (crew.attempt who r w).1, crew.clock (crew.attempt who r w).2⟩

/-- A crew that writes down every exchange, and otherwise behaves like the one it watches. -/
def Crew.watched (crew : Crew σ ε) : Crew (σ × List (Exchange ε)) ε where
  seated w s := crew.seated w.1 s
  attempt who r w :=
    ((crew.attempt who r w.1).1, (crew.attempt who r w.1).2, w.2 ++ [crew.exchange who r w.1])
  note n w := (crew.note n w.1, w.2)
  clock w := crew.clock w.1

namespace Engine

variable {crew : Crew σ ε} {policy : Policy} {r : Request} {s : Strategy}

/-! ### Exchanges and their entries -/

namespace Exchange

/-- An exchange succeeded with an output: the executor answered in time, and reported so. -/
structure Succeeded (x : Exchange ε) (o : Output) : Prop where
  /-- The executor answered with the output. -/
  answer : x.attempt = .answered (.ok o)
  /-- It said that the work succeeded. -/
  success : o.success = true

/-- The reason of an exchange that did not succeed: the one that the executor reported, if any, the
fault that it answered with, or that there was no answer in time. -/
def reason? (x : Exchange ε) : Option String :=
  match x.attempt with
  | .answered (.ok o) =>
    if o.success then none else some (o.error.getD "Executor reported failure")
  | .answered (.error f) => some f.message
  | .overran => some ("Execution timed out after " ++ toString x.request.timeout ++ "ms")

/-- The outcome of an exchange. -/
def outcome (x : Exchange ε) : Outcome :=
  match x.attempt with
  | .answered (.ok o) =>
    if o.success then .succeeded else .failed (o.error.getD "Executor reported failure")
  | .answered (.error f) => .failed f.message
  | .overran => .timedOut x.request.timeout

/-- The entry of an exchange in the trail. -/
def entry (s : Strategy) (x : Exchange ε) (number : Nat) : TrailEntry :=
  ⟨s, number, x.outcome, .ofMillis x.ended⟩

/-- The entries of some exchanges, the first of which has the number given. -/
def entries (s : Strategy) (first : Nat) (xs : List (Exchange ε)) : List TrailEntry :=
  (xs.zipIdx first).map fun x => x.1.entry s x.2

end Exchange

/-- Whether an entry is about an attempt that was made. -/
def wasMade (e : TrailEntry) : Bool :=
  match e.outcome with
  | .skipped _ => false
  | _ => true

namespace Exchange

variable {x : Exchange ε} {o : Output} {reason : String}

theorem judge_of_succeeded (h : x.Succeeded o) : judge x.request.timeout x.attempt = .ok o := by
  simp [judge, h.answer, h.success]

/-- The engine judges an exchange that did not succeed by its outcome and its reason. -/
theorem judge_of_reason? (h : x.reason? = some reason) :
    judge x.request.timeout x.attempt = .error (x.outcome, reason) := by
  rcases hattempt : x.attempt with (f | o) | _ <;>
    simp only [reason?, judge, outcome, hattempt] at h ⊢
  · rw [Option.some.inj h]
  · cases hsuccess : o.success
    · simpa [hsuccess] using h
    · simp [hsuccess] at h
  · rw [Option.some.inj h]

/-- An exchange succeeds, or there is a reason why it did not. -/
theorem succeeded_or_reason (x : Exchange ε) :
    (∃ o, x.Succeeded o) ∨ ∃ reason, x.reason? = some reason := by
  unfold reason?
  rcases hattempt : x.attempt with (f | o) | _
  · exact .inr ⟨_, rfl⟩
  · by_cases hsuccess : o.success = true
    · exact .inl ⟨o, hattempt, hsuccess⟩
    · exact .inr ⟨_, if_neg hsuccess⟩
  · exact .inr ⟨_, rfl⟩

theorem reason?_of_succeeded (h : x.Succeeded o) : x.reason? = none := by
  simp [reason?, h.answer, h.success]

theorem not_succeeded_of_reason? (h : x.reason? = some reason) (o : Output) : ¬ x.Succeeded o :=
  fun hsucceeded => by simp [reason?_of_succeeded hsucceeded] at h

theorem outcome_eq_succeeded_iff : x.outcome = .succeeded ↔ ∃ o, x.Succeeded o := by
  constructor
  · intro h
    unfold outcome at h
    split at h
    · next o hanswer =>
      split at h
      · next hsuccess => exact ⟨o, hanswer, hsuccess⟩
      · cases h
    · cases h
    · cases h
  · rintro ⟨o, hanswer, hsuccess⟩
    simp [outcome, hanswer, hsuccess]

theorem wasMade_entry (number : Nat) : wasMade (x.entry s number) = true := by
  unfold wasMade entry outcome
  rcases x.attempt with (f | o) | _
  · rfl
  · cases hsuccess : o.success <;> simp [hsuccess]
  · rfl

theorem entries_cons (first : Nat) (x : Exchange ε) (xs : List (Exchange ε)) :
    entries s first (x :: xs) = x.entry s first :: entries s (first + 1) xs := by
  simp [entries]

theorem entries_concat (first : Nat) (xs : List (Exchange ε)) (x : Exchange ε) :
    entries s first (xs ++ [x]) = entries s first xs ++ [x.entry s (first + xs.length)] := by
  simp [entries, List.zipIdx_append, Nat.add_comm]

end Exchange

/-! ### Passing over -/

/-- A person may be asked if the policy says so, or if it leaves no other strategy of its
chain to be used. -/
def AsksPeople (p : Policy) : Prop :=
  p.humanOverride = true ∨ ∀ s ∈ p.chain, s ∈ p.available → s = .human

/-- A policy lets a strategy of its chain be tried. -/
structure Admits (p : Policy) (s : Strategy) : Prop where
  /-- It may be used. -/
  available : s ∈ p.available
  /-- If a person has to be asked, a person may be asked. -/
  human : s = .human → AsksPeople p

/-- A strategy is passed over when its turn comes: the first of the reasons that apply. -/
inductive PassedOver (p : Policy) (s : Strategy) : Option ε → Skip → Prop
  | notAvailable {seat : Option ε} (hnot : s ∉ p.available) : PassedOver p s seat .notAvailable
  | humanNotAllowed {seat : Option ε} (havailable : s ∈ p.available) (hhuman : s = .human)
      (hnot : ¬ AsksPeople p) : PassedOver p s seat .humanNotAllowed
  | nobodySeated (hadmits : Admits p s) : PassedOver p s none .nobodySeated
  | noAttempts {who : ε} (hadmits : Admits p s) (hzero : p.attempts = 0) :
      PassedOver p s (some who) .noAttempts

theorem humanAllowed_eq_true_iff {p : Policy} (hchain : .human ∈ p.chain)
    (havailable : .human ∈ p.available) : humanAllowed p = true ↔ AsksPeople p := by
  have hpermits (s : Strategy) : p.permits s = true ↔ s ∈ p.available := by
    simp [Policy.permits]
  have hsome : (p.chain.filter p.permits).isEmpty = false := by
    rw [List.isEmpty_eq_false_iff_exists_mem]
    exact ⟨.human, List.mem_filter.2 ⟨hchain, (hpermits _).2 havailable⟩⟩
  simp only [humanAllowed, AsksPeople, hsome, Bool.not_false, Bool.true_and, Bool.or_eq_true,
    List.all_eq_true, List.mem_filter, decide_eq_true_eq, hpermits, and_imp]

theorem skip?_eq_none {p : Policy} (hs : s ∈ p.chain) (h : skip? p s = none) : Admits p s := by
  unfold skip? at h
  split at h
  · cases h
  · next havailable =>
    have havailable : s ∈ p.available := by simpa [Policy.permits] using havailable
    refine ⟨havailable, fun hhuman => ?_⟩
    subst hhuman
    rw [← humanAllowed_eq_true_iff hs havailable]
    simpa using h

theorem skip?_eq_some {p : Policy} {why : Skip} (hs : s ∈ p.chain) (h : skip? p s = some why)
    (seat : Option ε) : PassedOver p s seat why := by
  unfold skip? at h
  split at h
  · next hnot =>
    cases h
    exact .notAvailable (by simpa [Policy.permits] using hnot)
  · next havailable =>
    have havailable : s ∈ p.available := by simpa [Policy.permits] using havailable
    split at h
    · next hhuman =>
      obtain ⟨rfl, hnot⟩ := hhuman
      cases h
      refine .humanNotAllowed havailable rfl fun hasks => ?_
      simp [(humanAllowed_eq_true_iff hs havailable).2 hasks] at hnot
    · cases h

/-! ### Turns -/

/-- What the turn of a strategy came to. -/
structure Turn (ε : Type v) where
  /-- The strategy. -/
  strategy : Strategy
  /-- The block it left in the trail. -/
  entries : List TrailEntry
  /-- The exchanges with its executor. -/
  exchanges : List (Exchange ε)
  /-- The output, if an exchange succeeded. -/
  success : Option Output

/-- Exchanges that all fail, one after another, the first of which has the number given. Every
failure is noted before the next exchange. -/
inductive Fails (crew : Crew σ ε) (r : Request) (s : Strategy) (who : ε) :
    Nat → σ → List (Exchange ε) → σ → Prop
  | done {number w} : Fails crew r s who number w [] w
  | more {number w xs w' reason} (hreason : (crew.exchange who r w).reason? = some reason)
      (hrest : Fails crew r s who (number + 1)
        (crew.note (.attemptFailed r.step s number reason) (crew.attempt who r w).2) xs w') :
      Fails crew r s who number w (crew.exchange who r w :: xs) w'

/-- A strategy takes its turn. It is passed over, or uses up its attempts, or succeeds with fewer
failures than it has attempts. -/
inductive Took (crew : Crew σ ε) (policy : Policy) (r : Request) (s : Strategy) :
    σ → Turn ε → σ → Prop
  | passed {w why} (hwhy : PassedOver policy s (crew.seated w s) why) :
      Took crew policy r s w
        ⟨s, [⟨s, 0, .skipped why.message, .ofMillis (crew.clock w)⟩], [], none⟩ w
  | exhausted {w xs w'} {who : ε} (hadmits : Admits policy s) (hseated : crew.seated w s = some who)
      (hpos : 0 < policy.attempts) (hlength : xs.length = policy.attempts)
      (hfails : Fails crew r s who 1 w xs w') :
      Took crew policy r s w ⟨s, Exchange.entries s 1 xs, xs, none⟩ w'
  | succeeded {w xs v o} {who : ε} (hadmits : Admits policy s)
      (hseated : crew.seated w s = some who)
      (hlength : xs.length < policy.attempts) (hfails : Fails crew r s who 1 w xs v)
      (hsucceeded : (crew.exchange who r v).Succeeded o) :
      Took crew policy r s w
        ⟨s, Exchange.entries s 1 (xs ++ [crew.exchange who r v]), xs ++ [crew.exchange who r v],
          some o⟩
        (crew.attempt who r v).2

/-- The strategies of a chain take their turns, up to the first success. -/
inductive Turns (crew : Crew σ ε) (policy : Policy) (r : Request) :
    σ → List Strategy → List (Turn ε) → σ → Prop
  | finished {w} : Turns crew policy r w [] [] w
  | success {w s rest t w'} (hturn : Took crew policy r s w t w') (hsuccess : t.success ≠ none) :
      Turns crew policy r w (s :: rest) [t] w'
  | next {w s rest t w' ts w''} (hturn : Took crew policy r s w t w') (hfailed : t.success = none)
      (hrest : Turns crew policy r w' rest ts w'') :
      Turns crew policy r w (s :: rest) (t :: ts) w''

/-- The strategy that got the step done, with its output, if the last of some turns succeeded. -/
def winner? (ts : List (Turn ε)) : Option (Strategy × Output) :=
  ts.getLast?.bind fun t => t.success.map fun o => (t.strategy, o)

/-- What has been done after some exchanges more, with their entries. -/
def Progress.extend (p : Progress) (entries : List TrailEntry) (xs : List (Exchange ε)) :
    Progress where
  trail := p.trail ++ entries
  lastFailure := (xs.filterMap Exchange.reason?).getLast?.or p.lastFailure
  attempts := p.attempts + xs.length

/-! ### The engine takes the turns of a chain -/

@[simp] theorem Progress.extend_nil (p : Progress) : p.extend [] ([] : List (Exchange ε)) = p := by
  simp [extend]

theorem Progress.extend_extend (p : Progress) (es fs : List TrailEntry)
    (xs ys : List (Exchange ε)) :
    (p.extend es xs).extend fs ys = p.extend (es ++ fs) (xs ++ ys) := by
  simp [extend, List.getLast?_append, Option.or_assoc, Nat.add_assoc]

theorem tryRepeatedly_succ (who : ε) (left number : Nat) (p : Progress) (w : σ) :
    tryRepeatedly crew who r s (left + 1) number p w =
      let x := crew.exchange who r w
      let p := p.extend [x.entry s number] [x]
      match judge r.timeout x.attempt with
      | .ok o => (some o, p, (crew.attempt who r w).2)
      | .error (_, reason) =>
        tryRepeatedly crew who r s left (number + 1) p
          (crew.note (.attemptFailed r.step s number reason) (crew.attempt who r w).2) := by
  have hattempt : (crew.exchange who r w).attempt = (crew.attempt who r w).1 := rfl
  have hended : (crew.exchange who r w).ended = crew.clock (crew.attempt who r w).2 := rfl
  rcases (crew.exchange who r w).succeeded_or_reason with ⟨o, ho⟩ | ⟨reason, hreason⟩
  · have hjudge : judge r.timeout (crew.attempt who r w).1 = .ok o := Exchange.judge_of_succeeded ho
    have houtcome := Exchange.outcome_eq_succeeded_iff.2 ⟨o, ho⟩
    simp [tryRepeatedly, hattempt, hended, hjudge, Exchange.entry, houtcome, Progress.extend,
      Progress.record, Exchange.reason?_of_succeeded ho]
  · have hjudge : judge r.timeout (crew.attempt who r w).1 =
        .error ((crew.exchange who r w).outcome, reason) := Exchange.judge_of_reason? hreason
    simp [tryRepeatedly, hattempt, hended, hjudge, Exchange.entry, Progress.extend,
      Progress.record, hreason]

/-- The attempts of an executor all fail, or one succeeds after fewer failures. -/
theorem tryRepeatedly_fails_or_succeeds (who : ε) (left number : Nat) (p : Progress) (w : σ) :
    (∃ xs w', xs.length = left ∧ Fails crew r s who number w xs w' ∧
      tryRepeatedly crew who r s left number p w =
        (none, p.extend (Exchange.entries s number xs) xs, w')) ∨
    ∃ xs v o, xs.length < left ∧ Fails crew r s who number w xs v ∧
      (crew.exchange who r v).Succeeded o ∧
      tryRepeatedly crew who r s left number p w =
        (some o,
          p.extend (Exchange.entries s number (xs ++ [crew.exchange who r v]))
            (xs ++ [crew.exchange who r v]),
          (crew.attempt who r v).2) := by
  induction left generalizing number p w with
  | zero => exact .inl ⟨[], w, rfl, .done, by simp [tryRepeatedly, Exchange.entries]⟩
  | succ left ih =>
    rw [tryRepeatedly_succ]
    dsimp only
    rcases (crew.exchange who r w).succeeded_or_reason with ⟨o, ho⟩ | ⟨reason, hreason⟩
    · have hjudge : judge r.timeout (crew.exchange who r w).attempt = .ok o :=
        Exchange.judge_of_succeeded ho
      simp only [hjudge]
      refine .inr ⟨[], w, o, by simp, .done, ho, ?_⟩
      simp [Exchange.entries]
    · have hjudge : judge r.timeout (crew.exchange who r w).attempt =
          .error ((crew.exchange who r w).outcome, reason) := Exchange.judge_of_reason? hreason
      simp only [hjudge]
      -- the attempts that are left go the same way, from where the failure was noted
      rcases ih (number + 1) (p.extend [(crew.exchange who r w).entry s number]
          [crew.exchange who r w]) _ with ⟨xs, w', hlength, hfails, heq⟩ |
        ⟨xs, v, o, hlength, hfails, hsucceeded, heq⟩
      · refine .inl ⟨_, w', by simp [hlength], .more hreason hfails, ?_⟩
        simp only [heq, Progress.extend_extend, Exchange.entries_cons, List.cons_append,
          List.nil_append]
      · refine .inr ⟨_, v, o, by simpa using hlength, .more hreason hfails, hsucceeded, ?_⟩
        simp only [heq, Progress.extend_extend, Exchange.entries_cons, List.cons_append,
          List.nil_append]

/-- A strategy of the chain takes its turn. -/
theorem tryStrategy_took (hs : s ∈ policy.chain) (p : Progress) (w : σ) :
    ∃ t w', Took crew policy r s w t w' ∧
      tryStrategy crew policy r s p w = (t.success, p.extend t.entries t.exchanges, w') := by
  unfold tryStrategy
  cases hskip : skip? policy s with
  | some why => exact ⟨_, w, .passed (skip?_eq_some hs hskip _), by simp [Progress.extend,
      Progress.record]⟩
  | none =>
    have hadmits := skip?_eq_none hs hskip
    cases hseated : crew.seated w s with
    | none =>
      have hwhy : PassedOver policy s (crew.seated w s) .nobodySeated := by
        rw [hseated]
        exact .nobodySeated hadmits
      exact ⟨_, w, .passed hwhy, by simp [Progress.extend, Progress.record]⟩
    | some who =>
      dsimp only
      split
      · next hzero =>
        have hwhy : PassedOver policy s (crew.seated w s) .noAttempts := by
          rw [hseated]
          exact .noAttempts hadmits hzero
        exact ⟨_, w, .passed hwhy, by simp [Progress.extend, Progress.record]⟩
      · next hpos =>
        rcases tryRepeatedly_fails_or_succeeds who policy.attempts 1 p w with
          ⟨xs, w', hlength, hfails, heq⟩ | ⟨xs, v, o, hlength, hfails, hsucceeded, heq⟩
        · exact ⟨_, w', .exhausted hadmits hseated (Nat.pos_of_ne_zero hpos) hlength hfails, heq⟩
        · exact ⟨_, _, .succeeded hadmits hseated hlength hfails hsucceeded, heq⟩

theorem Took.strategy_eq {w w' : σ} {t : Turn ε} (h : Took crew policy r s w t w') :
    t.strategy = s := by
  cases h <;> rfl

theorem winner?_cons {t : Turn ε} (h : t.success = none) (ts : List (Turn ε)) :
    winner? (t :: ts) = winner? ts := by
  cases ts with
  | nil => simp [winner?, h]
  | cons u us => simp [winner?, List.getLast?_cons_cons]

/-- The strategies of a chain take their turns, and the last may have succeeded. -/
theorem tryChain_turns {chain : List Strategy} (hchain : chain ⊆ policy.chain) (p : Progress)
    (w : σ) :
    ∃ ts w', Turns crew policy r w chain ts w' ∧
      tryChain crew policy r chain p w =
        (winner? ts, p.extend (ts.flatMap Turn.entries) (ts.flatMap Turn.exchanges), w') := by
  induction chain generalizing p w with
  | nil => exact ⟨[], w, .finished, by simp [tryChain, winner?]⟩
  | cons s rest ih =>
    have hs : s ∈ policy.chain := hchain List.mem_cons_self
    obtain ⟨t, v, htook, heq⟩ := @tryStrategy_took _ _ crew policy r s hs p w
    cases hsuccess : t.success with
    | some o =>
      refine ⟨[t], v, .success htook (by simp [hsuccess]), ?_⟩
      simp [tryChain, heq, hsuccess, winner?, htook.strategy_eq]
    | none =>
      obtain ⟨ts, w', hturns, heq'⟩ := ih (List.subset_of_cons_subset hchain)
        (p.extend t.entries t.exchanges) v
      refine ⟨t :: ts, w', .next htook hsuccess hturns, ?_⟩
      simp [tryChain, heq, hsuccess, heq', Progress.extend_extend, winner?_cons hsuccess]

/-! ### Watching changes nothing -/

/-- What is left of a result when what was written down is put aside. -/
def unwatched {α : Type u'} {β : Type v'} (x : α × β × σ × List (Exchange ε)) : α × β × σ :=
  (x.1, x.2.1, x.2.2.1)

theorem exchange_watched (who : ε) (r : Request) (w : σ × List (Exchange ε)) :
    crew.watched.exchange who r w = crew.exchange who r w.1 := rfl

theorem unwatched_tryRepeatedly (who : ε) (left number : Nat) (p : Progress)
    (w : σ × List (Exchange ε)) :
    unwatched (tryRepeatedly crew.watched who r s left number p w) =
      tryRepeatedly crew who r s left number p w.1 := by
  induction left generalizing number p w with
  | zero => rfl
  | succ left ih =>
    rw [tryRepeatedly_succ, tryRepeatedly_succ, exchange_watched]
    dsimp only
    split
    · rfl
    · exact ih _ _ _

theorem unwatched_tryStrategy (p : Progress) (w : σ × List (Exchange ε)) :
    unwatched (tryStrategy crew.watched policy r s p w) =
      tryStrategy crew policy r s p w.1 := by
  unfold tryStrategy
  split
  · rfl
  · simp only [Crew.watched]
    split
    · rfl
    · split
      · rfl
      · exact unwatched_tryRepeatedly _ _ _ p w

theorem unwatched_tryChain (chain : List Strategy) (p : Progress) (w : σ × List (Exchange ε)) :
    unwatched (tryChain crew.watched policy r chain p w) = tryChain crew policy r chain p w.1 := by
  induction chain generalizing p w with
  | nil => rfl
  | cons s rest ih =>
    have hturn : unwatched (tryStrategy crew.watched policy r s p w) =
        tryStrategy crew policy r s p w.1 := unwatched_tryStrategy p w
    rcases h : tryStrategy crew.watched policy r s p w with ⟨_ | o, p', w'⟩
    · rw [h] at hturn
      simp only [tryChain, h, ← hturn]
      exact ih p' w'
    · rw [h] at hturn
      simp only [tryChain, h, ← hturn]
      rfl

/-- Writing the exchanges down changes neither the result nor the surroundings. -/
theorem run_watched (crew : Crew σ ε) (policy : Policy) (step method : String) (inputs : Bindings)
    (w : σ) (xs : List (Exchange ε)) :
    (run crew.watched policy step method inputs (w, xs)).1 =
        (run crew policy step method inputs w).1 ∧
      (run crew.watched policy step method inputs (w, xs)).2.1 =
        (run crew policy step method inputs w).2 := by
  have hchain := @unwatched_tryChain _ _ crew policy ⟨step, method, inputs, policy.timeout⟩
    policy.chain {} (w, xs)
  unfold run
  dsimp only
  rw [← hchain]
  rcases tryChain crew.watched policy ⟨step, method, inputs, policy.timeout⟩ policy.chain {} (w, xs)
    with ⟨_ | ⟨s, o⟩, p, w', xs'⟩ <;> exact ⟨rfl, rfl⟩

theorem Fails.unwatched {who : ε} {number : Nat} {w w' : σ × List (Exchange ε)}
    {xs : List (Exchange ε)} (h : Fails crew.watched r s who number w xs w') :
    Fails crew r s who number w.1 xs w'.1 ∧ w'.2 = w.2 ++ xs := by
  induction h with
  | done => exact ⟨.done, by simp⟩
  | @more number w xs w' reason hreason _ ih =>
    refine ⟨.more hreason ih.1, ?_⟩
    calc w'.2 = (w.2 ++ [crew.exchange who r w.1]) ++ xs := ih.2
      _ = w.2 ++ crew.watched.exchange who r w :: xs := by simp [exchange_watched]

theorem Took.unwatched {w w' : σ × List (Exchange ε)} {t : Turn ε}
    (h : Took crew.watched policy r s w t w') :
    Took crew policy r s w.1 t w'.1 ∧ w'.2 = w.2 ++ t.exchanges := by
  cases h with
  | passed hwhy => exact ⟨.passed hwhy, by simp⟩
  | exhausted hadmits hseated hpos hlength hfails =>
    obtain ⟨hfails, hwritten⟩ := hfails.unwatched
    exact ⟨.exhausted hadmits hseated hpos hlength hfails, hwritten⟩
  | @succeeded xs v o who hadmits hseated hlength hfails hsucceeded =>
    obtain ⟨hfails, hwritten⟩ := hfails.unwatched
    refine ⟨.succeeded hadmits hseated hlength hfails hsucceeded, ?_⟩
    calc (crew.watched.attempt who r v).2.2 = v.2 ++ [crew.exchange who r v.1] := rfl
      _ = w.2 ++ (xs ++ [crew.watched.exchange who r v]) := by simp [hwritten, exchange_watched]

theorem Turns.unwatched {w w' : σ × List (Exchange ε)} {chain : List Strategy}
    {ts : List (Turn ε)} (h : Turns crew.watched policy r w chain ts w') :
    Turns crew policy r w.1 chain ts w'.1 ∧ w'.2 = w.2 ++ ts.flatMap Turn.exchanges := by
  induction h with
  | finished => exact ⟨.finished, by simp⟩
  | success hturn hsuccess =>
    obtain ⟨hturn, hwritten⟩ := hturn.unwatched
    exact ⟨.success hturn hsuccess, by simpa using hwritten⟩
  | next hturn hfailed _ ih =>
    obtain ⟨hturn, hwritten⟩ := hturn.unwatched
    exact ⟨.next hturn hfailed ih.1, by rw [ih.2, hwritten]; simp⟩

/-- The strategies of a chain take the same turns whether or not the exchanges are written down,
and the exchanges of these turns are what is written down. -/
theorem tryChain_watched_turns (crew : Crew σ ε) (r : Request) {chain : List Strategy}
    (hchain : chain ⊆ policy.chain) (p : Progress) (w : σ) (written : List (Exchange ε)) :
    ∃ ts w', Turns crew policy r w chain ts w' ∧
      tryChain crew policy r chain p w =
        (winner? ts, p.extend (ts.flatMap Turn.entries) (ts.flatMap Turn.exchanges), w') ∧
      tryChain crew.watched policy r chain p (w, written) =
        (winner? ts, p.extend (ts.flatMap Turn.entries) (ts.flatMap Turn.exchanges), w',
          written ++ ts.flatMap Turn.exchanges) := by
  obtain ⟨ts, ⟨w', after⟩, hturns, hwatched⟩ :=
    @tryChain_turns _ _ crew.watched policy r chain hchain p (w, written)
  obtain ⟨hplain, hafter⟩ := hturns.unwatched
  dsimp only at hplain hafter
  subst hafter
  refine ⟨ts, w', hplain, ?_, hwatched⟩
  rw [← unwatched_tryChain chain p (w, written), hwatched]
  rfl

/-! ### What the turns say -/

section Exchanges

variable {who : ε} {number : Nat} {w w' : σ} {xs : List (Exchange ε)}

theorem Fails.not_succeeded (h : Fails crew r s who number w xs w') :
    ∀ x ∈ xs, ∀ o, ¬ x.Succeeded o := by
  induction h with
  | done => exact fun x hx => absurd hx List.not_mem_nil
  | more hreason _ ih =>
    intro x hx
    rcases List.mem_cons.1 hx with rfl | hx
    · exact Exchange.not_succeeded_of_reason? hreason
    · exact ih x hx

/-- As many entries are about attempts that were made as there were exchanges. -/
theorem Exchange.countP_entries (s : Strategy) (first : Nat) (xs : List (Exchange ε)) :
    (entries s first xs).countP wasMade = xs.length := by
  induction xs generalizing first with
  | nil => rfl
  | cons x rest ih => simp [entries_cons, wasMade_entry, ih]

theorem Exchange.outcome_ne_succeeded {first : Nat} (h : ∀ x ∈ xs, ∀ o, ¬ x.Succeeded o) :
    ∀ e ∈ entries s first xs, e.outcome ≠ .succeeded := by
  intro e he
  obtain ⟨⟨x, n⟩, hx, rfl⟩ := List.mem_map.1 he
  intro hsucceeded
  obtain ⟨o, ho⟩ := outcome_eq_succeeded_iff.1 hsucceeded
  exact h x (List.fst_mem_of_mem_zipIdx hx) o ho

end Exchanges

section Turns

variable {w w' : σ} {t : Turn ε} {ts : List (Turn ε)} {chain : List Strategy}

theorem Took.countP_entries (h : Took crew policy r s w t w') :
    t.entries.countP wasMade = t.exchanges.length := by
  cases h with
  | passed hwhy => simp [wasMade]
  | exhausted => exact Exchange.countP_entries s 1 _
  | succeeded => exact Exchange.countP_entries s 1 _

/-- The entries that a strategy leaves in its turn are about that strategy. -/
theorem Took.strategy_of_mem {e : TrailEntry} (h : Took crew policy r s w t w')
    (he : e ∈ t.entries) : e.strategy = s := by
  cases h with
  | passed hwhy => rw [List.mem_singleton.1 he]
  | exhausted =>
    obtain ⟨⟨x, number⟩, -, rfl⟩ := List.mem_map.1 he
    rfl
  | succeeded =>
    obtain ⟨⟨x, number⟩, -, rfl⟩ := List.mem_map.1 he
    rfl

theorem Took.length_exchanges_le (h : Took crew policy r s w t w') :
    t.exchanges.length ≤ policy.attempts := by
  cases h with
  | passed hwhy => exact Nat.zero_le _
  | exhausted _ _ _ hlength _ => exact Nat.le_of_eq hlength
  | succeeded _ _ hlength _ _ => simpa using Nat.succ_le_of_lt hlength

/-- In a turn without success neither an exchange nor an entry tells of one. -/
theorem Took.failed (h : Took crew policy r s w t w') (hfailed : t.success = none) :
    (∀ x ∈ t.exchanges, ∀ o, ¬ x.Succeeded o) ∧ ∀ e ∈ t.entries, e.outcome ≠ .succeeded := by
  cases h with
  | passed hwhy => simp
  | exhausted _ _ _ _ hfails =>
    have hnone := hfails.not_succeeded
    exact ⟨hnone, Exchange.outcome_ne_succeeded hnone⟩
  | succeeded => cases hfailed

/-- In a turn with success only the last exchange and the last entry tell of it. -/
theorem Took.succeeded_last {o : Output} (h : Took crew policy r s w t w')
    (ho : t.success = some o) :
    (∃ xs x, t.exchanges = xs ++ [x] ∧ (∀ y ∈ xs, ∀ o, ¬ y.Succeeded o) ∧ x.Succeeded o) ∧
    ∃ es e, t.entries = es ++ [e] ∧ (∀ f ∈ es, f.outcome ≠ .succeeded) ∧
      e.outcome = .succeeded ∧ e.strategy = s := by
  cases h with
  | passed hwhy => cases ho
  | exhausted => cases ho
  | succeeded _ _ _ hfails hsucceeded =>
    cases ho
    have hnone := hfails.not_succeeded
    refine ⟨⟨_, _, rfl, hnone, hsucceeded⟩, _, _, Exchange.entries_concat 1 _ _,
      Exchange.outcome_ne_succeeded hnone, ?_, rfl⟩
    exact Exchange.outcome_eq_succeeded_iff.2 ⟨_, hsucceeded⟩

/-- Every turn of a chain was taken by some strategy. -/
theorem Turns.took_of_mem (h : Turns crew policy r w chain ts w') (ht : t ∈ ts) :
    ∃ s v v', Took crew policy r s v t v' := by
  induction h with
  | finished => exact absurd ht List.not_mem_nil
  | success hturn _ =>
    obtain rfl := List.mem_singleton.1 ht
    exact ⟨_, _, _, hturn⟩
  | next hturn _ _ ih =>
    rcases List.mem_cons.1 ht with rfl | ht
    · exact ⟨_, _, _, hturn⟩
    · exact ih ht

theorem Turns.countP_entries (h : Turns crew policy r w chain ts w') :
    (ts.flatMap Turn.entries).countP wasMade = (ts.flatMap Turn.exchanges).length := by
  induction h with
  | finished => rfl
  | success hturn _ => simpa using hturn.countP_entries
  | next hturn _ _ ih => simp [hturn.countP_entries, ih]

theorem Turns.length_exchanges_le (h : Turns crew policy r w chain ts w') :
    (ts.flatMap Turn.exchanges).length ≤ chain.length * policy.attempts := by
  induction h with
  | finished => simp
  | success hturn _ =>
    have hfirst := hturn.length_exchanges_le
    simp only [List.flatMap_cons, List.flatMap_nil, List.append_nil, List.length_cons]
    exact Nat.le_trans hfirst (Nat.le_mul_of_pos_left _ (Nat.succ_pos _))
  | next hturn _ _ ih =>
    have hfirst := hturn.length_exchanges_le
    simp only [List.flatMap_cons, List.length_append, List.length_cons, Nat.succ_mul]
    omega

/-- The turns are those of the first strategies of the chain. -/
theorem Turns.strategies_prefix (h : Turns crew policy r w chain ts w') :
    ts.map Turn.strategy <+: chain := by
  induction h with
  | finished => exact List.prefix_refl []
  | success hturn _ => simp [hturn.strategy_eq]
  | next hturn _ _ ih => simpa [hturn.strategy_eq] using ih

/-- If no turn succeeded, all strategies of the chain had theirs, and nothing tells of success. -/
theorem Turns.lost (h : Turns crew policy r w chain ts w') (hlost : winner? ts = none) :
    ts.map Turn.strategy = chain ∧ (∀ x ∈ ts.flatMap Turn.exchanges, ∀ o, ¬ x.Succeeded o) ∧
      ∀ e ∈ ts.flatMap Turn.entries, e.outcome ≠ .succeeded := by
  induction h with
  | finished => simp
  | success hturn hsuccess => simp [winner?, hsuccess] at hlost
  | next hturn hfailed _ ih =>
    rw [winner?_cons hfailed] at hlost
    obtain ⟨hstrategies, hexchanges, hentries⟩ := ih hlost
    obtain ⟨hfirst, hfirst'⟩ := hturn.failed hfailed
    simp only [List.map_cons, hturn.strategy_eq, hstrategies, List.flatMap_cons, List.mem_append,
      true_and]
    exact ⟨fun x hx => hx.elim (hfirst x) (hexchanges x),
      fun e he => he.elim (hfirst' e) (hentries e)⟩

/-- If the last turn succeeded, the last exchange and the last entry tell of it, and no other. -/
theorem Turns.won {o : Output} (h : Turns crew policy r w chain ts w')
    (hwon : winner? ts = some (s, o)) :
    (∃ xs x, ts.flatMap Turn.exchanges = xs ++ [x] ∧ (∀ y ∈ xs, ∀ o, ¬ y.Succeeded o) ∧
      x.Succeeded o) ∧
    ∃ es e, ts.flatMap Turn.entries = es ++ [e] ∧ (∀ f ∈ es, f.outcome ≠ .succeeded) ∧
      e.outcome = .succeeded ∧ e.strategy = s := by
  induction h with
  | finished => cases hwon
  | @success w t' rest t w' hturn hsuccess =>
    obtain ⟨o', ho⟩ := Option.ne_none_iff_exists'.1 hsuccess
    simp only [winner?, List.getLast?_singleton, Option.bind_some, ho, Option.map_some,
      Option.some.injEq, Prod.mk.injEq, hturn.strategy_eq] at hwon
    obtain ⟨rfl, rfl⟩ := hwon
    simpa using hturn.succeeded_last ho
  | next hturn hfailed _ ih =>
    rw [winner?_cons hfailed] at hwon
    obtain ⟨⟨xs, x, hxs, hnone, hx⟩, es, e, hes, hne, he, hs⟩ := ih hwon
    obtain ⟨hfirst, hfirst'⟩ := hturn.failed hfailed
    refine ⟨⟨_, x, by rw [List.flatMap_cons, hxs, List.append_assoc], ?_, hx⟩,
      _, e, by rw [List.flatMap_cons, hes, List.append_assoc], ?_, he, hs⟩
    · exact fun y hy => (List.mem_append.1 hy).elim (hfirst y) (hnone y)
    · exact fun f hf => (List.mem_append.1 hf).elim (hfirst' f) (hne f)

end Turns

/-! ### The trail and the run -/

/-- The result of a step says what the turns came to, of which the last one succeeded. -/
structure Won (ts : List (Turn ε)) (result : StepResult) : Prop where
  /-- The trail is made up of the blocks of the turns. -/
  trail : result.trail = ts.flatMap Turn.entries
  /-- The number of attempts is the number of exchanges. -/
  attempts : result.attempts = (ts.flatMap Turn.exchanges).length
  /-- It is also the number of entries that are not about strategies passed over. -/
  made : result.attempts = result.trail.countP wasMade
  /-- The last exchange succeeded with what came out, and no other did. -/
  last : ∃ xs x o, ts.flatMap Turn.exchanges = xs ++ [x] ∧ (∀ y ∈ xs, ∀ o, ¬ y.Succeeded o) ∧
    x.attempt = .answered (.ok o) ∧ o.success = true ∧
    result.outputs = o.outputs ∧ result.lines = o.lines
  /-- The last entry tells of a success of the strategy that is named, and no other does. -/
  success : ∃ es e, result.trail = es ++ [e] ∧ (∀ f ∈ es, f.outcome ≠ .succeeded) ∧
    e.outcome = .succeeded ∧ e.strategy = result.strategy

/-- The failure of a step says what the turns came to, none of which succeeded. -/
structure Lost (policy : Policy) (step : String) (ts : List (Turn ε)) (failure : Failure) :
    Prop where
  /-- All strategies of the chain had their turns. -/
  strategies : ts.map Turn.strategy = policy.chain
  /-- No exchange succeeded. -/
  exchanges : ∀ x ∈ ts.flatMap Turn.exchanges, ∀ o, ¬ x.Succeeded o
  /-- No entry tells of a success. -/
  entries : ∀ e ∈ ts.flatMap Turn.entries, e.outcome ≠ .succeeded
  /-- The failure has the reason of the last exchange, if there was one, and the whole trail. -/
  failure : failure = .exhausted step
    ((((ts.flatMap Turn.exchanges).filterMap Exchange.reason?).getLast?).getD
      ("No execution strategy available for step '" ++ step ++ "'"))
    (ts.flatMap Turn.entries)

/-- The trail is exactly the run. When a step is to be got done, the strategies of the chain take
their turns in order, up to the first success. The crew that is watched ends up with the same
result, in the same surroundings, and has written down the exchanges of these turns. The step gets
done if and only if in one of them the executor answered in time and reported a success. The trail
is made up of the blocks that the turns left, and the number of attempts, which cannot pass the
number of strategies times the attempts for each, is that of the exchanges. -/
theorem trail_is_run (crew : Crew σ ε) (policy : Policy) (step method : String) (inputs : Bindings)
    (w : σ) :
    ∃ ts w', Turns crew policy ⟨step, method, inputs, policy.timeout⟩ w policy.chain ts w' ∧
      run crew.watched policy step method inputs (w, []) =
        ((run crew policy step method inputs w).1, w', ts.flatMap Turn.exchanges) ∧
      (run crew policy step method inputs w).2 = w' ∧
      ts.map Turn.strategy <+: policy.chain ∧
      (ts.flatMap Turn.exchanges).length ≤ policy.chain.length * policy.attempts ∧
      ((∃ result, (run crew policy step method inputs w).1 = .ok result) ↔
        ∃ x ∈ ts.flatMap Turn.exchanges, ∃ o, x.attempt = .answered (.ok o) ∧ o.success = true) ∧
      match (run crew policy step method inputs w).1 with
      | .ok result => Won ts result
      | .error failure => Lost policy step ts failure := by
  obtain ⟨ts, ⟨w', written⟩, hturns, hchain⟩ := @tryChain_turns _ _ crew.watched policy
    ⟨step, method, inputs, policy.timeout⟩ _ (List.Subset.refl policy.chain) {} (w, [])
  have hunwatched := @unwatched_tryChain _ _ crew policy ⟨step, method, inputs, policy.timeout⟩
    policy.chain {} (w, [])
  obtain ⟨hturns, hwritten⟩ := hturns.unwatched
  rw [hchain] at hunwatched
  simp only [List.nil_append] at hwritten
  subst hwritten
  have hchain' : tryChain crew policy ⟨step, method, inputs, policy.timeout⟩ policy.chain {} w =
      (winner? ts,
        ({} : Progress).extend (ts.flatMap Turn.entries) (ts.flatMap Turn.exchanges), w') :=
    hunwatched.symm
  have hattempts : (({} : Progress).extend (ts.flatMap Turn.entries)
      (ts.flatMap Turn.exchanges)).attempts = (ts.flatMap Turn.exchanges).length := by
    simp [Progress.extend]
  have htrail : (({} : Progress).extend (ts.flatMap Turn.entries)
      (ts.flatMap Turn.exchanges)).trail = ts.flatMap Turn.entries := by
    simp [Progress.extend]
  refine ⟨ts, w', hturns, ?_⟩
  cases hwinner : winner? ts with
  | none =>
    obtain ⟨hstrategies, hexchanges, hentries⟩ := hturns.lost hwinner
    simp only [run, hchain, hchain', hwinner]
    refine ⟨trivial, trivial, hturns.strategies_prefix, hturns.length_exchanges_le, ?_, ?_⟩
    · refine iff_of_false (by simp) ?_
      rintro ⟨x, hx, o, hanswer, hsuccess⟩
      exact hexchanges x hx o ⟨hanswer, hsuccess⟩
    · exact ⟨hstrategies, hexchanges, hentries, by simp [Progress.extend]⟩
  | some winner =>
    obtain ⟨s, o⟩ := winner
    obtain ⟨⟨xs, x, hxs, hnone, hx⟩, hsuccess⟩ := hturns.won hwinner
    simp only [run, hchain, hchain', hwinner]
    refine ⟨?_, trivial, hturns.strategies_prefix, hturns.length_exchanges_le, ?_, ?_⟩
    · rfl
    · exact iff_of_true ⟨_, rfl⟩ ⟨x, by simp [hxs], o, hx.answer, hx.success⟩
    · refine ⟨htrail, hattempts, ?_, ⟨xs, x, o, hxs, hnone, hx.answer, hx.success, rfl, rfl⟩, ?_⟩
      · rw [hattempts, htrail, hturns.countP_entries]
      · rw [htrail]
        exact hsuccess

/-- A machine that takes too long at first and then is jammed, and a helper who gets the work done,
but not at the first attempt. Nobody follows any other strategy. The state counts the attempts. -/
def machineAndHelper : Crew Nat Strategy where
  seated _ s := if s = .algorithmic ∨ s = .ai then some s else none
  attempt s _ made :=
    (match s, made with
      | .algorithmic, 0 => .overran
      | .algorithmic, _ => .answered (.error (.unavailable "jammed"))
      | _, 2 => .answered (.ok ⟨false, .empty, [], none⟩)
      | _, _ => .answered (.ok ⟨true, .empty, ["done by hand"], none⟩), made + 1)
  note _ made := made
  clock made := made

/-- A policy with two attempts for each strategy, which does not let a person be asked. -/
def twoAttempts (chain : List Strategy) : Policy :=
  ⟨chain, false, 2, 1000, [.algorithmic, .human, .custom "oracle", .ai]⟩

/-- The machine uses up its attempts, a person and an oracle are passed over, and the helper gets
the work done at the second attempt. Without the helper the machine's last failure is the reason. -/
theorem trail_is_run_machineAndHelper :
    let policy := twoAttempts [.algorithmic, .human, .custom "oracle", .ai]
    let alone := twoAttempts [.algorithmic, .human]
    let r : Request := ⟨"cut", "exactly", .empty, 1000⟩
    let trail : List TrailEntry :=
      [⟨.algorithmic, 1, .timedOut 1000, .ofMillis 1⟩,
        ⟨.algorithmic, 2, .failed "Executor unavailable: jammed", .ofMillis 2⟩,
        ⟨.human, 0, .skipped "human override not allowed", .ofMillis 2⟩,
        ⟨.custom "oracle", 0, .skipped "no executor registered", .ofMillis 2⟩,
        ⟨.ai, 1, .failed "Executor reported failure", .ofMillis 3⟩,
        ⟨.ai, 2, .succeeded, .ofMillis 4⟩]
    let result : StepResult := ⟨.ai, .empty, trail, ["done by hand"], 4, 4⟩
    let failure : Failure := .exhausted "cut" "Executor unavailable: jammed" (trail.take 3)
    (∃ ts made, Turns machineAndHelper policy r 0 policy.chain ts made ∧
      (run machineAndHelper policy "cut" "exactly" .empty 0).1 = .ok result ∧ Won ts result) ∧
    ∃ ts made, Turns machineAndHelper alone r 0 alone.chain ts made ∧
      (run machineAndHelper alone "cut" "exactly" .empty 0).1 = .error failure ∧
      Lost alone "cut" ts failure := by
  intro policy alone r trail result failure
  obtain ⟨ts, made, hturns, -, -, -, -, -, hwon⟩ :=
    trail_is_run machineAndHelper policy "cut" "exactly" .empty 0
  obtain ⟨ts', made', hturns', -, -, -, -, -, hlost⟩ :=
    trail_is_run machineAndHelper alone "cut" "exactly" .empty 0
  exact ⟨⟨ts, made, hturns, rfl, hwon⟩, ts', made', hturns', rfl, hlost⟩

end Engine

end Foreman
