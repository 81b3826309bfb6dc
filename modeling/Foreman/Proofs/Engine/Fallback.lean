import Foreman.Proofs.Engine.Trail
import Foreman.Workshop.Labour
/-!
# Falling back

A step is said to have fallen back if any attempt failed before it got done. That is so if and only
if the first attempt was not the one that got it done, in other words if there was more than one.

One would rather say that a step has fallen back if another strategy got it done than the one that
was tried first. If that is so, the step has indeed fallen back. The converse holds only if the
strategy that got it done needed a single attempt: a strategy that is tried again, and then gets the
step done, has fallen back to nothing but itself.

## Main results

* `Foreman.Engine.Turns.countP_made_le`: how many attempts a strategy is given.
* `Foreman.Engine.exists_first_made`: what the trail says about falling back.
* `Foreman.Engine.fellBack_of_run`: when a step has fallen back.
* `Foreman.Engine.retry_counts_as_fallback`: a strategy that is merely tried again.
-/

namespace Foreman

/-- An entry tells of a failure if it is about an attempt that was made and did not succeed. -/
theorem TrailEntry.isFailure_iff (e : TrailEntry) :
    e.isFailure = true ↔ Engine.wasMade e = true ∧ e.outcome ≠ .succeeded := by
  cases h : e.outcome <;> simp [isFailure, Outcome.isFailure, Engine.wasMade, h]

namespace Engine

variable {σ : Type u} {ε : Type v} {crew : Crew σ ε} {policy : Policy} {r : Request} {s : Strategy}
  {w w' : σ}

/-! ### How many attempts a strategy is given -/

/-- Whether an entry is about an attempt that was made with a strategy. -/
def madeWith (s : Strategy) (e : TrailEntry) : Bool :=
  wasMade e && e.strategy = s

theorem Took.countP_made_le {t : Turn ε} (h : Took crew policy r s w t w') (s' : Strategy) :
    t.entries.countP (madeWith s') ≤ [s].count s' * policy.attempts := by
  by_cases hs : s = s'
  · calc t.entries.countP (madeWith s') ≤ t.entries.countP wasMade :=
        List.countP_mono_left fun e _ hmade => (Bool.and_eq_true_iff.1 hmade).1
      _ = t.exchanges.length := h.countP_entries
      _ ≤ policy.attempts := h.length_exchanges_le
      _ = [s].count s' * policy.attempts := by simp [hs]
  · have hnone : t.entries.countP (madeWith s') = 0 := by
      rw [List.countP_eq_zero]
      intro e he hmade
      have hstrategy : e.strategy = s' := by simpa using (Bool.and_eq_true_iff.1 hmade).2
      exact hs ((h.strategy_of_mem he).symm.trans hstrategy)
    exact hnone ▸ Nat.zero_le _

/-- A strategy is given its attempts as often as it stands in the chain, at most. -/
theorem Turns.countP_made_le {chain : List Strategy} {ts : List (Turn ε)}
    (h : Turns crew policy r w chain ts w') (s' : Strategy) :
    (ts.flatMap Turn.entries).countP (madeWith s') ≤ chain.count s' * policy.attempts := by
  induction h with
  | finished => simp
  | @success w s rest t w' hturn _ =>
    have hcount : [s].count s' ≤ (s :: rest).count s' :=
      (List.singleton_sublist.2 List.mem_cons_self).count_le s'
    simpa using Nat.le_trans (hturn.countP_made_le s') (Nat.mul_le_mul_right _ hcount)
  | @next w s rest t w' ts w'' hturn _ _ ih =>
    rw [List.flatMap_cons, List.countP_append, ← List.singleton_append, List.count_append,
      Nat.add_mul]
    exact Nat.add_le_add (hturn.countP_made_le s') ih

/-! ### The step that got done -/

/-- The turns of a step that got done make up its result. -/
theorem exists_turns_of_ok {step method : String} {inputs : Bindings} {result : StepResult}
    (h : (run crew policy step method inputs w).1 = .ok result) :
    ∃ ts w' o, Turns crew policy ⟨step, method, inputs, policy.timeout⟩ w policy.chain ts w' ∧
      winner? ts = some (result.strategy, o) ∧
      result.trail = ts.flatMap Turn.entries ∧
      result.attempts = (ts.flatMap Turn.exchanges).length := by
  obtain ⟨ts, w', hturns, hchain⟩ := @tryChain_turns _ _ crew policy
    ⟨step, method, inputs, policy.timeout⟩ _ (List.Subset.refl policy.chain) {} w
  simp only [run, hchain] at h
  rcases hwinner : winner? ts with _ | ⟨s, o⟩
  · simp only [hwinner] at h
    cases h
  · simp only [hwinner] at h
    obtain rfl := Except.ok.inj h
    exact ⟨ts, w', o, hturns, hwinner, by simp [Progress.extend], by simp [Progress.extend]⟩

section Success

variable {result : StepResult} {es : List TrailEntry} {e : TrailEntry}
  (htrail : result.trail = es ++ [e]) (hearlier : ∀ f ∈ es, f.outcome ≠ .succeeded)
  (hlast : e.outcome = .succeeded)

include htrail hearlier hlast

/-- If only the last entry tells of a success, a step has fallen back if and only if an attempt was
made before. -/
theorem fellBack_iff : result.fellBack = true ↔ ∃ f ∈ es, wasMade f = true := by
  simp only [StepResult.fellBack, htrail, List.any_eq_true, TrailEntry.isFailure_iff]
  constructor
  · rintro ⟨f, hf, hmade, hfailed⟩
    rcases List.mem_append.1 hf with hf | hf
    · exact ⟨f, hf, hmade⟩
    · exact absurd (List.mem_singleton.1 hf ▸ hlast) hfailed
  · rintro ⟨f, hf, hmade⟩
    exact ⟨f, List.mem_append_left _ hf, hmade, hearlier f hf⟩

/-- If only the last entry tells of a success, the trail says when a step has fallen back: if the
first attempt did not succeed, or was not the only one. If the first attempt was made with another
strategy than the last, the step has fallen back, and the converse holds if only one attempt was
made with the strategy of the last. -/
theorem exists_first_made :
    ∃ first, result.trail.find? wasMade = some first ∧
      (result.fellBack = true ↔ first.outcome ≠ .succeeded) ∧
      (result.fellBack = true ↔ 1 < result.trail.countP wasMade) ∧
      (first.strategy ≠ e.strategy → result.fellBack = true) ∧
      (result.trail.countP (madeWith e.strategy) ≤ 1 →
        (result.fellBack = true ↔ first.strategy ≠ e.strategy)) := by
  have hfellBack := fellBack_iff htrail hearlier hlast
  have hmade : wasMade e = true := by simp [wasMade, hlast]
  have hmadeWith : madeWith e.strategy e = true := by simp [madeWith, hmade]
  rw [htrail, List.find?_append, List.countP_append, List.countP_append,
    List.countP_singleton, List.countP_singleton, if_pos hmade, if_pos hmadeWith]
  cases hfirst : es.find? wasMade with
  | none =>
    -- the one attempt that was made is the one that succeeded
    have hnone : ¬ ∃ f ∈ es, wasMade f = true := by simpa using hfirst
    have hnot : ¬ result.fellBack = true := fun hfell => hnone (hfellBack.1 hfell)
    have hzero : es.countP wasMade = 0 := List.countP_eq_zero.2 (List.find?_eq_none.1 hfirst)
    refine ⟨e, by simp [hmade], iff_of_false hnot (not_not_intro hlast),
      iff_of_false hnot (by omega), fun hne => absurd rfl hne,
      fun _ => iff_of_false hnot (not_not_intro rfl)⟩
  | some first =>
    have hmem := List.mem_of_find?_eq_some hfirst
    have hmadeFirst := List.find?_some hfirst
    have hfell := hfellBack.2 ⟨first, hmem, hmadeFirst⟩
    have hpos : 0 < es.countP wasMade := List.countP_pos_iff.2 ⟨first, hmem, hmadeFirst⟩
    refine ⟨first, rfl, iff_of_true hfell (hearlier first hmem), iff_of_true hfell (by omega),
      fun _ => hfell, fun honce => iff_of_true hfell fun hsame => ?_⟩
    -- the first attempt and the last would both have been made with one strategy
    have hpos' : 0 < es.countP (madeWith e.strategy) :=
      List.countP_pos_iff.2 ⟨first, hmem, by simp [madeWith, hmadeFirst, hsame]⟩
    omega

end Success

/-- A step that got done has fallen back if and only if the first attempt did not succeed, in other
words if there was more than one. It has if another strategy got it done than the one that was tried
first; and it has not otherwise, if the strategy that got it done needed one attempt only, as it
must where the policy gives it no more. -/
theorem fellBack_of_run {step method : String} {inputs : Bindings} {result : StepResult}
    (h : (run crew policy step method inputs w).1 = .ok result) :
    ∃ first, result.trail.find? wasMade = some first ∧
      (result.fellBack = true ↔ first.outcome ≠ .succeeded) ∧
      (result.fellBack = true ↔ 1 < result.attempts) ∧
      (first.strategy ≠ result.strategy → result.fellBack = true) ∧
      (result.trail.countP (madeWith result.strategy) ≤ 1 →
        (result.fellBack = true ↔ first.strategy ≠ result.strategy)) ∧
      result.trail.countP (madeWith result.strategy) ≤
        policy.chain.count result.strategy * policy.attempts := by
  obtain ⟨ts, w', o, hturns, hwinner, htrail, hattempts⟩ := exists_turns_of_ok h
  obtain ⟨-, es, e, hentries, hearlier, hlast, hstrategy⟩ := hturns.won hwinner
  obtain ⟨first, hfirst, houtcome, hmany, hother, honce⟩ :=
    exists_first_made (htrail.trans hentries) hearlier hlast
  have hcount : result.trail.countP wasMade = result.attempts := by
    rw [htrail, hturns.countP_entries, hattempts]
  rw [hstrategy] at hother honce
  rw [hcount] at hmany
  refine ⟨first, hfirst, houtcome, hmany, hother, honce, ?_⟩
  rw [htrail]
  exact hturns.countP_made_le result.strategy

/-- A bench with a machine that works at the second attempt. -/
def bench : Workshop :=
  (Workshop.new {} (.shelf .empty) .own).seat .algorithmic
    ⟨.script "machine" [.ok (.failed "jammed"), .ok (.succeeded .empty)] 0, []⟩ "machine"

/-- If there is only one attempt each, the machine leaves the step to a helper, and that is falling
back. -/
theorem fellBack_of_run_bench :
    let crew := Workshop.crew fun _ w => (some [], w)
    let once : Policy := ⟨[.algorithmic, .ai], false, 1, 1000, [.algorithmic, .ai]⟩
    let helped := bench.seat .ai ⟨.script "helper" [.ok (.succeeded .empty)] 0, []⟩ "helper"
    ∃ result first, (run crew once "cut" "exactly" .empty { shop := helped }).1 = .ok result ∧
      result.strategy = .ai ∧ result.trail.countP (madeWith .ai) ≤ 1 ∧
      result.trail.find? wasMade = some first ∧ first.strategy = .algorithmic ∧
      result.fellBack = true := by
  intro crew once helped
  obtain ⟨result, hresult⟩ :
      ∃ result, (run crew once "cut" "exactly" .empty { shop := helped }).1 = .ok result := ⟨_, rfl⟩
  obtain ⟨first, hfirst, -, -, -, hsingle, hgiven⟩ := fellBack_of_run hresult
  obtain rfl := Except.ok.inj hresult
  obtain rfl := Option.some.inj hfirst
  have hgiven' : once.chain.count .ai * once.attempts ≤ 1 := by decide
  have hone := Nat.le_trans hgiven hgiven'
  exact ⟨_, _, rfl, rfl, hone, rfl, rfl, (hsingle hone).2 (by decide)⟩

/-- With more attempts the machine gets the step done itself, at the second. That counts as falling
back, although no other strategy has been tried. -/
theorem retry_counts_as_fallback :
    ∃ result first,
      (Workshop.executeStep (fun _ w => (some [], w)) "cut" "exactly" .empty bench).1 =
        some (.ok result) ∧
      result.trail.find? wasMade = some first ∧ first.strategy = result.strategy ∧
      result.fellBack = true :=
  ⟨_, _, rfl, rfl, rfl, rfl⟩

end Engine

end Foreman
