import Foreman.Proofs.Engine.Trail
/-!
# Crews that agree

Two crews may differ in what they do to their surroundings, and still agree on all that the engine
gets to know. If they do so wherever their surroundings are related, and attempts and notes keep
them related, the engine cannot tell them apart: it does the same with both, and comes to the same
result.

## Main definitions

* `Foreman.Crew.AgreesOn`: two crews agree about an executor and a request.
* `Foreman.Crew.Agrees`: they agree about everybody, and about who follows which strategy.
* `Foreman.Engine.SameUpTo`: results that differ in nothing but the surroundings, which are related.

## Main results

* `Foreman.Crew.AgreesOn.watched`, `Foreman.Crew.Agrees.watched`: crews that agree have the same
  exchanges.
* `Foreman.Crew.AgreesOn.tryRepeatedly`, `Foreman.Crew.Agrees.run`: what the engine does with crews
  that agree.
-/

namespace Foreman

variable {σ : Type u} {τ : Type v} {ε : Type w}

namespace Crew

/-- Wherever their surroundings are related, two crews agree on what an attempt of an executor
brings and on the time, and attempts and notes keep the surroundings related. -/
structure AgreesOn (crew : Crew σ ε) (other : Crew τ ε) (R : σ → τ → Prop) (who : ε)
    (r : Request) : Prop where
  /-- An attempt brings the same. -/
  attempt : ∀ {x y}, R x y → (crew.attempt who r x).1 = (other.attempt who r y).1
  /-- Attempts keep the surroundings related. -/
  after : ∀ {x y}, R x y → R (crew.attempt who r x).2 (other.attempt who r y).2
  /-- Notes keep the surroundings related. -/
  note : ∀ {x y}, R x y → ∀ n, R (crew.note n x) (other.note n y)
  /-- The time is the same. -/
  clock : ∀ {x y}, R x y → crew.clock x = other.clock y

/-- Two crews agree about every executor, and about who follows which strategy. -/
structure Agrees (crew : Crew σ ε) (other : Crew τ ε) (R : σ → τ → Prop) (r : Request) : Prop where
  /-- Strategies are followed by the same. -/
  seated : ∀ {x y}, R x y → ∀ s, crew.seated x s = other.seated y s
  /-- The time is the same. -/
  clock : ∀ {x y}, R x y → crew.clock x = other.clock y
  /-- The crews agree about every executor. -/
  on : ∀ who, AgreesOn crew other R who r

end Crew

namespace Engine

/-- Two results are the same, up to the surroundings, which are related. -/
structure SameUpTo {α : Type u'} {β : Type v'} (R : σ → τ → Prop) (a : α × β × σ) (b : α × β × τ) :
    Prop where
  /-- What came out is the same. -/
  outcome : a.1 = b.1
  /-- So is what has been done. -/
  progress : a.2.1 = b.2.1
  /-- The surroundings are related. -/
  related : R a.2.2 b.2.2

end Engine

namespace Crew

open Engine

variable {crew : Crew σ ε} {other : Crew τ ε} {R : σ → τ → Prop} {who : ε} {r : Request} {x : σ}
  {y : τ} {policy : Policy} {s : Strategy}

/-! ### Exchanges -/

/-- Crews that agree have the same exchange with an executor. -/
theorem AgreesOn.exchange (h : AgreesOn crew other R who r) (hR : R x y) :
    crew.exchange who r x = other.exchange who r y := by
  rw [Crew.exchange, Crew.exchange, h.attempt hR, h.clock (h.after hR)]

/-- Crews that agree still do so when all exchanges are written down. -/
theorem AgreesOn.watched (h : AgreesOn crew other R who r) :
    AgreesOn crew.watched other.watched (fun a b => R a.1 b.1 ∧ a.2 = b.2) who r where
  attempt hR := h.attempt hR.1
  after hR := ⟨h.after hR.1, by simp only [Crew.watched, hR.2, h.exchange hR.1]⟩
  note hR n := ⟨h.note hR.1 n, hR.2⟩
  clock hR := h.clock hR.1

theorem Agrees.watched (h : Agrees crew other R r) :
    Agrees crew.watched other.watched (fun a b => R a.1 b.1 ∧ a.2 = b.2) r where
  seated hR := h.seated hR.1
  clock hR := h.clock hR.1
  on who := (h.on who).watched

/-- A crew that is watched agrees with itself, and writes down exchanges about the one request. -/
theorem agrees_watched_self (crew : Crew σ ε) (r : Request) :
    Agrees crew.watched crew.watched (fun a b => a = b ∧ ∀ e ∈ a.2, e.request = r) r where
  seated hR _ := hR.1 ▸ rfl
  clock hR := hR.1 ▸ rfl
  on who :=
    { attempt := fun hR => hR.1 ▸ rfl
      after := by
        rintro a _ ⟨rfl, hrequest⟩
        refine ⟨rfl, fun e he => ?_⟩
        rcases List.mem_append.1 he with he | he
        · exact hrequest e he
        · obtain rfl := List.mem_singleton.1 he
          rfl
      note := fun hR _ => ⟨hR.1 ▸ rfl, hR.2⟩
      clock := fun hR => hR.1 ▸ rfl }

/-! ### The engine -/

/-- The attempts of an executor come to the same with crews that agree about it. -/
theorem AgreesOn.tryRepeatedly (h : AgreesOn crew other R who r) (s : Strategy)
    (left number : Nat) (p : Progress) (hR : R x y) :
    SameUpTo R (tryRepeatedly crew who r s left number p x)
      (tryRepeatedly other who r s left number p y) := by
  induction left generalizing number p x y with
  | zero => exact ⟨rfl, rfl, hR⟩
  | succ left ih =>
    rw [tryRepeatedly_succ, tryRepeatedly_succ, ← h.exchange hR]
    dsimp only
    split
    · exact ⟨rfl, rfl, h.after hR⟩
    · exact ih _ _ (h.note (h.after hR) _)

theorem Agrees.tryStrategy (h : Agrees crew other R r) (policy : Policy) (s : Strategy)
    (p : Progress) (hR : R x y) :
    SameUpTo R (tryStrategy crew policy r s p x) (tryStrategy other policy r s p y) := by
  have hpass (why : Skip) : SameUpTo (α := Option Output) R
      (none, p.record s 0 (.skipped why.message) (crew.clock x), x)
      (none, p.record s 0 (.skipped why.message) (other.clock y), y) :=
    ⟨rfl, by rw [h.clock hR], hR⟩
  -- the policy decides first, and what it leaves open depends on who follows the strategy just now
  unfold Engine.tryStrategy
  rw [← h.seated hR]
  cases skip? policy s with
  | some why => exact hpass why
  | none =>
    cases crew.seated x s with
    | none => exact hpass .nobodySeated
    | some who =>
      by_cases hattempts : policy.attempts = 0
      · simp only [hattempts, if_true]
        exact hpass .noAttempts
      · simp only [hattempts, if_false]
        exact (h.on who).tryRepeatedly s _ _ p hR

theorem Agrees.tryChain (h : Agrees crew other R r) (policy : Policy) (chain : List Strategy)
    (p : Progress) (hR : R x y) :
    SameUpTo R (tryChain crew policy r chain p x) (tryChain other policy r chain p y) := by
  induction chain generalizing p x y with
  | nil => exact ⟨rfl, rfl, hR⟩
  | cons s rest ih =>
    obtain ⟨houtcome, hprogress, hrelated⟩ := h.tryStrategy policy s p hR
    rcases hx : Engine.tryStrategy crew policy r s p x with ⟨o, q, x'⟩
    rcases hy : Engine.tryStrategy other policy r s p y with ⟨o', q', y'⟩
    rw [hx, hy] at houtcome hprogress hrelated
    obtain rfl : o = o' := houtcome
    obtain rfl : q = q' := hprogress
    cases o with
    | some o => simpa only [Engine.tryChain, hx, hy] using ⟨rfl, rfl, hrelated⟩
    | none => simpa only [Engine.tryChain, hx, hy] using ih q hrelated

/-- A step comes to the same with crews that agree. -/
theorem Agrees.run {policy : Policy} {step method : String} {inputs : Bindings}
    (h : Agrees crew other R ⟨step, method, inputs, policy.timeout⟩) (hR : R x y) :
    (run crew policy step method inputs x).1 = (run other policy step method inputs y).1 ∧
      R (run crew policy step method inputs x).2 (run other policy step method inputs y).2 := by
  obtain ⟨houtcome, hprogress, hrelated⟩ := h.tryChain policy policy.chain {} hR
  have hclock := h.clock hrelated
  rcases hx : Engine.tryChain crew policy ⟨step, method, inputs, policy.timeout⟩ policy.chain {} x
    with ⟨winner, p, x'⟩
  rcases hy : Engine.tryChain other policy ⟨step, method, inputs, policy.timeout⟩ policy.chain {} y
    with ⟨winner', p', y'⟩
  rw [hx, hy] at houtcome hprogress hrelated hclock
  obtain rfl : winner = winner' := houtcome
  obtain rfl : p = p' := hprogress
  cases winner with
  | none => simpa only [Engine.run, hx, hy, true_and] using hrelated
  | some winner => simpa only [Engine.run, hx, hy, h.clock hR, hclock, true_and] using hrelated

end Crew

end Foreman
