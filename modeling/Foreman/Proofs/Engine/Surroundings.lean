import Foreman.Engine
import Mathlib.Logic.Relation
/-!
# What the engine does to its surroundings

Whatever becomes of a step, the engine does nothing to its surroundings but make attempts and notes.
So whatever relates the surroundings before and after each of these relates them, step by step,
before and after the whole.

## Main results

* `Foreman.Engine.run_reaches`: the surroundings after a step are reached by attempts and notes.
-/

namespace Foreman.Engine

open Relation

variable {σ : Type u} {ε : Type v} {crew : Crew σ ε} {R : σ → σ → Prop}
  (hattempt : ∀ who r w, ReflTransGen R w (crew.attempt who r w).2)
  (hnote : ∀ n w, ReflTransGen R w (crew.note n w))

include hattempt hnote

theorem tryRepeatedly_reaches (who : ε) (r : Request) (s : Strategy) (left number : Nat)
    (p : Progress) (w : σ) :
    ReflTransGen R w (tryRepeatedly crew who r s left number p w).2.2 := by
  induction left generalizing number p w with
  | zero => exact .refl
  | succ left ih =>
    have hfirst := hattempt who r w
    rcases ha : crew.attempt who r w with ⟨a, w'⟩
    rw [ha] at hfirst
    simp only [tryRepeatedly, ha]
    split
    · exact hfirst
    · exact hfirst.trans ((hnote _ w').trans (ih _ _ _))

theorem tryStrategy_reaches (policy : Policy) (r : Request) (s : Strategy) (p : Progress) (w : σ) :
    ReflTransGen R w (tryStrategy crew policy r s p w).2.2 := by
  unfold tryStrategy
  split
  · exact .refl
  · split
    · exact .refl
    · dsimp only
      split
      · exact .refl
      · exact tryRepeatedly_reaches hattempt hnote _ r s _ _ p w

theorem tryChain_reaches (policy : Policy) (r : Request) (chain : List Strategy) (p : Progress)
    (w : σ) : ReflTransGen R w (tryChain crew policy r chain p w).2.2 := by
  induction chain generalizing p w with
  | nil => exact .refl
  | cons s rest ih =>
    have hfirst := tryStrategy_reaches hattempt hnote policy r s p w
    rcases hs : tryStrategy crew policy r s p w with ⟨_ | o, p', w'⟩
    · rw [hs] at hfirst
      simpa only [tryChain, hs] using hfirst.trans (ih p' w')
    · rw [hs] at hfirst
      simpa only [tryChain, hs] using hfirst

/-- The surroundings after a step are reached from those before it by attempts and notes. -/
theorem run_reaches (policy : Policy) (step method : String) (inputs : Bindings) (w : σ) :
    ReflTransGen R w (run crew policy step method inputs w).2 := by
  have h := tryChain_reaches hattempt hnote policy ⟨step, method, inputs, policy.timeout⟩
    policy.chain {} w
  rcases hc : tryChain crew policy ⟨step, method, inputs, policy.timeout⟩ policy.chain {} w with
    ⟨_ | ⟨s, o⟩, p, w'⟩
  · rw [hc] at h
    simpa only [run, hc] using h
  · rw [hc] at h
    simpa only [run, hc] using h

end Foreman.Engine
