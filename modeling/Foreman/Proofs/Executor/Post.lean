import Foreman.Engine
import Mathlib.Data.List.Perm.Basic
/-!
# Calls of an executor

The calls of an executor may overlap: while one waits, others may begin, and they may come to their
ends in any order. A call is put down when it begins. At its end it is either answered, and then the
executor goes on with whatever it does from then on, or it is cancelled, and then it leaves nothing
behind but that it began.

An executor that follows a script gives the entries of the script in order to the calls that are
answered, in the order in which they are answered. The last entry stays.

## Main definitions

* `Foreman.Moment`: what happens at an executor.
* `Foreman.Post`: an executor with its calls.
* `Foreman.Post.History`: what happens at an executor, moment after moment.
* `Foreman.Work.scripted`: the entry of a script for the answer with a number.
* `Foreman.Post.Replayed`: what a script comes to.

## Main results

* `Foreman.Work.respond_script`: the answer with a number, and what is left of the script.
* `Foreman.Post.History.replayed`: a script is replayed, however its calls overlap and whichever of
  them are cancelled.
-/

namespace Foreman

/-! ### Scripts -/

namespace Work

variable {α : Type}

/-- What is left of some entries after so many were used up; the last entry stays. -/
def leftAfter (n : Nat) (entries : List α) : List α :=
  entries.drop (min n (entries.length - 1))

/-- The entry of a script for the answer with a number, counted from 0. -/
def scripted (name : String) (responses : List Response) (n : Nat) : Response :=
  (responses[min n (responses.length - 1)]?).getD (.error (nothingScripted name))

@[simp] theorem leftAfter_zero (entries : List α) : leftAfter 0 entries = entries := by
  simp [leftAfter]

@[simp] theorem leftAfter_nil (n : Nat) : leftAfter n ([] : List α) = [] := by
  simp [leftAfter]

/-- The next of the entries that are left is the one with the number of those used up, or the
last. -/
theorem next?_leftAfter (n : Nat) (entries : List α) :
    next? (leftAfter n entries) =
      (entries[min n (entries.length - 1)]?).map fun a => (a, leftAfter (n + 1) entries) := by
  cases entries with
  | nil => simp [leftAfter, next?]
  | cons first more =>
    have hlt : min n ((first :: more).length - 1) < (first :: more).length := by
      simp only [List.length_cons]
      omega
    rw [leftAfter, List.drop_eq_getElem_cons hlt, List.getElem?_eq_getElem hlt, Option.map_some]
    by_cases hlast : n + 1 < (first :: more).length
    · have hn : min n ((first :: more).length - 1) = n := by omega
      have hsucc : min (n + 1) ((first :: more).length - 1) = n + 1 := by omega
      rw [leftAfter, hsucc]
      simp only [hn]
      rw [List.drop_eq_getElem_cons hlast]
      rfl
    · have hn : min n ((first :: more).length - 1) = (first :: more).length - 1 := by omega
      have hsucc : min (n + 1) ((first :: more).length - 1) = (first :: more).length - 1 := by omega
      -- nothing comes after the last entry, which stays
      have hnone : (first :: more).drop ((first :: more).length - 1 + 1) = [] := by simp
      rw [leftAfter, hsucc]
      simp only [hn, hnone]
      rw [List.drop_eq_getElem_cons (by simp), hnone]
      rfl

/-- The answer with a number, and what is left of the script. -/
theorem respond_script (name : String) (responses : List Response) (delay n : Nat) (r : Request) :
    (script name (leftAfter n responses) delay).respond r =
      (scripted name responses n, script name (leftAfter (n + 1) responses) delay) := by
  rw [respond, next?_leftAfter, scripted]
  cases h : responses[min n (responses.length - 1)]? with
  | some response => rfl
  | none =>
    have hempty : responses = [] := by
      have hlen := List.getElem?_eq_none_iff.1 h
      exact List.length_eq_zero_iff.1 (by omega)
    subst hempty
    rw [leftAfter_nil, leftAfter_nil]
    rfl

end Work

/-! ### Moments -/

/-- What happens at an executor. Its calls are numbered from 0 in the order in which they begin. -/
inductive Moment where
  /-- It is taken on. -/
  | takenOn (work : Work)
  /-- A call begins. -/
  | begun (r : Request)
  /-- A call is answered. -/
  | answered (call : Nat) (response : Response)
  /-- A call is cancelled. -/
  | cancelled (call : Nat)

namespace Moment

/-- The inputs of a call that begins. -/
def inputs? : Moment → Option Bindings
  | begun r => some r.inputs
  | _ => none

/-- The answer to a call. -/
def response? : Moment → Option Response
  | answered _ response => some response
  | _ => none

/-- The number of a call that comes to its end. -/
def ended? : Moment → Option Nat
  | answered call _ | cancelled call => some call
  | _ => none

/-- The end of a call, by what it brought: one that ran out of time or was dropped is cancelled. -/
def ending (call : Nat) : Option Attempt → Moment
  | some (.answered response) => answered call response
  | some .overran | none => cancelled call

/-- The inputs of the calls that began, in the order in which they began. -/
def inputsIn (log : List Moment) : List Bindings :=
  log.filterMap inputs?

/-- The answers to calls, in the order in which they were given. -/
def answersIn (log : List Moment) : List Response :=
  log.filterMap response?

/-- The calls that came to their ends, in this order. -/
def endedIn (log : List Moment) : List Nat :=
  log.filterMap ended?

variable (log more : List Moment) (m : Moment)

@[simp] theorem inputsIn_concat : inputsIn (log ++ [m]) = inputsIn log ++ m.inputs?.toList := by
  cases h : m.inputs? <;> simp [inputsIn, List.filterMap_append, h]

@[simp] theorem answersIn_concat :
    answersIn (log ++ [m]) = answersIn log ++ m.response?.toList := by
  cases h : m.response? <;> simp [answersIn, List.filterMap_append, h]

@[simp] theorem endedIn_concat : endedIn (log ++ [m]) = endedIn log ++ m.ended?.toList := by
  cases h : m.ended? <;> simp [endedIn, List.filterMap_append, h]

end Moment

/-! ### Posts -/

/-- An executor with its calls. -/
structure Post where
  /-- What the executor does from now on. -/
  work : Work
  /-- What went into its calls, in the order in which they began. -/
  received : List Bindings
  /-- The calls under way, by number. -/
  underWay : List (Nat × Request)

namespace Post

/-- An executor that has just been taken on. -/
def fresh (work : Work) : Post :=
  ⟨work, [], []⟩

/-- One thing happens at an executor, or at a place where there is none yet. -/
inductive Happens : Option Post → Moment → Option Post → Prop
  | takenOn (work : Work) : Happens none (.takenOn work) (some (fresh work))
  | begun (p : Post) (r : Request) :
    Happens (some p) (.begun r) (some { p with
      received := p.received ++ [r.inputs]
      underWay := p.underWay ++ [(p.received.length, r)] })
  | answered {p : Post} {before after : List (Nat × Request)} {call : Nat} {r : Request}
      (h : p.underWay = before ++ (call, r) :: after) :
    Happens (some p) (.answered call (p.work.respond r).1)
      (some { p with work := (p.work.respond r).2, underWay := before ++ after })
  | cancelled {p : Post} {before after : List (Nat × Request)} {call : Nat} {r : Request}
      (h : p.underWay = before ++ (call, r) :: after) :
    Happens (some p) (.cancelled call) (some { p with underWay := before ++ after })

/-- Things happen at an executor, one after another. -/
inductive History : Option Post → List Moment → Option Post → Prop
  | done (p : Option Post) : History p [] p
  | step {p p' p'' : Option Post} {m : Moment} {log : List Moment} (hfirst : Happens p m p')
      (h : History p' log p'') : History p (m :: log) p''

/-- What a script has come to at an executor that was taken on with it: each answer is the entry of
its number, and what is left of the script is settled by how many answers were given; the inputs of
all calls were received in the order in which the calls began; and each of these calls has come to
its end once, or is under way. -/
structure Replayed (name : String) (responses : List Response) (delay : Nat) (log : List Moment)
    (p : Post) : Prop where
  /-- The answers are the entries of the script, in order. -/
  answers : Moment.answersIn log =
    (List.range (Moment.answersIn log).length).map (Work.scripted name responses)
  /-- Answers alone use the script up. -/
  work : p.work =
    .script name (Work.leftAfter (Moment.answersIn log).length responses) delay
  /-- The inputs are those of the calls that began. -/
  received : p.received = Moment.inputsIn log
  /-- Every call that began has come to its end once, or is under way. -/
  calls : (Moment.endedIn log ++ p.underWay.map Prod.fst).Perm (List.range p.received.length)

theorem Happens.history {p p' : Option Post} {m : Moment} (h : Happens p m p') : History p [m] p' :=
  .step h (.done p')

theorem History.append {p p' p'' : Option Post} {log more : List Moment} (h : History p log p')
    (hmore : History p' more p'') : History p (log ++ more) p'' := by
  induction h with
  | done => exact hmore
  | step hfirst _ ih => exact .step hfirst (ih hmore)

/-- An executor that is there stays there. -/
theorem History.exists_of_some {p : Post} {p' : Option Post} {log : List Moment}
    (h : History (some p) log p') : ∃ e, p' = some e := by
  generalize hp : some p = op at h
  induction h generalizing p with
  | done => exact ⟨p, hp.symm⟩
  | step hfirst _ ih =>
    subst hp
    cases hfirst <;> exact ih rfl

/-- The first thing that happens where nobody was is that somebody is taken on. -/
theorem History.exists_of_none {p : Post} {log : List Moment} (h : History none log (some p)) :
    ∃ work rest, log = .takenOn work :: rest ∧ History (some (fresh work)) rest (some p) := by
  cases h with
  | step hfirst h =>
    cases hfirst with
    | takenOn work => exact ⟨work, _, rfl, h⟩

/-! ### Scripts at posts -/

section Replay

variable {name : String} {responses : List Response} {delay : Nat} {log : List Moment} {p p' : Post}
  {m : Moment}

/-- An executor that was just taken on has its whole script before it. -/
theorem replayed_fresh :
    Replayed name responses delay [] (fresh (.script name responses delay)) where
  answers := rfl
  work := by rw [Moment.answersIn, List.filterMap_nil, List.length_nil, Work.leftAfter_zero, fresh]
  received := rfl
  calls := .refl _

/-- A call that comes to its end is no longer under way. -/
theorem perm_ended (ended : List Nat) {before after : List (Nat × Request)} {call : Nat}
    {r : Request} (h : p.underWay = before ++ (call, r) :: after) :
    (ended ++ [call] ++ (before ++ after).map Prod.fst).Perm
      (ended ++ p.underWay.map Prod.fst) := by
  have hmiddle : (call :: (before.map Prod.fst ++ after.map Prod.fst)).Perm
      (before.map Prod.fst ++ call :: after.map Prod.fst) := List.perm_middle.symm
  rw [h, List.map_append, List.map_append, List.append_assoc]
  exact hmiddle.append_left ended

/-- Whatever happens at an executor, its script is replayed. -/
theorem Replayed.happens (h : Replayed name responses delay log p)
    (hlast : Happens (some p) m (some p')) : Replayed name responses delay (log ++ [m]) p' := by
  cases hlast with
  | begun p r =>
    refine ⟨?_, ?_, ?_, ?_⟩
    · simpa [Moment.response?] using h.answers
    · simpa [Moment.response?] using h.work
    · simp [Moment.inputs?, h.received]
    · rw [Moment.endedIn_concat, List.length_append, List.length_singleton, List.range_succ,
        List.map_append, ← List.append_assoc]
      simpa [Moment.ended?] using h.calls.append_right [p.received.length]
  | answered hcall =>
    rename_i before after call r
    have hrespond := Work.respond_script name responses delay (Moment.answersIn log).length r
    rw [← h.work] at hrespond
    refine ⟨?_, ?_, ?_, ?_⟩
    · rw [Moment.answersIn_concat, hrespond, Moment.response?, Option.toList_some,
        List.length_append, List.length_singleton, List.range_succ, List.map_append, ← h.answers]
      rfl
    · rw [hrespond, Moment.answersIn_concat]
      simp [Moment.response?]
    · simpa [Moment.inputs?] using h.received
    · rw [Moment.endedIn_concat]
      exact (perm_ended _ hcall).trans h.calls
  | cancelled hcall =>
    refine ⟨?_, ?_, ?_, ?_⟩
    · simpa [Moment.response?] using h.answers
    · simpa [Moment.response?] using h.work
    · simpa [Moment.inputs?] using h.received
    · rw [Moment.endedIn_concat]
      exact (perm_ended _ hcall).trans h.calls

/-- However calls overlap, and whichever of them are cancelled, a script is replayed. -/
theorem Replayed.history {more : List Moment} (h : Replayed name responses delay log p)
    (hhistory : History (some p) more (some p')) :
    Replayed name responses delay (log ++ more) p' := by
  generalize hp : some p = op at hhistory
  generalize hp' : some p' = op' at hhistory
  induction hhistory generalizing p log with
  | done =>
    obtain rfl := Option.some.inj (hp.trans hp'.symm)
    rwa [List.append_nil]
  | @step _ _ _ m rest hfirst _ ih =>
    subst hp
    obtain ⟨e, rfl⟩ := hfirst.history.exists_of_some
    rw [List.append_cons]
    exact ih (h.happens hfirst) rfl hp'

/-- A script is replayed from when an executor is taken on with it. -/
theorem History.replayed
    (h : History none (.takenOn (.script name responses delay) :: log) (some p)) :
    Replayed name responses delay log p := by
  obtain ⟨work, rest, hlog, hrest⟩ := h.exists_of_none
  obtain ⟨htaken, rfl⟩ := List.cons.inj hlog
  obtain rfl := Moment.takenOn.inj htaken
  exact replayed_fresh.history hrest

end Replay

end Post

end Foreman
