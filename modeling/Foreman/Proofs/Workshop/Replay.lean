import Foreman.Proofs.Workshop.CallLog
/-!
# Scripts are replayed

An executor that follows a script is called by steps, by the attempts that are made for a step, and
by commands that executors give in the course of calls. Some of the calls are cancelled while the
executor waits, because the attempt runs out of time or is dropped itself with a call in whose
course it was made. The others are answered with the entries of the script, one after another in the
order in which they are answered, and then with the last entry again and again. A cancelled call is
counted, and its inputs are put down, but it uses nothing up.

## Main results

* `Foreman.Workshop.callWorker_of_quiet`: when an attempt runs out of time, and when it is dropped.
* `Foreman.Workshop.scripts_are_replayed`: what a script comes to, where calls overlap as they may,
  and in a session.
-/

namespace Foreman.Workshop

open Moment (inputsIn answersIn)

/-- What happens at executors in the course of the commands of a session. -/
def sessionLog (levels : Nat) (commands : List Command) (w : Workshop) : CallLog :=
  repliesLog (perform levels) (performLog levels) commands w

section Waiting

variable {attendant : Attendant} {limit : Option Nat} {place : Nat} {r : Request} {w : Workshop}
  {worker : Worker}

/-- An executor that asks for nothing gets to its answer unless there is a deadline before that. -/
theorem labour_of_quiet (hasks : worker.interludes[worker.begun]? = none) :
    (labour attendant place worker r w).1 = true ↔
      ∀ d ∈ w.deadline, w.clock + worker.work.delay ≤ d := by
  have hclock : ((w.modifyWorker place fun v => { v with begun := v.begun + 1 }).receive place
      r.inputs).clock = w.clock := rfl
  have hdeadline : ((w.modifyWorker place fun v => { v with begun := v.begun + 1 }).receive place
      r.inputs).deadline = w.deadline := rfl
  simp only [labour, beginCall, hasks, hclock, hdeadline]
  cases w.deadline with
  | none => simp
  | some d =>
    by_cases hlate : d < w.clock + worker.work.delay
    · simp [hlate]
    · simp [hlate, Nat.le_of_not_lt hlate]

/-- An attempt with an executor that asks for nothing runs out of time if the executor waits for
longer than there is time, unless the time of a call in whose course it is made is up before. In
that case it is dropped. -/
theorem callWorker_of_quiet (hworker : w.workers[place]? = some worker)
    (hasks : worker.interludes[worker.begun]? = none) :
    ((callWorker attendant limit place r w).1 = some .overran ↔
      ∃ ms ∈ limit, ms < worker.work.delay ∧ ∀ d ∈ w.deadline, w.clock + ms ≤ d) ∧
    ((callWorker attendant limit place r w).1 = none ↔
      ∃ d ∈ w.deadline, d < w.clock + worker.work.delay ∧ ∀ ms ∈ limit, d < w.clock + ms) := by
  have hquiet : (labour attendant place worker r (w.within limit)).1 = true ↔
    ∀ d ∈ (w.within limit).deadline, w.clock + worker.work.delay ≤ d := labour_of_quiet hasks
  rcases hlabour : labour attendant place worker r (w.within limit) with ⟨answers, v⟩
  rw [hlabour] at hquiet
  rw [callWorker_of_labour hworker hlabour]
  dsimp only [within] at hquiet
  -- of the two deadlines, the earlier one counts
  cases limit <;> cases hd : w.deadline <;> simp only [hd] at hquiet <;> cases answers <;>
    simp [apply_ite Prod.fst] at hquiet ⊢ <;> omega

end Waiting

/-- Scripts are replayed, however the calls of an executor overlap and whichever of them are
cancelled. In a session, an executor that was taken on in its course has gone through the moments of
the log, which ends with no call under way, and has counted the calls whose inputs it received. If
it follows a script, the script was replayed, and whoever asks for its calls is told the inputs of
all that began, in this order. A call before which the executor asks for nothing runs out of time if
the executor waits for longer than there is time, is dropped if the time of a call in whose course
it is made is up before that, and is answered otherwise. -/
theorem scripts_are_replayed :
    (∀ name responses delay log p,
      Post.History none (.takenOn (.script name responses delay) :: log) (some p) →
        Post.Replayed name responses delay log p) ∧
    (∀ levels commands w place worker, w.workers[place]? = none →
      (replies (perform levels) commands w).2.workers[place]? = some worker →
        ∃ work log, (sessionLog levels commands w).momentsAt place = .takenOn work :: log ∧
          Post.History none (.takenOn work :: log) (some ⟨worker.work, worker.received, []⟩) ∧
          worker.calls = worker.received.length ∧
          ∀ name responses delay, work = .script name responses delay →
            Post.Replayed name responses delay log ⟨worker.work, worker.received, []⟩ ∧
            ∀ label, (replies (perform levels) commands w).2.labels.get? label = some place →
              (replies (perform levels) commands w).2.callsOf label = some (inputsIn log)) ∧
    ∀ attendant limit place r w worker, w.workers[place]? = some worker →
      worker.interludes[worker.begun]? = none →
        ((callWorker attendant limit place r w).1 = some .overran ↔
          ∃ ms ∈ limit, ms < worker.work.delay ∧ ∀ d ∈ w.deadline, w.clock + ms ≤ d) ∧
        ((callWorker attendant limit place r w).1 = none ↔
          ∃ d ∈ w.deadline,
            d < w.clock + worker.work.delay ∧ ∀ ms ∈ limit, d < w.clock + ms) := by
  refine ⟨fun name responses delay log p h => h.replayed, fun levels commands w place worker hnobody
    hworker => ?_, fun attendant limit place r w worker => callWorker_of_quiet⟩
  have hbecomes := replies_becomes levels commands w
  generalize hafter : (replies (perform levels) commands w).2 = after at hworker hbecomes ⊢
  have hhistory := hbecomes.history place
  have hbalance := hbecomes.balance place
  rw [postAt, hnobody, postAt, hworker, Option.map_none, Option.map_some] at hhistory
  simp only [callsAt, receivedAt, hnobody, hworker, Option.map_some, Option.map_none,
    Option.getD_some, Option.getD_none, Nat.zero_add, Nat.add_zero] at hbalance
  obtain ⟨work, log, hlog, -⟩ := hhistory.exists_of_none
  rw [hlog] at hhistory
  refine ⟨work, log, hlog, hhistory, hbalance, ?_⟩
  rintro name responses delay rfl
  have hreplayed := hhistory.replayed
  refine ⟨hreplayed, fun label hlabel => ?_⟩
  have hscript : worker.work = .script name _ delay := hreplayed.work
  rw [callsOf, hlabel, Option.bind_some, hworker]
  simp only [hscript, ← hreplayed.received]

/-- So many loaves were baked. -/
def loaves (n : Int) : Response :=
  .ok (.succeeded (.ofList [("loaves", .int n)]))

/-- An oven that takes longer than an attempt is given. In the course of its fourth call it is asked
to bake once more. -/
def oven : WorkerSpec Command where
  work := .script "oven" [loaves 1, loaves 2] 7
  interludes := [[], [], [], [.callWorker "oven" "warm" "heat" .empty]]

/-- A workshop in which attempts are given little time. -/
def hurried : Workshop :=
  new { policy := { Policy.standard with timeout := 5 } } (.shelf .empty) .own

/-- The oven is taken on, a step is tried with it, and then it is given all the time it needs. -/
def ovenDay : List Command :=
  [.seat .algorithmic oven "oven", .executeStep "bake" "heat" (.ofList [("hour", .int 1)]),
    .callWorker "oven" "bake" "heat" (.ofList [("hour", .int 2)])]

/-- Two calls of the oven overlap. The second is answered, the first is cancelled, and a third is
answered after them. -/
def ovenCalls : List Moment :=
  [.begun ⟨"bake", "heat", .empty, 0⟩, .begun ⟨"bake", "heat", .empty, 1⟩, .answered 1 (loaves 1),
    .cancelled 0, .begun ⟨"bake", "heat", .empty, 2⟩, .answered 2 (loaves 2)]

/-- Of two calls that overlap the one that is answered gets the first loaf, and the next call gets
the second. In a session all three attempts of the step are cancelled, the call in whose course
another comes about gets its loaves after that one, and five calls were counted. -/
theorem scripts_are_replayed_oven :
    (∃ p, Post.History none (.takenOn oven.work :: ovenCalls) (some p) ∧
      Post.Replayed "oven" [loaves 1, loaves 2] 7 ovenCalls p) ∧
    (hurried.workers[0]? = none ∧ ∃ worker log,
      (replies (perform 1) ovenDay hurried).2.workers[0]? = some worker ∧
        (sessionLog 1 ovenDay hurried).momentsAt 0 = .takenOn oven.work :: log ∧
        Post.Replayed "oven" [loaves 1, loaves 2] 7 log ⟨worker.work, worker.received, []⟩ ∧
        answersIn log = [loaves 1, loaves 2] ∧ worker.calls = 5) := by
  obtain ⟨hpost, hsession, -⟩ := scripts_are_replayed
  constructor
  · have hhistory : Post.History none (.takenOn oven.work :: ovenCalls) _ :=
      .step (.takenOn _) <| .step (.begun _ _) <| .step (.begun _ _) <|
      .step (@Post.Happens.answered _ [(0, ⟨"bake", "heat", .empty, 0⟩)] [] 1 _ rfl) <|
      .step (@Post.Happens.cancelled _ [] [] 0 _ rfl) <| .step (.begun _ _) <|
      .step (@Post.Happens.answered _ [] [] 2 _ rfl) <| .done _
    exact ⟨_, hhistory, hpost _ _ _ _ _ hhistory⟩
  · have hcounted : ((replies (perform 1) ovenDay hurried).2.workers[0]?).map Worker.calls =
        some 5 := by decide +kernel
    have hanswers : (answersIn ((sessionLog 1 ovenDay hurried).momentsAt 0)).length = 2 := by
      decide +kernel
    obtain ⟨worker, hworker, hcalls⟩ := Option.map_eq_some_iff.1 hcounted
    obtain ⟨work, log, hlog, -, -, hscript⟩ := hsession 1 ovenDay hurried 0 worker rfl hworker
    -- taking the oven on is the first thing that happens
    have hfirst : ((sessionLog 1 ovenDay hurried).momentsAt 0).head? =
        some (.takenOn oven.work) := rfl
    rw [hlog, List.head?_cons, Option.some.injEq, Moment.takenOn.injEq] at hfirst
    subst hfirst
    have hreplayed := (hscript _ _ _ rfl).1
    have hlength : (answersIn log).length = 2 := by
      rw [hlog] at hanswers
      exact hanswers
    refine ⟨rfl, worker, log, hworker, hlog, hreplayed, ?_, hcalls⟩
    rw [hreplayed.answers, hlength]
    rfl

end Foreman.Workshop
