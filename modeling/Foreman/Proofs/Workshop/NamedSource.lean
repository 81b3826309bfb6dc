import Foreman.Proofs.Definition.ReadBack
import Foreman.Proofs.Workshop.DataFlow
/-!
# Inputs that are taken from a step of a name

The name of an input is divided at its first dot: what stands before it is the name of a step. So a
step can only be asked by its name if there is no dot in the name. Such a step hands on the latest
value that it has put out. Of a step with a dot in its name nothing is handed on: a step that is
called like the part before the dot is asked instead, under a longer key, and under the key that is
meant stands whatever the run was given at the outset.

## Main results

* `Foreman.Overlaid.of_single`: what goes into a step that declares a single input.
* `Foreman.Workshop.named_step_hands_on`: what a step is handed that asks for the output of another.
* `Foreman.Workshop.dotted_step_overlooked`: a step with a dot in its name is not asked.
-/

namespace Foreman

variable {step : Option String} {key : String} {value : Json} {earlier : List StepRecord}
  {base result : Bindings} {field : Field}

/-- If a step has put out something under a key, then one such step has put out the latest. -/
theorem exists_putOut {u : StepRecord} (hu : u ∈ earlier) (hstep : u.IsOf step)
    (hkey : u.outputs.get? key ≠ none) : ∃ value, PutOut step key earlier value := by
  by_contra hnone
  have hshown := findSome?_eq_none_iff_putOut.2 (not_exists.1 hnone)
  rw [List.findSome?_eq_none_iff] at hshown
  exact hkey (StepRecord.shown?_eq_none_iff.1 (hshown u (List.mem_reverse.2 hu)) hstep)

/-- If a single input is declared, what is put out goes in under its key, and all else is as it
was. -/
theorem Overlaid.of_single (h : Overlaid earlier base [field] result)
    (hfrom : TakenFrom field.name step key) :
    (∀ value, PutOut step key earlier value → result.get? key = some value) ∧
      ∀ key' ≠ key, result.get? key' = base.get? key' := by
  cases h with
  | found hfrom' hvalue hrest =>
    obtain ⟨rfl, rfl⟩ := hfrom.unique hfrom'
    cases hrest
    exact ⟨fun value hvalue' => by simp [hvalue.unique hvalue'],
      fun key' hne => Table.get?_insert_of_ne _ _ hne⟩
  | missing hfrom' hnone hrest =>
    obtain ⟨rfl, rfl⟩ := hfrom.unique hfrom'
    cases hrest
    exact ⟨fun value hvalue => absurd hvalue (hnone value), fun _ _ => rfl⟩

theorem ne_append_dot (r key : String) : key ≠ r ++ "." ++ key := by
  intro h
  have hlength := congrArg String.length h
  simp only [String.length_append] at hlength
  have hdot : ".".length = 1 := rfl
  omega

namespace Workshop

/-- What went into the steps of a run, from the first one on. -/
theorem carryOut_flows (attendant : Attendant) (playbook : Playbook) (input : Bindings)
    (w : Workshop) :
    Flows input [] playbook.steps (carryOut attendant playbook input w).1.steps
      (carryOutWatched attendant playbook input w).1 := by
  obtain ⟨records, hrecords, hflows⟩ := runStepsWatched_flows attendant
    (w.beginRun playbook input).1 playbook.steps (w.beginRun playbook input).2
    fun t ht => absurd ht List.not_mem_nil
  have hsteps : (carryOut attendant playbook input w).1.steps = records := by
    rw [← carryOutWatched_snd]
    exact hrecords
  exact hsteps ▸ hflows

/-- What a step is handed whose only declared input has a name with a dot.

If there is no dot in the name of the step that is asked, then the latest value that such a step has
put out is handed on, in a run of any playbook with any input and whoever attends to executors.

If there is one, then the first dot divides the name. The step is handed nothing under the key but
what the run was given. It is handed what a step has put out that is called like the part before the
first dot, under all that follows the dot. -/
theorem named_step_hands_on (attendant : Attendant) (playbook : Playbook) (input : Bindings)
    (w : Workshop) {k : ℕ} {xs : List (Engine.Exchange ℕ)} {s : Step} {p : String}
    (hworked : (carryOutWatched attendant playbook input w).1[k]? = some (some xs))
    (hstep : playbook.steps[k]? = some s) (honly : s.inputs = [field])
    (hname : field.name = p ++ "." ++ key) :
    ∃ t, (carryOut attendant playbook input w).1.steps[k]? = some t ∧
      (∀ x ∈ xs, x.request.inputs = t.inputs) ∧
      let earlier := (carryOut attendant playbook input w).1.steps.take k
      ('.' ∉ p.toList → ∀ u ∈ earlier, u.name = p → u.outputs.get? key ≠ none →
        ∃ value, PutOut (some p) key earlier value ∧ t.inputs.get? key = some value) ∧
      ∀ q r, '.' ∉ q.toList → p = q ++ "." ++ r →
        t.inputs.get? key = input.get? key ∧
        ∀ u ∈ earlier, u.name = q → u.outputs.get? (r ++ "." ++ key) ≠ none →
          ∃ value, PutOut (some q) (r ++ "." ++ key) earlier value ∧
            t.inputs.get? (r ++ "." ++ key) = some value := by
  obtain ⟨s', t, hs', ht, hfed⟩ := (carryOut_flows attendant playbook input w).fed hworked
  obtain rfl : s' = s := Option.some.inj (hs'.symm.trans hstep)
  have hinputs := honly ▸ hfed.inputs
  refine ⟨t, ht, fun x hx => (hfed.requests x hx).2.2, fun hplain u hu hnamed hkey => ?_,
    fun q r hplain hdotted => ?_⟩
  · have hfrom : TakenFrom field.name (some p) key := hname ▸ .ofStep hplain
    obtain ⟨value, hvalue⟩ := exists_putOut hu (fun _ hp => hnamed.trans (Option.some.inj hp)) hkey
    exact ⟨value, hvalue, (hinputs.of_single hfrom).1 value hvalue⟩
  · have hdivided : field.name = q ++ "." ++ (r ++ "." ++ key) := by
      rw [hname, hdotted]
      simp only [String.append_assoc]
    have hfrom : TakenFrom field.name (some q) (r ++ "." ++ key) := hdivided ▸ .ofStep hplain
    refine ⟨(hinputs.of_single hfrom).2 key (ne_append_dot r key), fun u hu hnamed hkey => ?_⟩
    obtain ⟨value, hvalue⟩ := exists_putOut hu (fun _ hq => hnamed.trans (Option.some.inj hq)) hkey
    exact ⟨value, hvalue, (hinputs.of_single hfrom).1 value hvalue⟩

/-- Dough is proved and baked. The step that bakes asks for how long it was proved. -/
def rolls (proving : String) : Playbook where
  name := "rolls"
  steps :=
    [{ name := proving, method := "wait" },
      { name := "bake"
        method := "heat"
        inputs := [.mk (proving ++ ".hours") "" "" true []] }]

/-- Whatever the step is called, the playbook can be read. -/
theorem read_rolls (proving : String) :
    Playbook.read (rolls proving).json.document = .ok (rolls proving) := by
  refine Playbook.read_json fun s hs => Step.read_json fun r hr => ?_
  rcases List.mem_pair.1 hs with rfl | rfl <;> exact absurd hr List.not_mem_nil

/-- A baker who proves the dough for five hours, and bakes. -/
def rollBaker : WorkerSpec Command where
  work := .script "baker"
    [.ok (.succeeded (.ofList [("hours", .int 5)])), .ok (.succeeded (.ofList []))] 0
  interludes := []

/-- A workshop with this baker. -/
def rollBakery : Workshop :=
  seat (new {} (.shelf .empty) .own) .algorithmic rollBaker "baker"

/-- The run of the rolls, for which an hour is set aside at the outset. -/
def rollRun (proving : String) : RunRecord :=
  (carryOut (replies (perform 0)) (rolls proving) (.ofList [("hours", .int 1)]) rollBakery).1

/-- The dough that is proved in a step without a dot in its name is proved for five hours. For the
other one the hour stays that was set aside. -/
theorem named_step_hands_on_rolls :
    (∃ t, (rollRun "prove").steps[1]? = some t ∧ t.inputs.get? "hours" = some (.int 5)) ∧
    ∃ t, (rollRun "dough.prove").steps[1]? = some t ∧ t.inputs.get? "hours" = some (.int 1) := by
  have hworked (proving : String) : ∃ xs, (carryOutWatched (replies (perform 0)) (rolls proving)
      (.ofList [("hours", .int 1)]) rollBakery).1[1]? = some (some xs) := ⟨_, rfl⟩
  constructor
  · obtain ⟨xs, hxs⟩ := hworked "prove"
    have hname : "prove" ++ ".hours" = "prove" ++ "." ++ "hours" := by decide
    obtain ⟨t, ht, -, hplain, -⟩ := named_step_hands_on _ _ _ _ hxs rfl rfl hname
    obtain ⟨u, hu, hnamed, hhours⟩ : ∃ u, (rollRun "prove").steps.take 1 = [u] ∧
        u.name = "prove" ∧ u.outputs.get? "hours" = some (.int 5) := ⟨_, rfl, rfl, rfl⟩
    have hlatest : PutOut (some "prove") "hours" ((rollRun "prove").steps.take 1) (.int 5) := by
      rw [hu, ← findSome?_eq_some_iff_putOut]
      simp [StepRecord.shown?, hnamed, hhours]
    obtain ⟨value, hvalue, hgot⟩ := hplain (by decide) u (hu ▸ List.mem_singleton_self u) hnamed
      (by simp [hhours])
    exact ⟨t, ht, hgot.trans (congrArg some (hvalue.unique hlatest))⟩
  · obtain ⟨xs, hxs⟩ := hworked "dough.prove"
    have hname : "dough.prove" ++ ".hours" = "dough.prove" ++ "." ++ "hours" := by decide
    obtain ⟨t, ht, -, -, hdotted⟩ := named_step_hands_on _ _ _ _ hxs rfl rfl hname
    exact ⟨t, ht, (hdotted "dough" "prove" (by decide) (by decide)).1⟩

/-- A step with a dot in its name is not asked. The playbook is one that can be read, the step is
done and has put out the hours, and another one declares just these as its input. -/
theorem dotted_step_overlooked :
    Playbook.read (rolls "dough.prove").json.document = .ok (rolls "dough.prove") ∧
    ((rolls "dough.prove").steps[1]?).map (fun s => s.inputs.map Field.name) =
      some ["dough.prove.hours"] ∧
    ∃ u t, (rollRun "dough.prove").steps = [u, t] ∧
      u.name = "dough.prove" ∧ u.status = .completed ∧ u.outputs.get? "hours" = some (.int 5) ∧
      t.status = .completed ∧ t.inputs.get? "hours" = some (.int 1) :=
  ⟨read_rolls _, rfl, _, _, rfl, rfl, rfl, rfl, rfl, rfl⟩

end Workshop

end Foreman
