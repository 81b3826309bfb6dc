import Foreman.Proofs.Workshop.Observation
/-!
# One thing after another

However deep executors ask for things in the course of a session, what happens is one thing after
another: a command is carried out in the course of which no executor is at work; a run begins, takes
a turn or returns; or nothing happens that matters. If only some commands are ever given, at
whatever depth, then only those are among what happens. So what they and the runs keep holds at all
times, and whatever is seen was answered while it held.

## Main definitions

* `Foreman.Command.Throughout`: a command is allowed, and so is all that is given within it.
* `Foreman.Workshop.Proceeds`: one thing happens in a workshop.
* `Foreman.Workshop.Heard`: an answer was given after some things happened.

## Main results

* `Foreman.Workshop.replies_proceed`: in the course of a session one thing happens after another,
  and whatever the replies show was heard.
-/

namespace Foreman

/-- A command is allowed, and so is every command that is given to an executor taken on by it, at
any depth. -/
inductive Command.Throughout (allowed : Command → Prop) : Command → Prop
  | mk {c : Command} (hc : allowed c)
      (hseat : ∀ strategy worker label, c = .seat strategy worker label →
        ∀ commands ∈ worker.interludes, ∀ d ∈ commands, Throughout allowed d) :
      Throughout allowed c

namespace Workshop

open Errand Relation

/-- One thing happens in a workshop where only some commands are given. Whose run takes a turn is
left open, so the runs under way may do so in any order. -/
inductive Proceeds (allowed : Command → Prop) : Workshop → Workshop → Prop
  | command {w} (attendant : Attendant) {c} (hc : allowed c) (hengages : engages c = false) :
      Proceeds allowed w (answer attendant c w).2
  | begin {w} (playbook : Playbook) (input : Bindings) :
      Proceeds allowed w (w.beginRun playbook input).2
  | turn {e e' : Errand} {w w' deeds} (hturn : e.Turn w deeds e' w') : Proceeds allowed w w'
  | leave {e : Errand} {w w' deeds run failure} (hreturns : e.Returns w deeds run failure w') :
      Proceeds allowed w w'
  | idle {w w'} (hidle : Idle w w') : Proceeds allowed w w'
  | tell {w} (interludes : List (Interlude Reply)) : Proceeds allowed w { w with interludes }

/-- An answer was given, to a command that was allowed, after some things had happened. -/
def Heard (allowed : Command → Prop) (w₀ : Workshop) (a : Answer) : Prop :=
  ∃ attendant c v, ReflTransGen (Proceeds allowed) w₀ v ∧ c.Throughout allowed ∧
    (answer attendant c v).1 = some a

/-- Executors ask for nothing but what is allowed. -/
def Heeds (allowed : Command → Prop) (w : Workshop) : Prop :=
  ∀ commands, w.MayAsk commands → ∀ c ∈ commands, c.Throughout allowed

variable {allowed : Command → Prop} {w₀ w w' : Workshop} {attendant : Attendant} {a : Answer}

theorem Heeds.congr (h : Heeds allowed w) (hscripts : w'.scripts = w.scripts) :
    Heeds allowed w' :=
  fun commands hasks => h commands (hasks.congr hscripts.symm)

/-- An executor that is taken on asks for what is allowed, if that was allowed. -/
theorem Heeds.seat (h : Heeds allowed w) {strategy : Strategy} {worker : WorkerSpec Command}
    {label : String} (hc : (Command.seat strategy worker label).Throughout allowed) :
    Heeds allowed (w.seat strategy worker label) := by
  obtain ⟨-, hworker⟩ := hc
  rintro commands ⟨script, hscript, hcommands⟩
  have hscripts : (w.seat strategy worker label).scripts = w.scripts ++ [worker.interludes] := by
    simp [scripts, Workshop.seat]
  rw [hscripts, List.mem_append, List.mem_singleton] at hscript
  rcases hscript with hscript | rfl
  · exact h commands ⟨script, hscript, hcommands⟩
  · exact hworker strategy worker label rfl commands hcommands

/-- Only allowed things have happened, executors ask for nothing else, and all that they were told
since the command under way began was heard. -/
structure Orderly (allowed : Command → Prop) (w₀ w : Workshop) : Prop where
  /-- Only allowed things have happened. -/
  reached : ReflTransGen (Proceeds allowed) w₀ w
  /-- Executors ask for nothing else. -/
  heeds : Heeds allowed w
  /-- What executors were told was heard. -/
  heard : ∀ i ∈ w.interludes, ∀ r ∈ i.replies, ∀ a, r.Shows a → Heard allowed w₀ a

theorem Orderly.next (h : Orderly allowed w₀ w) (hnext : Proceeds allowed w w')
    (hscripts : w'.scripts = w.scripts) (hinterludes : w'.interludes = w.interludes) :
    Orderly allowed w₀ w' :=
  ⟨h.reached.tail hnext, h.heeds.congr hscripts, hinterludes ▸ h.heard⟩

theorem Orderly.idle (h : Orderly allowed w₀ w) (hidle : Idle w w') : Orderly allowed w₀ w' :=
  h.next (.idle hidle) hidle.scripts hidle.interludes

theorem Orderly.tell (h : Orderly allowed w₀ w) {interludes : List (Interlude Reply)}
    (hheard : ∀ i ∈ interludes, ∀ r ∈ i.replies, ∀ a, r.Shows a → Heard allowed w₀ a) :
    Orderly allowed w₀ { w with interludes } :=
  ⟨h.reached.tail (.tell interludes), h.heeds.congr rfl, hheard⟩

/-- Whoever attends to executors that ask for what is allowed keeps things orderly, and whatever is
shown in the replies was heard. -/
structure Obliging (allowed : Command → Prop) (w₀ : Workshop) (attendant : Attendant) : Prop where
  /-- Things are kept orderly. -/
  orderly : ∀ commands v, (∀ c ∈ commands, c.Throughout allowed) → Orderly allowed w₀ v →
    Orderly allowed w₀ (attendant commands v).2
  /-- Whatever is shown in the replies was heard. -/
  heard : ∀ commands v, (∀ c ∈ commands, c.Throughout allowed) → Orderly allowed w₀ v →
    ∀ rs ∈ (attendant commands v).1, ∀ r ∈ rs, ∀ a, r.Shows a → Heard allowed w₀ a

theorem orderly_of_course {e₀ e : Errand}
    (hcourse : Course (fun _ v v' => Orderly allowed w₀ v → Orderly allowed w₀ v') e₀ w e w')
    (h : Orderly allowed w₀ w) : Orderly allowed w₀ w' := by
  induction hcourse with
  | start => exact h
  | turn _ hturn ih => exact ih.next (.turn hturn) hturn.sameCrew.scripts hturn.sameCrew.interludes
  | meanwhile _ hbesides ih => exact hbesides ih

section Attended

variable (hobliging : Obliging allowed w₀ attendant)

include hobliging

theorem attend_orderly (label : String) (call : ℕ) {commands : List Command}
    (hasks : w.MayAsk commands) (h : Orderly allowed w₀ w) :
    Orderly allowed w₀ (attend attendant label call commands w).2 := by
  have hcommands := h.heeds commands hasks
  have hdeeper : Orderly allowed w₀ { w with depth := w.depth + 1 } := h.idle (idle_depth _ w)
  have hattended := hobliging.orderly commands _ hcommands hdeeper
  have hheard := hobliging.heard commands _ hcommands hdeeper
  rcases hreplies : attendant commands { w with depth := w.depth + 1 } with ⟨_ | rs, v⟩ <;>
    rw [hreplies] at hattended hheard <;> simp only [attend, hreplies]
  · exact (hattended.idle (idle_depth w.depth _)).idle (idle_deadline w.deadline _)
  · refine ((hattended.idle (idle_depth w.depth _)).idle (idle_deadline w.deadline _)).tell
      fun i hi r hr a ha => ?_
    rcases List.mem_append.1 hi with hi | hi
    · exact hattended.heard i hi r hr a ha
    · obtain rfl := List.mem_singleton.1 hi
      exact hheard rs rfl r hr a ha

theorem executeStep_orderly (step method : String) (inputs : Bindings)
    (h : Orderly allowed w₀ w) :
    Orderly allowed w₀ (executeStep attendant step method inputs w).2 :=
  holds_of_reflTransGen (executeStep_reaches (fun _ _ hidle hv => hv.idle hidle)
    (fun label call _ _ hasks => attend_orderly hobliging label call hasks) step method inputs w) h

theorem callDirectly_orderly (label step method : String) (inputs : Bindings)
    (h : Orderly allowed w₀ w) :
    Orderly allowed w₀ (callDirectly attendant label step method inputs w).2 :=
  holds_of_reflTransGen (callDirectly_reaches (fun _ _ hidle hv => hv.idle hidle)
    (fun label call _ _ hasks => attend_orderly hobliging label call hasks) label step method
    inputs w) h

theorem executePlaybook_orderly (name : String) (input : Bindings) (h : Orderly allowed w₀ w) :
    Orderly allowed w₀ (executePlaybook attendant name input w).2 := by
  have hcall : Call (fun _ v v' => Orderly allowed w₀ v → Orderly allowed w₀ v') name input w
      (executePlaybook attendant name input w).1 (stepIds attendant name input w)
      (executePlaybook attendant name input w).2 :=
    call_of_course (fun _ _ _ hidle hv => hv.idle hidle)
      fun _ _ _ _ _ _ label call _ hcourse _ hasks =>
        hcourse.meanwhile (attend_orderly hobliging label call hasks)
  generalize executePlaybook attendant name input w = result at hcall ⊢
  generalize stepIds attendant name input w = ids at hcall
  obtain ⟨result, w'⟩ := result
  cases hcall with
  | closed hclosed => exact h
  | notFound hopen hload => exact h
  | @ran playbook _ _ _ _ _ _ hopen hload hcourse hends =>
    have hbegun := h.next (.begin playbook input) rfl rfl
    have hgone := orderly_of_course hcourse hbegun
    cases hends with
    | returned hreturns =>
      exact hgone.next (.leave hreturns) hreturns.sameCrew.scripts hreturns.sameCrew.interludes
    | dropped hwork => exact hgone

/-- A command that is allowed keeps things orderly. -/
theorem answer_orderly {c : Command} (hc : c.Throughout allowed) (h : Orderly allowed w₀ w) :
    Orderly allowed w₀ (answer attendant c w).2 := by
  have halone (hengages : engages c = false)
      (hseat : ∀ strategy worker label, c ≠ .seat strategy worker label) :
      Orderly allowed w₀ (answer attendant c w).2 := by
    have hcrew := answer_sameCrew attendant c w hengages hseat
    obtain ⟨hallowed, -⟩ := hc
    exact h.next (.command attendant hallowed hengages) hcrew.scripts hcrew.interludes
  cases c with
  | executeStep step method inputs =>
    rw [answer, orDropped_snd]
    exact executeStep_orderly hobliging step method inputs h
  | callWorker label step method inputs =>
    have hcalled := callDirectly_orderly hobliging label step method inputs h
    unfold answer
    dsimp only
    split <;> (next heq => rw [heq] at hcalled; exact hcalled)
  | executePlaybook name input =>
    rw [answer, orDropped_snd]
    exact executePlaybook_orderly hobliging name input h
  | seat strategy worker label =>
    have hallowed : allowed (.seat strategy worker label) := by
      obtain ⟨hallowed, -⟩ := hc
      exact hallowed
    exact ⟨h.reached.tail (.command attendant hallowed rfl), h.heeds.seat hc, h.heard⟩
  -- no executor is at work in the course of the other commands, and none is taken on
  | _ => exact halone rfl (by simp)

theorem reply_orderly {c : Command} (hc : c.Throughout allowed) (h : Orderly allowed w₀ w) :
    Orderly allowed w₀ (reply attendant c w).2 := by
  have hfresh : Orderly allowed w₀ { w with interludes := [] } :=
    h.tell fun i hi => absurd hi List.not_mem_nil
  exact (answer_orderly hobliging hc hfresh).tell h.heard

/-- Whatever the reply to an allowed command shows was heard. -/
theorem reply_heard {c : Command} (hc : c.Throughout allowed) (h : Orderly allowed w₀ w)
    {r : Reply} (hr : r ∈ (reply attendant c w).1) (hshows : r.Shows a) : Heard allowed w₀ a := by
  have hfresh : Orderly allowed w₀ { w with interludes := [] } :=
    h.tell fun i hi => absurd hi List.not_mem_nil
  have hanswered := answer_orderly hobliging hc hfresh
  obtain ⟨b, hb, rfl⟩ := Option.map_eq_some_iff.1 hr
  cases hshows with
  | here => exact ⟨attendant, c, _, hfresh.reached, hc, hb⟩
  | within hi hr hb => exact hanswered.heard _ hi _ hr _ hb

end Attended

/-- Commands that are carried out one after another, each in an orderly manner, are attended to. -/
theorem obliging_replies {one : Command → Workshop → Option Reply × Workshop}
    (horderly : ∀ c v, c.Throughout allowed → Orderly allowed w₀ v → Orderly allowed w₀ (one c v).2)
    (hheard : ∀ c v, c.Throughout allowed → Orderly allowed w₀ v → ∀ r ∈ (one c v).1, ∀ a,
      r.Shows a → Heard allowed w₀ a) : Obliging allowed w₀ (replies one) where
  orderly commands v hcommands hv := by
    induction commands generalizing v with
    | nil => exact hv
    | cons c rest ih =>
      obtain ⟨hc, hrest⟩ := List.forall_mem_cons.1 hcommands
      have hfirst := horderly c v hc hv
      rcases hone : one c v with ⟨_ | r, v'⟩ <;> rw [hone] at hfirst <;> simp only [replies, hone]
      · exact hfirst
      · exact ih v' hrest hfirst
  heard commands v hcommands hv := by
    induction commands generalizing v with
    | nil =>
      rintro _ ⟨⟩ r hr
      exact absurd hr List.not_mem_nil
    | cons c rest ih =>
      obtain ⟨hc, hrest⟩ := List.forall_mem_cons.1 hcommands
      intro rs hrs r hr a ha
      have hfirst := horderly c v hc hv
      have htold := hheard c v hc hv
      rcases hone : one c v with ⟨_ | r', v'⟩ <;> rw [hone] at hfirst htold <;>
        simp only [replies, hone] at hrs
      · cases hrs
      · obtain ⟨rs', hrs', rfl⟩ := Option.map_eq_some_iff.1 hrs
        rcases List.mem_cons.1 hr with rfl | hr
        · exact htold r rfl a ha
        · exact ih v' hrest hfirst rs' hrs' r hr a ha

/-- At every level, commands that are allowed are attended to. -/
theorem obliging_perform (allowed : Command → Prop) (w₀ : Workshop) (levels : ℕ) :
    Obliging allowed w₀ (replies (perform levels)) := by
  induction levels with
  | zero =>
    have hnobody : Obliging allowed w₀ fun _ w => (some [], w) := by
      refine ⟨fun _ _ _ hv => hv, ?_⟩
      rintro _ _ _ _ _ ⟨⟩ r hr
      exact absurd hr List.not_mem_nil
    exact obliging_replies (fun _ _ hc hv => reply_orderly hnobody hc hv)
      fun _ _ hc hv _ hr _ => reply_heard hnobody hc hv hr
  | succ levels ih =>
    exact obliging_replies (fun _ _ hc hv => reply_orderly ih hc hv)
      fun _ _ hc hv _ hr _ => reply_heard ih hc hv hr

/-- In the course of commands that are allowed only allowed things happen, one after another, and
whatever the replies show, at whatever depth, was answered in between. -/
theorem replies_proceed (hw : Heeds allowed w) (hnone : w.interludes = []) (levels : ℕ)
    {commands : List Command} (hcommands : ∀ c ∈ commands, c.Throughout allowed) :
    ReflTransGen (Proceeds allowed) w (replies (perform levels) commands w).2 ∧
      ∀ rs ∈ (replies (perform levels) commands w).1, ∀ r ∈ rs, ∀ a, r.Shows a →
        Heard allowed w a := by
  have hstart : Orderly allowed w w :=
    ⟨.refl, hw, fun i hi => absurd (hnone ▸ hi) List.not_mem_nil⟩
  have hobliging := obliging_perform allowed w levels
  exact ⟨(hobliging.orderly commands w hcommands hstart).reached,
    hobliging.heard commands w hcommands hstart⟩

end Workshop

end Foreman
