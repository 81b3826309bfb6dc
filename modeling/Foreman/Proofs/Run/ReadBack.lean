import Foreman.Proofs.Definition.ReadBack
import Foreman.Proofs.Time.Timestamp
import Foreman.Run.Record
/-!
# Reading back records of runs

The record of a run holds the records of its steps, what each of them asked for and was given, how
it got done and the trail that led there. What was read from an open value is read back from what is
written of it.

An entry of a trail is written together with its outcome, so each is read from an object in which
the members of the other stand as well. A strategy is written by its name, which is the name of that
strategy whatever text it was read from, and a point in time by the text of its day and time of day.

## Main definitions

* `Foreman.RunRecord.KeptFrom`: what went into a run and came out of its steps, as it was given.
* `Foreman.RunRecord.Writable`: everything in the record of a run can be written.

## Main results

* `Foreman.Outcome.read_ofTable`: an outcome is read from among other members.
* `Foreman.TrailEntry.readsBack`, `Foreman.StepResult.readsBack`, `Foreman.StepRecord.readsBack`,
  `Foreman.RunRecord.readsBack`: the records are read back.
* `Foreman.RunRecord.Writable.read_json`: so is every record that can be written.
* `Foreman.runRecord_read_back`: the record of a run is read back with all that it holds.
-/

namespace Foreman

namespace Strategy

theorem readsBack : Document.ReadsBack read json := fun _ h =>
  congrArg Except.ok (ofName_name_of_read h)

end Strategy

namespace Outcome

variable {buffered : Bool} {t : Table Json}

/-- The time of an attempt that took too long has 64 bits. -/
def Counted (o : Outcome) : Prop :=
  ∀ ms, o = .timedOut ms → Document.asCount64 (Json.int ms).document = .ok ms

theorem counted_of_read {d : Document} {o : Outcome} (hd : d.IsOpen)
    (h : read buffered d = .ok o) : o.Counted := by
  rintro ms rfl
  obtain ⟨⟨tag, rest⟩, huntag, h⟩ := Except.bind_eq_ok_iff.1 h
  obtain ⟨kind, -, h⟩ := Except.bind_eq_ok_iff.1 h
  have hrest := (hd.isOpen_untag huntag).2
  cases kind with
  | timedOut =>
    obtain ⟨form, hform, h⟩ := Except.bind_eq_ok_iff.1 h
    obtain ⟨n, hn, hms⟩ := Reading.map_eq_done_iff.1 (Form.done_of_close h)
    obtain rfl := Outcome.timedOut.inj hms
    have hback := (hrest.isOpen_form hform).need Document.readsBack_asCount64 hn
    exact hback
  | succeeded =>
    obtain ⟨_, -, h⟩ := Except.bind_eq_ok_iff.1 h
    exact nomatch h
  | failed =>
    obtain ⟨form, -, h⟩ := Except.bind_eq_ok_iff.1 h
    obtain ⟨_, -, h⟩ := Reading.map_eq_done_iff.1 (Form.done_of_close h)
    exact nomatch h
  | skipped =>
    obtain ⟨form, -, h⟩ := Except.bind_eq_ok_iff.1 h
    obtain ⟨_, -, h⟩ := Reading.map_eq_done_iff.1 (Form.done_of_close h)
    exact nomatch h

/-- An outcome is read from an object that has its members, whatever else it has. -/
theorem read_ofTable {o : Outcome} (ho : o.Counted) (h : t.Shows o.members) :
    read buffered (Json.ofTable t).document = .ok o := by
  cases o with
  | succeeded =>
    have htag : t.get? "outcome" = some (.text "succeeded") := h _ List.mem_cons_self
    rw [read, Document.untag_ofTable htag]
    rfl
  | failed reason =>
    obtain ⟨htag, hshows⟩ := List.forall_mem_cons.1 h
    have hreason : (t.erase "outcome").get? "reason" = some (.text reason) :=
      Table.Shows.erase hshows (by simp) _ List.mem_cons_self
    have hkind : Document.asTag kinds buffered (Json.text "failed").document = .ok .failed := rfl
    simp only [read, Document.untag_ofTable htag, Except.ok_bind, hkind, Form.of?_ofTable,
      Form.need_text hreason]
    rfl
  | timedOut ms =>
    obtain ⟨htag, hshows⟩ := List.forall_mem_cons.1 h
    have hafter : (t.erase "outcome").get? "after_ms" = some (.int ms) :=
      Table.Shows.erase hshows (by simp) _ List.mem_cons_self
    have hkind : Document.asTag kinds buffered (Json.text "timed_out").document = .ok .timedOut :=
      rfl
    simp only [read, Document.untag_ofTable htag, Except.ok_bind, hkind, Form.of?_ofTable,
      Form.need_ofTable hafter (ho ms rfl)]
    rfl
  | skipped reason =>
    obtain ⟨htag, hshows⟩ := List.forall_mem_cons.1 h
    have hreason : (t.erase "outcome").get? "reason" = some (.text reason) :=
      Table.Shows.erase hshows (by simp) _ List.mem_cons_self
    have hkind : Document.asTag kinds buffered (Json.text "skipped").document = .ok .skipped := rfl
    simp only [read, Document.untag_ofTable htag, Except.ok_bind, hkind, Form.of?_ofTable,
      Form.need_text hreason]
    rfl

end Outcome

namespace TrailEntry

variable {e : TrailEntry}

theorem nodup_members (e : TrailEntry) :
    ((e.members ++ [("at", some e.ended.json)]).map (·.1)).Nodup := by
  unfold members
  cases e.outcome <;> simp [Outcome.members]

/-- What an attempt came to stands among the members of its entry. -/
theorem exists_shows (e : TrailEntry) :
    ∃ t, e.json = .ofTable t ∧ t.Shows e.outcome.members :=
  ⟨_, rfl, (Table.shows_table e.nodup_members).left.right⟩

/-- What an entry says of its outcome stands among what it says itself. -/
theorem read_json (hstrategy : Strategy.read e.strategy.json.document = .ok e.strategy)
    (hattempt : Document.asCount32 (Json.int e.attempt).document = .ok e.attempt)
    (houtcome : e.outcome.Counted) (hended : Timestamp.read e.ended.json.document = .ok e.ended) :
    read e.json.document = .ok e := by
  refine Table.record_cases (P := fun v => read v.document = .ok e) e.nodup_members fun t h => ?_
  have hat : t.get? "at" = some e.ended.json := h.right _ List.mem_cons_self
  have hown := h.left.left
  simp only [Table.Shows, List.forall_mem_cons] at hown
  obtain ⟨htype, hnumber, -⟩ := hown
  -- no member of an outcome has the name of a field of the entry, so all are left over for it
  have hrest : (t.filter fun key _ => !shape.fields.contains key).Shows e.outcome.members :=
    h.left.right.filter (by cases e.outcome <;> simp [Outcome.members, shape])
  simp only [read, Form.named?_ofTable, Form.rest_ofTable, Json.aside_document, Except.ok_bind,
    Form.need_ofTable htype hstrategy, Form.need_ofTable hnumber hattempt,
    Form.need_ofTable hat hended, Outcome.read_ofTable houtcome hrest]
  rfl

/-- What the fields of an entry were read as, and its outcome from what is beside them. -/
theorem exists_form_of_read {d : Document} (h : read d = .ok e) :
    ∃ form rest, Form.named? shape d = .ok form ∧ form.rest.aside = .ok rest ∧
      form.need "execution_type" Strategy.read = .done e.strategy ∧
      form.need "attempt" Document.asCount32 = .done e.attempt ∧
      form.need "at" Timestamp.read = .done e.ended ∧ Outcome.read true rest = .ok e.outcome := by
  obtain ⟨form, hform, h⟩ := Except.bind_eq_ok_iff.1 h
  obtain ⟨rest, hrest, h⟩ := Except.bind_eq_ok_iff.1 h
  obtain ⟨entry, hentry, h⟩ := Except.bind_eq_ok_iff.1 h
  obtain ⟨outcome, houtcome, h⟩ := Except.bind_eq_ok_iff.1 h
  obtain rfl := Except.ok.inj h
  have hentry := Form.done_of_close hentry
  simp only [Reading.seq_eq_done_iff, Reading.map_eq_done_iff] at hentry
  obtain ⟨_, ⟨_, ⟨strategy, hstrategy, rfl⟩, attempt, hattempt, rfl⟩, ended, hended, rfl⟩ := hentry
  exact ⟨form, rest, hform, hrest, hstrategy, hattempt, hended, houtcome⟩

/-- An entry of a trail is read back. -/
theorem readsBack : Document.ReadsBack read json := by
  intro d e hd h
  obtain ⟨form, rest, hform, hrest, hstrategy, hattempt, hended, houtcome⟩ :=
    exists_form_of_read h
  obtain ⟨hopen, hrestOpen⟩ := hd.isOpen_named hform
  rw [hrestOpen.aside_eq] at hrest
  obtain rfl := Except.ok.inj hrest
  have hattempt := hopen.need Document.readsBack_asCount32 hattempt
  exact read_json (hopen.need Strategy.readsBack hstrategy) hattempt
    (Outcome.counted_of_read hrestOpen houtcome) (hopen.need Timestamp.readsBack hended)

/-- An entry of a trail can be written: its strategy is the one of its name, its numbers have the
sizes that they are read in, and a text can spell its time. -/
structure Writable (e : TrailEntry) : Prop where
  strategy : Strategy.ofName e.strategy.name = e.strategy
  attempt : e.attempt < 2 ^ 32
  timedOut : ∀ ms, e.outcome = .timedOut ms → ms < 2 ^ 64
  ended : e.ended.Spelled

theorem Writable.read_json (h : e.Writable) : read e.json.document = .ok e :=
  TrailEntry.read_json (congrArg Except.ok h.strategy) (Document.asCount_int h.attempt _)
    (fun ms hms => Document.asCount_int (h.timedOut ms hms) _) h.ended.read_json

end TrailEntry

namespace StepResult

variable {r : StepResult}

theorem json_ne_null (r : StepResult) : r.json ≠ .null := by
  simp [json, Json.record, Json.ofTable]

theorem read_json (hstrategy : Strategy.read r.strategy.json.document = .ok r.strategy)
    (houtputs : Document.asBindings (Json.ofTable r.outputs).document = .ok r.outputs)
    (htrail : ∀ e ∈ r.trail, TrailEntry.read e.json.document = .ok e)
    (hattempts : Document.asCount32 (Json.int r.attempts).document = .ok r.attempts)
    (hduration : Document.asCount64 (Json.int r.duration).document = .ok r.duration) :
    read r.json.document = .ok r := by
  refine Table.record_cases (P := fun v => read v.document = .ok r) (by simp) fun t h => ?_
  simp only [Table.Shows, List.forall_mem_cons] at h
  obtain ⟨htype, hout, hlogs, hlines, hnumber, hms, -⟩ := h
  simp only [read, Form.of?_ofTable, Except.ok_bind, Form.need_ofTable htype hstrategy,
    Form.need_ofTable hout houtputs, Form.need_list hlogs htrail, Form.need_texts hlines,
    Form.need_ofTable hnumber hattempts, Form.need_ofTable hms hduration]
  rfl

/-- What the fields of a result were read as, but for the lines of the executor. -/
theorem exists_form_of_read {d : Document} (h : read d = .ok r) :
    ∃ form, Form.of? shape false d = .ok form ∧
      form.need "execution_type" Strategy.read = .done r.strategy ∧
      form.need "outputs" Document.asBindings = .done r.outputs ∧
      form.need "logs" (Document.asList TrailEntry.read) = .done r.trail ∧
      form.need "attempts" Document.asCount32 = .done r.attempts ∧
      form.need "duration_ms" Document.asCount64 = .done r.duration := by
  obtain ⟨form, hform, h⟩ := Except.bind_eq_ok_iff.1 h
  have h := Form.done_of_close h
  simp only [Reading.seq_eq_done_iff, Reading.map_eq_done_iff] at h
  obtain ⟨_, ⟨_, ⟨_, ⟨_, ⟨_, ⟨strategy, hstrategy, rfl⟩, outputs, houtputs, rfl⟩, trail, htrail,
    rfl⟩, lines, -, rfl⟩, attempts, hattempts, rfl⟩, duration, hduration, rfl⟩ := h
  exact ⟨form, hform, hstrategy, houtputs, htrail, hattempts, hduration⟩

/-- The result of a step is read back. -/
theorem readsBack : Document.ReadsBack read json := by
  intro d r hd h
  obtain ⟨form, hform, hstrategy, houtputs, htrail, hattempts, hduration⟩ := exists_form_of_read h
  have hopen := hd.isOpen_form hform
  have hattempts := hopen.need Document.readsBack_asCount32 hattempts
  have hduration := hopen.need Document.readsBack_asCount64 hduration
  exact read_json (hopen.need Strategy.readsBack hstrategy)
    (hopen.need Document.readsBack_asBindings houtputs)
    (hopen.needList TrailEntry.readsBack htrail) hattempts hduration

/-- The result of a step can be written: its strategy is the one of its name, what came out are open
values, and its numbers have the sizes that they are read in. -/
structure Writable (r : StepResult) : Prop where
  strategy : Strategy.ofName r.strategy.name = r.strategy
  outputs : ∀ e ∈ r.outputs.entries, e.2.WellFormed
  trail : ∀ e ∈ r.trail, e.Writable
  attempts : r.attempts < 2 ^ 32
  duration : r.duration < 2 ^ 64

theorem Writable.read_json (h : r.Writable) : read r.json.document = .ok r :=
  StepResult.read_json (congrArg Except.ok h.strategy) (Document.asBindings_ofTable h.outputs)
    (fun e he => (h.trail e he).read_json) (Document.asCount_int h.attempts _)
    (Document.asCount_int h.duration _)

end StepResult

theorem PreferenceKind.read_json (k : PreferenceKind) : read k.json.document = .ok k := by
  cases k <;> rfl

theorem Assignment.read_json (a : Assignment) : read a.json.document = .ok a := by
  refine Table.record_cases (P := fun v => read v.document = .ok a) (by simp) fun t h => ?_
  simp only [Table.Shows, List.forall_mem_cons] at h
  obtain ⟨hrequirement, hinstance, hkind, hmatched, -⟩ := h
  simp only [read, Form.of?_ofTable, Except.ok_bind, Form.need_text hrequirement,
    Form.need_text hinstance, Form.need_text hkind,
    Form.need_ofTable hmatched a.matchedBy.read_json]
  rfl

theorem StepStatus.read_json (s : StepStatus) : read s.json.document = .ok s := by
  cases s <;> rfl

theorem RunStatus.read_json (s : RunStatus) : read s.json.document = .ok s := by
  cases s <;> rfl

namespace StepRecord

variable {s : StepRecord}

theorem read_json (hinputs : Document.asBindings (Json.ofTable s.inputs).document = .ok s.inputs)
    (houtputs : Document.asBindings (Json.ofTable s.outputs).document = .ok s.outputs)
    (hrequirements : ∀ r ∈ s.requirements, Requirement.read r.json.document = .ok r)
    (hresult : ∀ r ∈ s.result, StepResult.read r.json.document = .ok r)
    (hstarted : Timestamp.read s.started.json.document = .ok s.started)
    (hcompleted : ∀ t ∈ s.completed, Timestamp.read t.json.document = .ok t) :
    read s.json.document = .ok s := by
  refine Table.record_cases (P := fun v => read v.document = .ok s) (by simp [members])
    fun t h => ?_
  simp only [Table.Shows, members, List.cons_append, List.nil_append, List.forall_mem_cons] at h
  obtain ⟨hid, hname, hstatus, hin, hout, hneeds, hgiven, hwarnings, herrors, hhow, hbegan, hover,
    -⟩ := h
  simp only [read, Form.of?_ofTable, Except.ok_bind, Form.need_text hid, Form.need_text hname,
    Form.need_ofTable hstatus s.status.read_json, Form.need_ofTable hin hinputs,
    Form.need_ofTable hout houtputs, Form.need_list hneeds hrequirements,
    Form.need_list hgiven fun a _ => a.read_json, Form.need_texts hwarnings,
    Form.need_texts herrors, Form.maybe_ofTable hhow hresult StepResult.json_ne_null,
    Form.need_ofTable hbegan hstarted, Form.maybe_ofTable hover hcompleted Timestamp.json_ne_null]
  rfl

/-- What those fields of the record of a step were read as that are neither a text, a state nor a
list of such. -/
theorem exists_form_of_read {d : Document} (h : read d = .ok s) :
    ∃ form, Form.of? shape false d = .ok form ∧
      form.need "inputs" Document.asBindings = .done s.inputs ∧
      form.need "outputs" Document.asBindings = .done s.outputs ∧
      form.need "requirements" (Document.asList Requirement.read) = .done s.requirements ∧
      form.maybe "execution_result" StepResult.read = .done s.result ∧
      form.need "started_at" Timestamp.read = .done s.started ∧
      form.maybe "completed_at" Timestamp.read = .done s.completed := by
  obtain ⟨form, hform, h⟩ := Except.bind_eq_ok_iff.1 h
  have h := Form.done_of_close h
  simp only [Reading.seq_eq_done_iff, Reading.map_eq_done_iff] at h
  obtain ⟨_, ⟨_, ⟨_, ⟨_, ⟨_, ⟨_, ⟨_, ⟨_, ⟨_, ⟨_, ⟨_, ⟨id, -, rfl⟩, name, -, rfl⟩, status, -, rfl⟩,
    inputs, hinputs, rfl⟩, outputs, houtputs, rfl⟩, requirements, hrequirements, rfl⟩, assignments,
    -, rfl⟩, result, hresult, rfl⟩, warnings, -, rfl⟩, errors, -, rfl⟩, started, hstarted, rfl⟩,
    completed, hcompleted, rfl⟩ := h
  exact ⟨form, hform, hinputs, houtputs, hrequirements, hresult, hstarted, hcompleted⟩

/-- The record of a step is read back. -/
theorem readsBack : Document.ReadsBack read json := by
  intro d s hd h
  obtain ⟨form, hform, hinputs, houtputs, hrequirements, hresult, hstarted, hcompleted⟩ :=
    exists_form_of_read h
  have hopen := hd.isOpen_form hform
  exact read_json (hopen.need Document.readsBack_asBindings hinputs)
    (hopen.need Document.readsBack_asBindings houtputs)
    (hopen.needList Requirement.readsBack hrequirements)
    (hopen.maybe StepResult.readsBack hresult) (hopen.need Timestamp.readsBack hstarted)
    (hopen.maybe Timestamp.readsBack hcompleted)

/-- The record of a step can be written: what went in and came out are open values, and so on for
what it holds. -/
structure Writable (s : StepRecord) : Prop where
  inputs : ∀ e ∈ s.inputs.entries, e.2.WellFormed
  outputs : ∀ e ∈ s.outputs.entries, e.2.WellFormed
  requirements : ∀ r ∈ s.requirements, r.Writable
  result : ∀ r ∈ s.result, r.Writable
  started : s.started.Spelled
  completed : ∀ t ∈ s.completed, t.Spelled

theorem Writable.read_json (h : s.Writable) : read s.json.document = .ok s :=
  StepRecord.read_json (Document.asBindings_ofTable h.inputs)
    (Document.asBindings_ofTable h.outputs) (fun r hr => (h.requirements r hr).read_json)
    (fun r hr => (h.result r hr).read_json) h.started.read_json
    fun t ht => (h.completed t ht).read_json

end StepRecord

namespace RunRecord

variable {r : RunRecord}

theorem read_json (hinput : Document.asBindings (Json.ofTable r.input).document = .ok r.input)
    (hsteps : ∀ s ∈ r.steps, StepRecord.read s.json.document = .ok s)
    (hstarted : Timestamp.read r.started.json.document = .ok r.started)
    (hcompleted : ∀ t ∈ r.completed, Timestamp.read t.json.document = .ok t) :
    read r.json.document = .ok r := by
  refine Table.record_cases (P := fun v => read v.document = .ok r) (by simp [members])
    fun t h => ?_
  simp only [Table.Shows, members, List.cons_append, List.nil_append, List.forall_mem_cons] at h
  obtain ⟨hid, hplaybook, hstatus, hin, herror, hlist, hbegan, hover, -⟩ := h
  simp only [read, Form.of?_ofTable, Except.ok_bind, Form.need_text hid, Form.need_text hplaybook,
    Form.need_ofTable hstatus r.status.read_json, Form.need_ofTable hin hinput,
    Form.need_list hlist hsteps, Form.maybe_text herror,
    Form.need_ofTable hbegan hstarted, Form.maybe_ofTable hover hcompleted Timestamp.json_ne_null]
  rfl

/-- What those fields of the record of a run were read as that are neither a text nor a state. -/
theorem exists_form_of_read {d : Document} (h : read d = .ok r) :
    ∃ form, Form.of? shape false d = .ok form ∧
      form.need "initial_input" Document.asBindings = .done r.input ∧
      form.need "steps" (Document.asList StepRecord.read) = .done r.steps ∧
      form.need "started_at" Timestamp.read = .done r.started ∧
      form.maybe "completed_at" Timestamp.read = .done r.completed := by
  obtain ⟨form, hform, h⟩ := Except.bind_eq_ok_iff.1 h
  have h := Form.done_of_close h
  simp only [Reading.seq_eq_done_iff, Reading.map_eq_done_iff] at h
  obtain ⟨_, ⟨_, ⟨_, ⟨_, ⟨_, ⟨_, ⟨_, ⟨id, -, rfl⟩, playbook, -, rfl⟩, status, -, rfl⟩, input,
    hinput, rfl⟩, steps, hsteps, rfl⟩, error, -, rfl⟩, started, hstarted, rfl⟩, completed,
    hcompleted, rfl⟩ := h
  exact ⟨form, hform, hinput, hsteps, hstarted, hcompleted⟩

/-- The record of a run is read back. -/
theorem readsBack : Document.ReadsBack read json := by
  intro d r hd h
  obtain ⟨form, hform, hinput, hsteps, hstarted, hcompleted⟩ := exists_form_of_read h
  have hopen := hd.isOpen_form hform
  exact read_json (hopen.need Document.readsBack_asBindings hinput)
    (hopen.needList StepRecord.readsBack hsteps) (hopen.need Timestamp.readsBack hstarted)
    (hopen.maybe Timestamp.readsBack hcompleted)

/-- The record of a run can be written: it was started with open values, and so on for what it
holds. -/
structure Writable (r : RunRecord) : Prop where
  input : ∀ e ∈ r.input.entries, e.2.WellFormed
  steps : ∀ s ∈ r.steps, s.Writable
  started : r.started.Spelled
  completed : ∀ t ∈ r.completed, t.Spelled

theorem Writable.read_json (h : r.Writable) : read r.json.document = .ok r :=
  RunRecord.read_json (Document.asBindings_ofTable h.input) (fun s hs => (h.steps s hs).read_json)
    h.started.read_json fun t ht => (h.completed t ht).read_json

end RunRecord

/-! ### What is kept as it stands -/

/-- What came out of a step stands in its result as it was given. -/
def StepResult.KeptFrom (v : Json) (r : StepResult) : Prop :=
  v.field? shape.fields "outputs" = some (.ofTable r.outputs)

/-- What went into a step and what came out of it stand in its record as they were given. -/
def StepRecord.KeptFrom (v : Json) (s : StepRecord) : Prop :=
  v.field? shape.fields "inputs" = some (.ofTable s.inputs) ∧
    v.field? shape.fields "outputs" = some (.ofTable s.outputs) ∧
      ∀ r ∈ s.result, ∃ w, v.field? shape.fields "execution_result" = some w ∧ r.KeptFrom w

/-- What a run was started with stands in its record as it was given, and so does what its steps
hold. -/
def RunRecord.KeptFrom (v : Json) (r : RunRecord) : Prop :=
  v.field? shape.fields "initial_input" = some (.ofTable r.input) ∧
    ∃ items, v.field? shape.fields "steps" = some (.list items) ∧
      List.Forall₂ StepRecord.KeptFrom items r.steps

section

variable {v : Json}

theorem field?_of_need {shape : Shape} {buffered : Bool} {form : Form v.document} {name : String}
    {t : Bindings} (hv : v.WellFormed) (hform : Form.of? shape buffered v.document = .ok form)
    (h : form.need name Document.asBindings = .done t) :
    v.field? shape.fields name = some (.ofTable t) := by
  obtain ⟨w, hw, hread⟩ := Form.exists_field_of_need hform h
  rw [hw, (hv.field? hw).eq_of_asBindings hread]

theorem StepResult.keptFrom (hv : v.WellFormed) {r : StepResult}
    (h : StepResult.read v.document = .ok r) : r.KeptFrom v := by
  obtain ⟨form, hform, -, houtputs, -, -, -⟩ := exists_form_of_read h
  exact field?_of_need hv hform houtputs

theorem StepRecord.keptFrom (hv : v.WellFormed) {s : StepRecord}
    (h : StepRecord.read v.document = .ok s) : s.KeptFrom v := by
  obtain ⟨form, hform, hinputs, houtputs, -, hresult, -, -⟩ := exists_form_of_read h
  refine ⟨field?_of_need hv hform hinputs, field?_of_need hv hform houtputs, fun r hr => ?_⟩
  obtain ⟨w, hw, hread⟩ := Form.exists_field_of_maybe hform (hresult.trans (congrArg _ hr))
  exact ⟨w, hw, StepResult.keptFrom (hv.field? hw) hread⟩

theorem RunRecord.keptFrom (hv : v.WellFormed) {r : RunRecord}
    (h : RunRecord.read v.document = .ok r) : r.KeptFrom v := by
  obtain ⟨form, hform, hinput, hsteps, -, -⟩ := exists_form_of_read h
  obtain ⟨w, hw, hread⟩ := Form.exists_field_of_need hform hsteps
  obtain ⟨items, rfl, hitems⟩ := Document.forall₂_of_asList (hv.field? hw) hread
  exact ⟨field?_of_need hv hform hinput, items, hw,
    hitems.imp fun _ _ hs => StepRecord.keptFrom hs.1 hs.2⟩

end

/-- A record of a run that is read from an open value is read back from what is written of it. What
went into the run and its steps and what came out is kept as it stands in that value, every strategy
is the one of its name, and every entry of a trail has the members of its outcome among its own.
Whatever it comes from, every record of a run that can be written is read back, and so is every
result of a step and every entry of a trail. -/
theorem runRecord_read_back :
    (∀ (v : Json) (x : RunRecord), v.WellFormed → RunRecord.read v.document = .ok x →
      RunRecord.read x.json.document = .ok x ∧ x.KeptFrom v ∧
        ∀ s ∈ x.steps, ∀ r ∈ s.result, Strategy.ofName r.strategy.name = r.strategy ∧
          ∀ e ∈ r.trail, Strategy.ofName e.strategy.name = e.strategy ∧
            ∃ t, e.json = .ofTable t ∧ t.Shows e.outcome.members) ∧
    (∀ x : RunRecord, x.Writable → RunRecord.read x.json.document = .ok x) ∧
    (∀ r : StepResult, r.Writable → StepResult.read r.json.document = .ok r) ∧
    (∀ e : TrailEntry, e.Writable → TrailEntry.read e.json.document = .ok e) ∧
    ∀ a : Assignment, Assignment.read a.json.document = .ok a := by
  refine ⟨fun v x hv h => ?_, fun x hx => hx.read_json, fun r hr => hr.read_json,
    fun e he => he.read_json, Assignment.read_json⟩
  refine ⟨RunRecord.readsBack (Document.isOpen_document hv) h, RunRecord.keptFrom hv h, ?_⟩
  intro s hs r hr
  obtain ⟨_, -, -, hsteps, -, -⟩ := RunRecord.exists_form_of_read h
  obtain ⟨_, hstep⟩ := Form.exists_read_of_needList hsteps s hs
  obtain ⟨_, -, -, -, -, hresult, -, -⟩ := StepRecord.exists_form_of_read hstep
  obtain ⟨_, hread⟩ := Form.exists_read_of_maybe (hresult.trans (congrArg _ hr))
  obtain ⟨_, -, hstrategy, -, htrail, -, -⟩ := StepResult.exists_form_of_read hread
  obtain ⟨_, hstrategy⟩ := Form.exists_read_of_need hstrategy
  refine ⟨Strategy.ofName_name_of_read hstrategy, fun e he => ⟨?_, e.exists_shows⟩⟩
  obtain ⟨_, hentry⟩ := Form.exists_read_of_needList htrail e he
  obtain ⟨_, _, -, -, hstrategy, -, -, -⟩ := TrailEntry.exists_form_of_read hentry
  obtain ⟨_, hstrategy⟩ := Form.exists_read_of_need hstrategy
  exact Strategy.ofName_name_of_read hstrategy

/-- The record of a run of one step, some of it given as lists of fields. -/
def brewing : Json :=
  .object
    [("completed_at", .null), ("error", .null), ("id", .text "run-1"),
      ("initial_input", .object [("cups", .list [.int 2, .null])]), ("playbook", .text "tea"),
      ("started_at", .text "2016-12-31T23:59:60Z"), ("status", .text "running"),
      ("steps", .list [.list [.text "step-1", .text "boil", .text "completed", .object [],
        .object [("hot", .bool true)],
        .list [.object [("name", .text "pot")]],
        .list [.list [.text "pot", .text "i-1", .text "kettle", .text "specific"]],
        .object
          [("attempts", .int 2), ("duration_ms", .int 900),
            ("execution_type", .text " Robot"), ("executor_logs", .list []),
            ("logs", .list
              [.object
                [("after_ms", .int 500), ("at", .text "2017-01-01T01:00:00+01:00"),
                  ("attempt", .int 1), ("execution_type", .text "AI"),
                  ("outcome", .text "timed_out")],
                .object
                  [("at", .text "2017-01-01T00:00:00Z"), ("attempt", .int 1),
                    ("execution_type", .text "Robot"), ("outcome", .text "succeeded")]]),
            ("outputs", .object [("hot", .bool true)])],
        .list [], .list [], .text "2017-01-01T00:00:00Z", .text "2017-01-01T00:00:00.250Z"]])]

/-- An attempt that took too long, and ended in a second that was inserted. -/
def lateAttempt : TrailEntry :=
  ⟨.custom "Robot", 1, .timedOut 500, ⟨1483228799, 1500000000⟩⟩

theorem runRecord_read_back_brewing :
    ∃ x, RunRecord.read brewing.document = .ok x ∧ RunRecord.read x.json.document = .ok x ∧
      x.KeptFrom brewing ∧ x.steps.map (fun s => s.result.map fun r =>
        (r.strategy, r.trail.map TrailEntry.outcome)) =
          [some (.custom "Robot", [.timedOut 500, .succeeded])] ∧
      lateAttempt.Writable ∧ TrailEntry.read lateAttempt.json.document = .ok lateAttempt := by
  have hlate : lateAttempt.Writable :=
    ⟨by decide, by decide, fun ms h => by cases h; decide, ⟨by decide, by decide, by decide⟩⟩
  have hbrewing : brewing.WellFormed := by
    refine ⟨?_, by simp [brewing, Json.Finite], by simp [brewing, Json.Sized]⟩
    simp only [brewing, Json.Canonical, Json.CanonicalItems, Json.CanonicalMembers]
    decide
  obtain ⟨x, hread, htrails⟩ : ∃ x, RunRecord.read brewing.document = .ok x ∧
      x.steps.map (fun s => s.result.map fun r => (r.strategy, r.trail.map TrailEntry.outcome)) =
        [some (.custom "Robot", [.timedOut 500, .succeeded])] := ⟨_, rfl, rfl⟩
  obtain ⟨hruns, -, -, hentries, -⟩ := runRecord_read_back
  obtain ⟨hback, hkept, -⟩ := hruns brewing x hbrewing hread
  exact ⟨x, hread, hback, hkept, htrails, hlate, hentries _ hlate⟩

end Foreman
