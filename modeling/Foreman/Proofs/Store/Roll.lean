import Foreman.Proofs.Store.History
/-!
# The roll of a store

The history of a store says which of its instances were registered and which of these were removed
since. The *roll* is the list of those that were not, in the order of registration, as they were
when they were registered. The instances of a store are those on the roll, whatever has become of
their state and of who holds them.

## Main definitions

* `Foreman.Instance.asRegistered`: an instance as it was when it was registered.
* `Foreman.Store.Event.strikes`, `Foreman.Store.roll`: whether an event removes an instance, and the
  roll that a history leaves.
* `Foreman.Store.setStatus`: the state of one instance is set, if the state it was in admits it.

## Main results

* `Foreman.Store.register_of_mem`, `Foreman.Store.register_of_notMem`: what registering an instance
  comes to.
* `Foreman.Store.Sound.retire_eq`, `Foreman.Store.Sound.reinstate_eq`: what taking an instance out
  of rotation and putting it back come to.
* `Foreman.Store.roll_append`: the roll of a history that goes on.
* `Foreman.Store.map_asRegistered_performAll`: the instances of a store are those on the roll.
-/

namespace Foreman

namespace Instance

/-- An instance as it was when it was registered. -/
def asRegistered (i : Instance) : Instance :=
  .fresh i.id i.kind i.attributes i.registered

theorem asRegistered_release (i : Instance) : i.release.asRegistered = i.asRegistered := by
  unfold Instance.release
  split_ifs <;> rfl

end Instance

namespace Store

variable {s : Store} {history : List Event}

/-! ### Registering -/

variable {id kind : String} {attributes : Bindings} {now : Timestamp}

/-- A new instance is refused if its id is taken. -/
theorem register_of_mem (h : id ∈ s.ids) :
    (s.register id kind attributes now).1 = .error (.duplicateInstance id) ∧
      (s.register id kind attributes now).2.1 = s := by
  simp [register, has_eq_true_iff.2 h]

/-- Otherwise it comes last. -/
theorem register_of_notMem (h : id ∉ s.ids) :
    (s.register id kind attributes now).1 = .ok id ∧
      (s.register id kind attributes now).2.1 =
        { s with instances := s.instances ++ [.fresh id kind attributes now] } := by
  have hfree : ¬ s.has id = true := fun hhas => h (has_eq_true_iff.1 hhas)
  simp [register, hfree]

/-! ### Setting the state of an instance -/

/-- The store after the state of the instance of an id was set, if the state it was in admits it. -/
def setStatus (s : Store) (id : String) (admits : Status → Prop) [DecidablePred admits]
    (status : Status) : Store :=
  s.each fun i => if i.id = id ∧ admits i.status then { i with status } else i

theorem Sound.modify_status {admits : Status → Prop} [DecidablePred admits] (hs : s.Sound)
    {i : Instance} (hi : i ∈ s.instances) (hadmits : admits i.status) (status : Status) :
    s.modify i.id (fun j => { j with status }) = s.setStatus i.id admits status := by
  rw [modify_eq_each]
  refine each_congr fun j hj => ?_
  by_cases hid : j.id = i.id
  · obtain rfl := hs.eq_of_id_eq hj hi hid
    simp [hadmits]
  · simp [hid]

/-- If the instance of an id is in no state that admits it, nothing is set. -/
theorem setStatus_eq_self {id : String} {admits : Status → Prop} [DecidablePred admits]
    (h : ∀ i ∈ s.instances, i.id = id → ¬ admits i.status) (status : Status) :
    s.setStatus id admits status = s :=
  each_eq_self fun i hi => if_neg fun hboth => h i hi hboth.1 hboth.2

/-- An attempt to set the state of the instance of an id succeeds exactly if there is such an
instance and the state it is in admits it. -/
theorem Sound.attempt_eq (hs : s.Sound) (id : String) (admits : Status → Prop)
    [DecidablePred admits] (status : Status) :
    (match s.instance? id with
      | some i =>
        if admits i.status then (true, s.modify id fun i => { i with status }) else (false, s)
      | none => (false, s)) =
      (decide (∃ i ∈ s.instances, i.id = id ∧ admits i.status), s.setStatus id admits status) := by
  cases hid : s.instance? id with
  | none =>
    have hnone : ∀ i ∈ s.instances, i.id ≠ id := by
      intro i hi
      simpa using List.find?_eq_none.1 hid i hi
    have hnot : ¬ ∃ i ∈ s.instances, i.id = id ∧ admits i.status :=
      fun ⟨i, hi, heq, _⟩ => hnone i hi heq
    simp only [hnot, decide_false]
    rw [setStatus_eq_self fun i hi heq => absurd heq (hnone i hi)]
  | some i =>
    obtain ⟨hi, rfl⟩ := mem_of_instance?_eq_some hid
    by_cases hadmits : admits i.status
    · have hsome : ∃ j ∈ s.instances, j.id = i.id ∧ admits j.status := ⟨i, hi, rfl, hadmits⟩
      simp only [hadmits, hsome, if_true, decide_true, hs.modify_status hi hadmits]
    · have honly : ∀ j ∈ s.instances, j.id = i.id → ¬ admits j.status :=
        fun j hj heq => hs.eq_of_id_eq hj hi heq ▸ hadmits
      have hnot : ¬ ∃ j ∈ s.instances, j.id = i.id ∧ admits j.status :=
        fun ⟨j, hj, heq, hj'⟩ => honly j hj heq hj'
      simp only [hadmits, hnot, if_false, decide_false, setStatus_eq_self honly]

/-- An instance is taken out of rotation exactly if it is there and no step holds it. -/
theorem Sound.retire_eq (hs : s.Sound) (id : String) :
    s.retire id = (decide (∃ i ∈ s.instances, i.id = id ∧ i.status ≠ .allocated),
      s.setStatus id (· ≠ .allocated) .unavailable) := by
  have h := hs.attempt_eq id (· ≠ .allocated) .unavailable
  simp only [ne_eq, ite_not] at h
  exact h

/-- An instance is put back into rotation exactly if it is there and out of rotation. -/
theorem Sound.reinstate_eq (hs : s.Sound) (id : String) :
    s.reinstate id = (decide (∃ i ∈ s.instances, i.id = id ∧ i.status = .unavailable),
      s.setStatus id (· = .unavailable) .available) :=
  hs.attempt_eq id (· = .unavailable) .available

/-! ### Rolls -/

/-- Whether an event removes the instance of an id. -/
def Event.strikes (id : String) : Event → Bool
  | removed i => i.id = id
  | cleared => true
  | _ => false

/-- The instances that were registered and not removed since, in the order of registration, as they
were when they were registered. -/
def roll : List Event → List Instance
  | [] => []
  | .registered i :: later =>
    if later.any (·.strikes i.id) then roll later else i :: roll later
  | _ :: later => roll later

/-- As a history goes on, instances are struck off the roll and others are entered at its end. -/
theorem roll_append (history more : List Event) :
    roll (history ++ more) =
      (roll history).filter (fun i => !more.any (·.strikes i.id)) ++ roll more := by
  induction history with
  | nil => rfl
  | cons e later ih =>
    cases e with
    -- what is entered stays on the roll unless it is struck off later, before or after the seam
    | registered i =>
      rw [List.cons_append, roll, roll, ih, List.any_append]
      by_cases hlater : later.any (·.strikes i.id)
      · simp [hlater]
      · by_cases hmore : more.any (·.strikes i.id) <;> simp [hlater, hmore]
    | removed i => exact ih
    | allocated step ids => exact ih
    | released step ids => exact ih
    | cleared => exact ih

/-- Events that neither register an instance nor remove one leave the roll as it is. -/
theorem roll_append_eq_self {more : List Event} (hroll : roll more = [])
    (hstrikes : ∀ e ∈ more, ∀ id, e.strikes id = false) :
    roll (history ++ more) = roll history := by
  rw [roll_append, hroll, List.append_nil, List.filter_eq_self]
  intro i _
  simpa using fun e he => hstrikes e he i.id

/-- A change of every instance by itself that leaves alone what was registered. -/
theorem map_asRegistered_each (s : Store) {f : Instance → Instance}
    (hf : ∀ i, (f i).asRegistered = i.asRegistered) :
    (s.each f).instances.map Instance.asRegistered = s.instances.map Instance.asRegistered := by
  simp only [each, List.map_map]
  exact List.map_congr_left fun i _ => hf i

theorem map_asRegistered_setStatus (s : Store) (id : String) (admits : Status → Prop)
    [DecidablePred admits] (status : Status) :
    (s.setStatus id admits status).instances.map Instance.asRegistered =
      s.instances.map Instance.asRegistered :=
  map_asRegistered_each s fun i => by split_ifs <;> rfl

/-- What comes of a deed is entered on the roll, or struck off it. -/
theorem Sound.roll_perform (hs : s.Sound)
    (h : s.instances.map Instance.asRegistered = roll history) (d : Deed) :
    (s.perform d).2.instances.map Instance.asRegistered = roll (history ++ (s.perform d).1) := by
  cases d with
  | define k => simpa [Store.perform, Store.define] using h
  | register id kind attributes now =>
    simp only [Store.perform, Store.register]
    by_cases hhas : s.has id
    · simpa only [if_pos hhas, List.append_nil] using h
    · simp only [if_neg hhas, List.map_append, h]
      rw [roll_append]
      simp [Event.strikes, roll, Instance.asRegistered, Instance.fresh]
  | remove id =>
    simp only [Store.perform, Store.remove]
    cases hid : s.instance? id with
    | none => simpa using h
    | some i =>
      obtain ⟨-, rfl⟩ := mem_of_instance?_eq_some hid
      have hkept : (roll history).filter (fun j => !(i.id = j.id : Bool)) =
          (s.instances.filter fun j => j.id ≠ i.id).map Instance.asRegistered := by
        rw [← h, List.filter_map]
        refine congrArg _ (List.filter_congr fun j _ => ?_)
        have hcomm : i.id = j.id ↔ j.id = i.id := eq_comm
        simp [Instance.asRegistered, Instance.fresh, hcomm]
      simpa [roll_append, roll, Event.strikes] using hkept.symm
  | retire id =>
    simp only [Store.perform, hs.retire_eq, map_asRegistered_setStatus, List.append_nil, h]
  | reinstate id =>
    simp only [Store.perform, hs.reinstate_eq, map_asRegistered_setStatus, List.append_nil, h]
  | allocate step requirements =>
    rcases perform_allocate hs step requirements with ha | ⟨ids, ha, -, -⟩
    · simpa [ha] using h
    · rw [ha, roll_append_eq_self rfl (by simp [Event.strikes]), ← h]
      exact map_asRegistered_each s fun i => by split_ifs <;> rfl
  | release step =>
    simp only [Store.perform]
    rw [roll_append_eq_self rfl (by simp [Event.strikes]), ← h, release_eq_each]
    refine map_asRegistered_each s fun i => ?_
    split_ifs
    · exact i.asRegistered_release
    · rfl
  | clear => simp [Store.perform, Store.clear, roll_append, roll, Event.strikes]

/-- The instances of a store are those on the roll of its history. -/
theorem Sound.roll_performAll (hs : s.Sound)
    (h : s.instances.map Instance.asRegistered = roll history) (deeds : List Deed) :
    (s.performAll deeds).2.instances.map Instance.asRegistered =
      roll (history ++ (s.performAll deeds).1) := by
  induction deeds generalizing s history with
  | nil => simpa [Store.performAll] using h
  | cons d rest ih =>
    rw [Store.performAll, ← List.append_assoc]
    exact ih (hs.perform d) (hs.roll_perform h d)

theorem map_asRegistered_performAll (deeds : List Deed) :
    (performAll {} deeds).2.instances.map Instance.asRegistered =
      roll (performAll {} deeds).1 := by
  have hempty : ({} : Store).instances.map Instance.asRegistered = roll [] := rfl
  exact sound_empty.roll_performAll hempty deeds

end Store

end Foreman
