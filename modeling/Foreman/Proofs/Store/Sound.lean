import Foreman.Store
import Mathlib.Data.List.Nodup
/-!
# Sound stores

A store is *sound* when no two of its instances have the same id and every instance is allocated
exactly when some step holds it. Almost every operation on instances changes each of them by itself
and leaves its id alone; such an operation keeps a store sound when it keeps every single instance
coherent.

## Main definitions

* `Foreman.Instance.Coherent`, `Foreman.Store.Sound`: the invariant.
* `Foreman.Store.each`: a change of every instance by itself.
* `Foreman.Store.grantAll`: the instances of some ids are given to a step.
* `Foreman.Store.HoldsNothing`: a step holds no instance.

## Main results

* `Foreman.Store.Sound.each`: changes that respect ids and coherence keep a store sound.
* `Foreman.Store.Sound.release`, `Foreman.Store.Sound.register`, …: so do the operations.
* `Foreman.Store.Sound.takeBack_grantAll`, `Foreman.Store.Sound.release_grantAll`: available
  instances that were given to a step and are taken back, or given back, are as they were before.
-/

namespace Foreman

namespace Instance

/-- An instance is allocated exactly when some step holds it. -/
def Coherent (i : Instance) : Prop :=
  i.status = .allocated ↔ i.holder.isSome

theorem coherent_fresh (id kind : String) (attributes : Bindings) (now : Timestamp) :
    (fresh id kind attributes now).Coherent := by
  simp [Coherent, fresh]

theorem coherent_grant (i : Instance) (step : String) : (i.grant step).Coherent := by
  simp [Coherent, grant]

theorem Coherent.release {i : Instance} (hi : i.Coherent) : i.release.Coherent := by
  unfold Instance.release
  split_ifs
  · simp [Coherent]
  · exact hi

/-- An available instance has no holder. -/
theorem Coherent.holder_eq_none {i : Instance} (hi : i.Coherent) (ha : i.isAvailable = true) :
    i.holder = none := by
  have hstatus : i.status = .available := by simpa [isAvailable] using ha
  have hnot : ¬ i.holder.isSome := fun h => by simp [hi.2 h] at hstatus
  simpa using hnot

/-- An instance that some step holds is allocated. -/
theorem Coherent.status_of_isHeldBy {i : Instance} {step : String} (hi : i.Coherent)
    (h : i.isHeldBy step = true) : i.status = .allocated :=
  hi.2 (by simp [of_decide_eq_true h])

@[simp] theorem grant_id (i : Instance) (step : String) : (i.grant step).id = i.id := rfl

@[simp] theorem grant_grant (i : Instance) (other step : String) :
    (i.grant other).grant step = i.grant step := rfl

@[simp] theorem release_id (i : Instance) : i.release.id = i.id := by
  unfold release
  split_ifs <;> rfl

@[simp] theorem isHeldBy_grant (i : Instance) (step other : String) :
    (i.grant step).isHeldBy other = decide (step = other) := by
  simp [isHeldBy, grant]

/-- What is given back once is not changed by being given back again. -/
theorem release_release (i : Instance) : i.release.release = i.release := by
  by_cases h : i.status = .allocated <;> simp [release, h]

/-- What was given and is given back is as it was before. -/
theorem Coherent.release_grant {i : Instance} (hi : i.Coherent) (ha : i.isAvailable = true)
    (step : String) : (i.grant step).release = i := by
  have hholder := hi.holder_eq_none ha
  have hstatus : i.status = .available := by simpa [isAvailable] using ha
  cases i
  simp only at hholder hstatus
  simp [grant, Instance.release, hholder, hstatus]

end Instance

namespace Store

/-- The ids of the instances, in the order of registration. -/
def ids (s : Store) : List String :=
  s.instances.map Instance.id

/-- A change of every instance by itself. -/
def each (s : Store) (f : Instance → Instance) : Store :=
  { s with instances := s.instances.map f }

/-- The instances of some ids are given to a step. -/
def grantAll (s : Store) (step : String) (ids : List String) : Store :=
  s.each fun i => if i.id ∈ ids then i.grant step else i

/-- No two instances have the same id, and every instance is coherent. -/
structure Sound (s : Store) : Prop where
  /-- The ids are distinct. -/
  nodup : s.ids.Nodup
  /-- The instances are coherent. -/
  coherent : ∀ i ∈ s.instances, i.Coherent

/-! ### Changes of every instance by itself -/

@[simp] theorem kinds_each (s : Store) (f : Instance → Instance) : (s.each f).kinds = s.kinds := rfl

theorem mem_each {s : Store} {f : Instance → Instance} {j : Instance} :
    j ∈ (s.each f).instances ↔ ∃ i ∈ s.instances, f i = j :=
  List.mem_map

theorem ids_each (s : Store) {f : Instance → Instance} (hid : ∀ i, (f i).id = i.id) :
    (s.each f).ids = s.ids := by
  simp only [ids, each, List.map_map]
  exact List.map_congr_left fun i _ => hid i

theorem each_each (s : Store) (f g : Instance → Instance) :
    (s.each f).each g = s.each fun i => g (f i) := by
  simp [each, Function.comp_def]

theorem each_congr {s : Store} {f g : Instance → Instance} (h : ∀ i ∈ s.instances, f i = g i) :
    s.each f = s.each g := by
  simp only [each, List.map_congr_left h]

/-- A change that changes nothing. -/
theorem each_eq_self {s : Store} {f : Instance → Instance} (h : ∀ i ∈ s.instances, f i = i) :
    s.each f = s := by
  rw [each_congr h, each, List.map_id']

theorem modify_eq_each (s : Store) (id : String) (f : Instance → Instance) :
    s.modify id f = s.each fun i => if i.id = id then f i else i := rfl

theorem release_eq_each (s : Store) (step : String) :
    (s.release step).2 = s.each fun i => if i.isHeldBy step then i.release else i := rfl

@[simp] theorem grantAll_nil (s : Store) (step : String) : s.grantAll step [] = s :=
  each_eq_self fun i _ => by simp

/-- One instance is given, and then some more. -/
theorem grantAll_cons (s : Store) (step id : String) (ids : List String) :
    s.grantAll step (id :: ids) = (s.modify id (·.grant step)).grantAll step ids := by
  rw [modify_eq_each, grantAll, grantAll, each_each]
  refine each_congr fun i _ => ?_
  by_cases hid : i.id = id
  · subst hid
    by_cases hi : i.id ∈ ids <;> simp [hi]
  · simp [hid]

/-- The instances of some ids are taken back all at once. -/
theorem takeBack_eq_each (s : Store) (taken : List String) :
    s.takeBack taken = s.each fun i => if i.id ∈ taken then i.release else i := by
  induction taken generalizing s with
  | nil => exact (each_eq_self fun i _ => by simp).symm
  | cons id rest ih =>
    rw [takeBack, List.foldl_cons, ← takeBack, ih, modify_eq_each, each_each]
    refine each_congr fun i _ => ?_
    by_cases hid : i.id = id
    · by_cases hi : i.id ∈ rest <;> simp_all [Instance.release_release]
    · simp [hid]

/-! ### Operations on a sound store -/

/-- Changes that respect ids and coherence keep a store sound. -/
theorem Sound.each {s : Store} (hs : s.Sound) {f : Instance → Instance}
    (hid : ∀ i, (f i).id = i.id) (hf : ∀ i ∈ s.instances, i.Coherent → (f i).Coherent) :
    (s.each f).Sound := by
  refine ⟨by rw [ids_each s hid]; exact hs.nodup, fun j hj => ?_⟩
  obtain ⟨i, hi, rfl⟩ := mem_each.1 hj
  exact hf i hi (hs.coherent i hi)

theorem sound_empty : ({} : Store).Sound :=
  ⟨List.nodup_nil, fun _ hi => absurd hi List.not_mem_nil⟩

theorem Sound.define {s : Store} (hs : s.Sound) (k : ResourceKind) : (s.define k).Sound :=
  ⟨hs.nodup, hs.coherent⟩

theorem sound_clear (s : Store) : s.clear.Sound :=
  ⟨List.nodup_nil, fun _ hi => absurd hi List.not_mem_nil⟩

theorem has_eq_true_iff {s : Store} {id : String} : s.has id = true ↔ id ∈ s.ids := by
  simp [has, instance?, ids]

theorem Sound.register {s : Store} (hs : s.Sound) (id kind : String) (attributes : Bindings)
    (now : Timestamp) : (s.register id kind attributes now).2.1.Sound := by
  unfold Store.register
  by_cases h : s.has id
  · simpa only [if_pos h] using hs
  · rw [if_neg h]
    have hid : id ∉ s.ids := fun hm => h (has_eq_true_iff.2 hm)
    refine ⟨?_, fun i hi => ?_⟩
    · rw [ids, List.map_append]
      refine hs.nodup.append (List.nodup_singleton _) ?_
      simpa [Instance.fresh] using hid
    · rcases List.mem_append.1 hi with hi | hi
      · exact hs.coherent i hi
      · rw [List.mem_singleton.1 hi]
        exact Instance.coherent_fresh id kind attributes now

theorem Sound.remove {s : Store} (hs : s.Sound) (id : String) : (s.remove id).2.1.Sound := by
  unfold Store.remove
  split
  · exact hs
  · exact ⟨hs.nodup.sublist (List.filter_sublist.map _),
      fun i hi => hs.coherent i (List.mem_of_mem_filter hi)⟩

/-- Two instances of a sound store with the same id are the same. -/
theorem Sound.eq_of_id_eq {s : Store} (hs : s.Sound) {i j : Instance} (hi : i ∈ s.instances)
    (hj : j ∈ s.instances) (hid : i.id = j.id) : i = j :=
  List.inj_on_of_nodup_map hs.nodup hi hj hid

/-- In a sound store, a search for an id with a further condition finds the instance of that id. -/
theorem Sound.find?_eq_some {s : Store} (hs : s.Sound) {i : Instance} (hi : i ∈ s.instances)
    {q : Instance → Bool} (hq : q i = true) (hid : ∀ j, q j = true → j.id = i.id) :
    s.instances.find? q = some i := by
  cases hj : s.instances.find? q with
  | none => exact absurd hq (List.find?_eq_none.1 hj i hi)
  | some j =>
    have hsame := hid j (List.find?_some hj)
    exact congrArg some (hs.eq_of_id_eq (List.mem_of_find?_eq_some hj) hi hsame)

theorem Sound.instance? {s : Store} (hs : s.Sound) {i : Instance} (hi : i ∈ s.instances) :
    s.instance? i.id = some i :=
  hs.find?_eq_some hi (by simp) fun j hj => by simpa using hj

/-- Taking an instance out of rotation, or putting it back, is a change of it that keeps it
coherent, or no change. -/
theorem Sound.modify {s : Store} (hs : s.Sound) {i : Instance} (hi : i ∈ s.instances)
    {f : Instance → Instance} (hid : ∀ j, (f j).id = j.id) (hf : (f i).Coherent) :
    (s.modify i.id f).Sound := by
  rw [modify_eq_each]
  refine hs.each (fun j => by split_ifs <;> simp [hid]) fun j hj hc => ?_
  split_ifs with heq
  · have : j = i := List.inj_on_of_nodup_map hs.nodup hj hi heq
    exact this ▸ hf
  · exact hc

theorem mem_of_instance?_eq_some {s : Store} {id : String} {i : Instance}
    (h : s.instance? id = some i) : i ∈ s.instances ∧ i.id = id :=
  ⟨List.mem_of_find?_eq_some h, by simpa using List.find?_some h⟩

theorem Sound.retire {s : Store} (hs : s.Sound) (id : String) : (s.retire id).2.Sound := by
  unfold Store.retire
  split
  · next i hi =>
    obtain ⟨hmem, rfl⟩ := mem_of_instance?_eq_some hi
    split_ifs with h
    · exact hs
    · refine hs.modify hmem (fun _ => rfl) ?_
      have := hs.coherent i hmem
      simp_all [Instance.Coherent]
  · exact hs

theorem Sound.reinstate {s : Store} (hs : s.Sound) (id : String) : (s.reinstate id).2.Sound := by
  unfold Store.reinstate
  split
  · next i hi =>
    obtain ⟨hmem, rfl⟩ := mem_of_instance?_eq_some hi
    split_ifs with h
    · refine hs.modify hmem (fun _ => rfl) ?_
      have := hs.coherent i hmem
      simp_all [Instance.Coherent]
    · exact hs
  · exact hs

theorem Sound.release {s : Store} (hs : s.Sound) (step : String) : (s.release step).2.Sound := by
  rw [release_eq_each]
  refine hs.each (fun i => by split_ifs <;> simp) fun i _ hi => ?_
  split_ifs
  · exact hi.release
  · exact hi

theorem Sound.grantAll {s : Store} (hs : s.Sound) (step : String) (ids : List String) :
    (s.grantAll step ids).Sound := by
  refine hs.each (fun i => by split_ifs <;> simp) fun i _ hi => ?_
  split_ifs
  · exact i.coherent_grant step
  · exact hi

theorem Sound.modify_grant {s : Store} (hs : s.Sound) (id step : String) :
    (s.modify id (·.grant step)).Sound := by
  simpa only [grantAll_cons, grantAll_nil] using hs.grantAll step [id]

/-! ### Giving and taking back -/

/-- Whether the ids are those of available instances. -/
def AllAvailable (s : Store) (ids : List String) : Prop :=
  ∀ i ∈ s.instances, i.id ∈ ids → i.isAvailable = true

/-- Available instances that were given to a step and are taken back are as they were before. -/
theorem Sound.takeBack_grantAll {s : Store} (hs : s.Sound) {step : String} {taken : List String}
    (hfree : s.AllAvailable taken) : (s.grantAll step taken).takeBack taken = s := by
  rw [takeBack_eq_each, Store.grantAll, each_each]
  refine each_eq_self fun i hi => ?_
  by_cases hmem : i.id ∈ taken
  · simpa [hmem] using (hs.coherent i hi).release_grant (hfree i hi hmem) step
  · simp [hmem]

/-- A step holds no instance at all. -/
def HoldsNothing (s : Store) (step : String) : Prop :=
  ∀ i ∈ s.instances, i.holder ≠ some step

theorem holdsNothing_iff {s : Store} {step : String} :
    s.HoldsNothing step ↔ ∀ i ∈ s.instances, i.isHeldBy step = false := by
  simp [HoldsNothing, Instance.isHeldBy]

/-- A step that held nothing, was given available instances and gives back what it holds leaves
everything as it was before. -/
theorem Sound.release_grantAll {s : Store} (hs : s.Sound) {step : String} {taken : List String}
    (hfree : s.AllAvailable taken) (hnone : s.HoldsNothing step) :
    ((s.grantAll step taken).release step).2 = s := by
  rw [release_eq_each, Store.grantAll, each_each]
  refine each_eq_self fun i hi => ?_
  by_cases hmem : i.id ∈ taken
  · simpa [hmem] using (hs.coherent i hi).release_grant (hfree i hi hmem) step
  · simp [hmem, holdsNothing_iff.1 hnone i hi]

/-- A step that holds nothing gives nothing back. -/
theorem HoldsNothing.release_eq_self {s : Store} {step : String} (hnone : s.HoldsNothing step) :
    (s.release step).2 = s := by
  rw [release_eq_each]
  exact each_eq_self fun i hi => by simp [holdsNothing_iff.1 hnone i hi]

/-- Having given back what it held, a step of a sound store holds nothing. -/
theorem Sound.holdsNothing_release {s : Store} (hs : s.Sound) (step : String) :
    (s.release step).2.HoldsNothing step := by
  rw [holdsNothing_iff, release_eq_each]
  intro j hj
  obtain ⟨i, hi, rfl⟩ := mem_each.1 hj
  split_ifs with h
  · simp [Instance.release, (hs.coherent i hi).status_of_isHeldBy h, Instance.isHeldBy]
  · simpa using h

end Store

end Foreman
