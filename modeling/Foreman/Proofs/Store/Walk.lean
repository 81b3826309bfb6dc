import Foreman.Proofs.Store.Sound
import Foreman.Store.Allocation
import Mathlib.Data.List.Forall2
/-!
# The greedy walk

What a step is given can be said without any memory of what kinds offer: the requirements are met
from left to right, each with its first preference that some available instance meets at that moment
and with the earliest registered of these instances. On a sound store an allocation comes to the
same as this walk, whatever it remembers on the way, as long as it remembers what is true.

## Main definitions

* `Foreman.Store.accepts`: whether an instance meets a preference, in whatever state it is.
* `Foreman.Store.firstChoice?`: the instance that a requirement is met with.
* `Foreman.Store.walk`: the requirements are met one after another, up to the first that cannot be.
* `Foreman.Store.allocateGreedily`: what a step is given by the walk.

## Main results

* `Foreman.Store.walk_eq_none`, `Foreman.Store.walk_eq_some`: what the walk has chosen where it gets
  to the end, and where it does not.
* `Foreman.Allocation.meet_eq_walk`, `Foreman.Store.allocate_eq_walk`: an allocation is the walk.
-/

namespace Foreman

/-- A requirement, the instance that meets it and the preference that is met. -/
structure Choice where
  /-- The requirement, by name. -/
  requirement : String
  /-- The instance, as it was when it was chosen. -/
  taken : Instance
  /-- The preference. -/
  preference : Preference

namespace Choice

/-- What is said of a choice in an allotment. -/
def assignment (c : Choice) : Assignment :=
  ⟨c.requirement, c.taken.id, c.taken.kind, c.preference.kind⟩

/-- The warning that a choice comes with. -/
def warning? (c : Choice) : Option String :=
  match c.preference with
  | .emergency _ warning => some warning
  | _ => none

end Choice

/-- An allotment with some more choices. -/
def Allotment.extend (given : Allotment) (choices : List Choice) : Allotment :=
  { given with
    assignments := given.assignments ++ choices.map Choice.assignment
    warnings := given.warnings ++ choices.filterMap Choice.warning? }

theorem Allotment.extend_extend (given : Allotment) (choices others : List Choice) :
    (given.extend choices).extend others = given.extend (choices ++ others) := by
  simp [extend]

namespace Store

/-! ### The walk -/

/-- Whether an instance meets a preference, in whatever state it is. A name stands for the instance
of that id, if there is one, and otherwise for the instances of the kind of that name. -/
def accepts (s : Store) (p : Preference) (i : Instance) : Bool :=
  match p with
  | .specific name => if s.has name then i.id = name else i.kind = name
  | .matching matcher | .emergency matcher _ => matcher.accepts (s.kinds.effective i.kind)

/-- The earliest registered available instance that meets a preference. -/
def earliest? (s : Store) (p : Preference) : Option Instance :=
  s.instances.find? fun i => i.isAvailable && s.accepts p i

/-- The first preference of a chain that some available instance meets, with the earliest registered
of these instances. -/
def firstChoice? (s : Store) (chain : List Preference) : Option (Instance × Preference) :=
  chain.findSome? fun p => (s.earliest? p).map (·, p)

/-- The requirements are met one after another. What was chosen, the store afterwards, and the first
requirement that could not be met. -/
def walk (step : String) : List Requirement → Store → List Choice × Store × Option Requirement
  | [], s => ([], s, none)
  | r :: rest, s =>
    match s.firstChoice? r.chain with
    | none => ([], s, some r)
    | some (i, p) =>
      let later := walk step rest (s.modify i.id (·.grant step))
      (⟨r.name, i, p⟩ :: later.1, later.2)

/-- What a step is given by the walk: what was chosen, if every requirement could be met, and
otherwise nothing. -/
def allocateGreedily (s : Store) (step : String) (requirements : List Requirement) :
    Except Failure Allotment × Store :=
  match walk step requirements s with
  | (choices, after, none) => (.ok (({ step } : Allotment).extend choices), after)
  | (_, _, some r) => (.error (.unmet step r.name), s)

/-! ### What the walk chooses -/

/-- The ids of the instances that were chosen. -/
def chosenIds (choices : List Choice) : List String :=
  choices.map fun c => c.taken.id

theorem instanceIds_extend (step : String) (choices : List Choice) :
    (({ step } : Allotment).extend choices).instanceIds = chosenIds choices := by
  simp [Allotment.extend, Allotment.instanceIds, chosenIds, Choice.assignment, Function.comp_def]

/-- A choice is one that a requirement allows: an available instance of the store that meets one of
its preferences. -/
structure Allows (s : Store) (r : Requirement) (c : Choice) : Prop where
  /-- The choice is made for the requirement. -/
  requirement : c.requirement = r.name
  /-- The instance is in the store. -/
  mem : c.taken ∈ s.instances
  /-- It is available. -/
  available : c.taken.isAvailable = true
  /-- The preference is one of the requirement. -/
  preference : c.preference ∈ r.chain
  /-- The instance meets it. -/
  accepts : s.accepts c.preference c.taken = true

theorem has_each (s : Store) {f : Instance → Instance} (hid : ∀ i, (f i).id = i.id) (id : String) :
    (s.each f).has id = s.has id := by
  rw [Bool.eq_iff_iff, has_eq_true_iff, has_eq_true_iff, ids_each s hid]

/-- Which instances meet a preference does not depend on who holds what. -/
theorem accepts_each (s : Store) {f : Instance → Instance} (hid : ∀ i, (f i).id = i.id)
    (p : Preference) (i : Instance) : (s.each f).accepts p i = s.accepts p i := by
  cases p <;> simp [accepts, has_each s hid]

theorem id_grant_if (id step : String) (i : Instance) :
    (if i.id = id then i.grant step else i).id = i.id := by
  split_ifs <;> rfl

/-- What is available after one instance was given is another instance, and was available before. -/
theorem mem_modify_grant {s : Store} {id step : String} {i : Instance}
    (hi : i ∈ (s.modify id (·.grant step)).instances) (ha : i.isAvailable = true) :
    i ∈ s.instances ∧ i.id ≠ id := by
  rw [modify_eq_each] at hi
  obtain ⟨j, hj, rfl⟩ := mem_each.1 hi
  by_cases hid : j.id = id
  · simp [hid, Instance.grant, Instance.isAvailable] at ha
  · simpa [hid] using hj

theorem firstChoice?_eq_some {s : Store} {chain : List Preference} {i : Instance} {p : Preference}
    (h : s.firstChoice? chain = some (i, p)) :
    p ∈ chain ∧ i ∈ s.instances ∧ i.isAvailable = true ∧ s.accepts p i = true := by
  obtain ⟨q, hq, hsome⟩ := List.exists_of_findSome?_eq_some h
  obtain ⟨j, hj, heq⟩ := Option.map_eq_some_iff.1 hsome
  obtain ⟨rfl, rfl⟩ := Prod.mk.inj heq
  have hmeets := List.find?_some hj
  rw [Bool.and_eq_true] at hmeets
  exact ⟨hq, List.mem_of_find?_eq_some hj, hmeets.1, hmeets.2⟩

/-- A choice that is allowed once an instance was given was allowed before. -/
theorem Allows.of_modify_grant {s : Store} {id step : String} {r : Requirement} {c : Choice}
    (h : (s.modify id (·.grant step)).Allows r c) : s.Allows r c where
  requirement := h.requirement
  mem := (mem_modify_grant h.mem h.available).1
  available := h.available
  preference := h.preference
  accepts := by
    have := h.accepts
    rwa [modify_eq_each, accepts_each s (id_grant_if id step)] at this

theorem exists_of_mem_right {α β : Type} {R : α → β → Prop} {l : List α} {m : List β}
    (h : List.Forall₂ R l m) {b : β} (hb : b ∈ m) : ∃ a ∈ l, R a b := by
  induction h with
  | nil => exact absurd hb List.not_mem_nil
  | cons hab _ ih =>
    rcases List.mem_cons.1 hb with rfl | hb
    · exact ⟨_, List.mem_cons_self, hab⟩
    · obtain ⟨a, ha, hr⟩ := ih hb
      exact ⟨a, List.mem_cons_of_mem _ ha, hr⟩

/-- A walk to the end meets every requirement with an instance of its own, and gives the instances
to the step. -/
theorem walk_eq_none {step : String} {requirements : List Requirement} {s after : Store}
    {choices : List Choice} (h : walk step requirements s = (choices, after, none)) :
    List.Forall₂ s.Allows requirements choices ∧ (chosenIds choices).Nodup ∧
      after = s.grantAll step (chosenIds choices) := by
  induction requirements generalizing s choices with
  | nil =>
    obtain ⟨rfl, rfl⟩ : [] = choices ∧ s = after := by simpa [walk] using h
    exact ⟨.nil, List.nodup_nil, (grantAll_nil s step).symm⟩
  | cons r rest ih =>
    cases hr : s.firstChoice? r.chain with
    | none => simp [walk, hr] at h
    | some chosen =>
      obtain ⟨i, p⟩ := chosen
      obtain ⟨hp, hi, ha, hacc⟩ := firstChoice?_eq_some hr
      rcases hw : walk step rest (s.modify i.id (·.grant step)) with ⟨others, final, unmet⟩
      obtain ⟨rfl, rfl, rfl⟩ :
          ⟨r.name, i, p⟩ :: others = choices ∧ final = after ∧ unmet = none := by
        simpa [walk, hr, hw] using h
      obtain ⟨hall, hnodup, rfl⟩ := ih hw
      -- what is chosen later is still available after `i` was given, so it is not `i`
      have hnot : i.id ∉ chosenIds others := by
        intro hmem
        obtain ⟨c, hc, hid⟩ := List.mem_map.1 hmem
        obtain ⟨r', -, hallow⟩ := exists_of_mem_right hall hc
        exact (mem_modify_grant hallow.mem hallow.available).2 hid
      refine ⟨.cons ⟨rfl, hi, ha, hp, hacc⟩ (hall.imp fun _ _ h => h.of_modify_grant), ?_, ?_⟩
      · exact List.nodup_cons.2 ⟨hnot, hnodup⟩
      · exact (grantAll_cons s step i.id (chosenIds others)).symm

/-- A walk that stops early has met the requirements before the one it stops at, none of whose
preferences can be met then. -/
theorem walk_eq_some {step : String} {requirements : List Requirement} {s after : Store}
    {choices : List Choice} {r : Requirement}
    (h : walk step requirements s = (choices, after, some r)) :
    ∃ met later, requirements = met ++ r :: later ∧ walk step met s = (choices, after, none) ∧
      after.firstChoice? r.chain = none := by
  induction requirements generalizing s choices with
  | nil => simp [walk] at h
  | cons q rest ih =>
    cases hq : s.firstChoice? q.chain with
    | none =>
      obtain ⟨rfl, rfl, rfl⟩ : [] = choices ∧ s = after ∧ q = r := by simpa [walk, hq] using h
      exact ⟨[], rest, rfl, rfl, hq⟩
    | some chosen =>
      obtain ⟨i, p⟩ := chosen
      rcases hw : walk step rest (s.modify i.id (·.grant step)) with ⟨others, final, unmet⟩
      obtain ⟨rfl, rfl, rfl⟩ :
          ⟨q.name, i, p⟩ :: others = choices ∧ final = after ∧ unmet = some r := by
        simpa [walk, hq, hw] using h
      obtain ⟨met, later, rfl, hmet, hnone⟩ := ih hw
      exact ⟨q :: met, later, rfl, by simp [walk, hq, hmet], hnone⟩

/-- The ids of what was chosen are those of instances of the store. -/
theorem chosenIds_subset {s : Store} {requirements : List Requirement} {choices : List Choice}
    (h : List.Forall₂ s.Allows requirements choices) : ∀ id ∈ chosenIds choices, id ∈ s.ids := by
  intro id hid
  obtain ⟨c, hc, rfl⟩ := List.mem_map.1 hid
  obtain ⟨r, -, hallow⟩ := exists_of_mem_right h hc
  exact List.mem_map_of_mem hallow.mem

/-- The instances chosen by a walk were available. -/
theorem allAvailable_chosenIds {s : Store} (hs : s.Sound) {requirements : List Requirement}
    {choices : List Choice} (h : List.Forall₂ s.Allows requirements choices) :
    s.AllAvailable (chosenIds choices) := by
  intro i hi hmem
  obtain ⟨c, hc, hid⟩ := List.mem_map.1 hmem
  obtain ⟨r, -, hallow⟩ := exists_of_mem_right h hc
  rw [← hs.eq_of_id_eq hallow.mem hi hid]
  exact hallow.available

/-! ### An allocation is the walk -/

/-- What is remembered of kinds is what they offer. -/
def Faithful (kinds : Kinds) (memory : Memory) : Prop :=
  ∀ kind offered, memory.get? kind = some offered → offered = kinds.effective kind

theorem recollect_spec {kinds : Kinds} {memory : Memory} (h : Faithful kinds memory)
    (kind : String) :
    (recollect kinds memory kind).1 = kinds.effective kind ∧
      Faithful kinds (recollect kinds memory kind).2.1 := by
  unfold recollect
  cases hk : memory.get? kind with
  | some offered => exact ⟨h kind offered hk, h⟩
  | none =>
    refine ⟨rfl, fun kind' offered hget => ?_⟩
    rw [Table.get?_insert] at hget
    split_ifs at hget with heq
    · rw [heq, ← Option.some.inj hget]
    · exact h kind' offered hget

/-- An available instance of a name, or of the kind of that name, is found as the walk finds it. -/
theorem specific?_eq_earliest? {s : Store} (hs : s.Sound) (name : String) :
    s.specific? name = s.earliest? (.specific name) := by
  unfold specific? earliest?
  cases hi : s.instance? name with
  | none =>
    have hhas : s.has name = false := by simp [has, hi]
    simp [accepts, hhas, Bool.and_comm]
  | some i =>
    obtain ⟨hmem, rfl⟩ := mem_of_instance?_eq_some hi
    have hhas : s.has i.id = true := by simp [has, hi]
    simp only [accepts, hhas, if_true]
    symm
    split_ifs with ha
    · exact hs.find?_eq_some hmem (by simp [ha]) fun j hj => by simp_all
    · rw [List.find?_eq_none]
      intro j hj hboth
      obtain ⟨hja, hid⟩ : j.isAvailable = true ∧ j.id = i.id := by simpa using hboth
      exact ha (hs.eq_of_id_eq hj hmem hid ▸ hja)

/-- What is remembered makes no difference to the instance that is found. -/
theorem firstMatching_spec {kinds : Kinds} (matcher : Characteristics) {memory : Memory}
    (h : Faithful kinds memory) (instances : List Instance) :
    (firstMatching kinds matcher memory instances).1 =
        instances.find? (fun i => i.isAvailable && matcher.accepts (kinds.effective i.kind)) ∧
      Faithful kinds (firstMatching kinds matcher memory instances).2.1 := by
  induction instances generalizing memory with
  | nil => exact ⟨rfl, h⟩
  | cons i rest ih =>
    cases ha : i.isAvailable with
    | false => simpa [firstMatching, ha] using ih h
    | true =>
      obtain ⟨hoffered, hmemory⟩ := recollect_spec h i.kind
      rcases hr : recollect kinds memory i.kind with ⟨offered, memory', notices⟩
      rw [hr] at hoffered hmemory
      dsimp only at hoffered hmemory
      subst hoffered
      cases hacc : matcher.accepts (kinds.effective i.kind) with
      | true => simpa [firstMatching, ha, hr, hacc] using hmemory
      | false => simpa [firstMatching, ha, hr, hacc] using ih hmemory

end Store

namespace Allocation

open Store

/-- A later state of an allocation in which nothing more was given, with a memory that is right. -/
structure Ponders (a b : Allocation) : Prop where
  /-- The store is the same. -/
  store : b.store = a.store
  /-- So is what has been given. -/
  given : b.given = a.given
  /-- What is remembered is right. -/
  faithful : Faithful b.store.kinds b.memory

@[simp] theorem store_give (a : Allocation) (requirement : String) (i : Instance) (p : Preference) :
    (a.give requirement i p).store = a.store.modify i.id (·.grant a.given.step) := rfl

theorem given_give (a : Allocation) (requirement : String) (i : Instance) (p : Preference) :
    (a.give requirement i p).given = a.given.extend [⟨requirement, i, p⟩] := by
  cases p <;> rfl

theorem candidate_spec {a : Allocation} (hs : a.store.Sound)
    (hm : Faithful a.store.kinds a.memory) (p : Preference) :
    (a.candidate p).1 = a.store.earliest? p ∧ a.Ponders (a.candidate p).2 := by
  have hmatching (matcher : Characteristics) := firstMatching_spec matcher hm a.store.instances
  cases p with
  | specific name =>
    exact ⟨specific?_eq_earliest? hs name, rfl, rfl, hm⟩
  | matching matcher => exact ⟨(hmatching matcher).1, rfl, rfl, (hmatching matcher).2⟩
  | emergency matcher warning => exact ⟨(hmatching matcher).1, rfl, rfl, (hmatching matcher).2⟩

theorem choose_spec {a : Allocation} (hs : a.store.Sound)
    (hm : Faithful a.store.kinds a.memory) (chain : List Preference) :
    (a.choose chain).1 = a.store.firstChoice? chain ∧ a.Ponders (a.choose chain).2 := by
  induction chain generalizing a with
  | nil => exact ⟨rfl, rfl, rfl, hm⟩
  | cons p rest ih =>
    obtain ⟨hfound, hpond⟩ := candidate_spec hs hm p
    rcases hc : a.candidate p with ⟨found, b⟩
    rw [hc] at hfound hpond
    dsimp only at hfound hpond
    subst hfound
    cases he : a.store.earliest? p with
    | some i => simpa [choose, hc, he, firstChoice?] using hpond
    | none =>
      obtain ⟨hrest, hpond'⟩ := ih (a := b) (by rw [hpond.store]; exact hs) hpond.faithful
      rw [hpond.store] at hrest
      simp only [choose, hc, he, firstChoice?, List.findSome?_cons, Option.map_none]
      exact ⟨hrest, hpond'.store.trans hpond.store, hpond'.given.trans hpond.given,
        hpond'.faithful⟩

/-- An allocation under way chooses what the walk chooses, and stops where it stops. -/
theorem meet_eq_walk {a : Allocation} (hs : a.store.Sound)
    (hm : Faithful a.store.kinds a.memory) (requirements : List Requirement) :
    (a.meet requirements).1 = (walk a.given.step requirements a.store).2.2 ∧
      (a.meet requirements).2.store = (walk a.given.step requirements a.store).2.1 ∧
      (a.meet requirements).2.given =
        a.given.extend (walk a.given.step requirements a.store).1 := by
  induction requirements generalizing a with
  | nil => exact ⟨rfl, rfl, by simp [meet, walk, Allotment.extend]⟩
  | cons r rest ih =>
    obtain ⟨hchosen, hpond⟩ := choose_spec hs hm r.chain
    rcases hc : a.choose r.chain with ⟨chosen, b⟩
    rw [hc] at hchosen hpond
    dsimp only at hchosen hpond
    subst hchosen
    cases hf : a.store.firstChoice? r.chain with
    | none =>
      simp only [meet, walk, hc, hf]
      exact ⟨trivial, hpond.store, by simp [hpond.given, Allotment.extend]⟩
    | some chosen =>
      obtain ⟨i, p⟩ := chosen
      simp only [meet, walk, hc, hf]
      obtain ⟨hend, hstore, hgiven⟩ := ih (a := b.give r.name i p)
        (by rw [store_give, hpond.store, hpond.given]; exact hs.modify_grant i.id a.given.step)
        hpond.faithful
      rw [store_give, given_give, hpond.store, hpond.given] at hend hstore hgiven
      exact ⟨hend, hstore, hgiven.trans (Allotment.extend_extend ..)⟩

end Allocation

namespace Store

/-- What a step of a sound store is given is what the walk gives, and the store afterwards is the
same too. -/
theorem allocate_eq_walk {s : Store} (hs : s.Sound) (step : String)
    (requirements : List Requirement) :
    (s.allocate step requirements).1 = (s.allocateGreedily step requirements).1 ∧
      (s.allocate step requirements).2.1 = (s.allocateGreedily step requirements).2 := by
  have hfaithful : Faithful s.kinds .empty := fun kind offered h => by simp at h
  obtain ⟨hend, hstore, hgiven⟩ := Allocation.meet_eq_walk
    (a := { store := s, given := { step } }) hs hfaithful requirements
  rcases hw : walk step requirements s with ⟨choices, after, unmet⟩
  rcases hm : ({ store := s, given := { step } } : Allocation).meet requirements with ⟨stop, a⟩
  rw [hw, hm] at hend hstore hgiven
  dsimp only at hend hstore hgiven
  subst hend hstore
  cases stop with
  | none => simp [allocate, allocateGreedily, hm, hw, hgiven]
  | some r =>
    obtain ⟨met, -, -, hmet, -⟩ := walk_eq_some hw
    obtain ⟨hall, -, hafter⟩ := walk_eq_none hmet
    have hids : a.given.instanceIds = chosenIds choices := by
      rw [hgiven]
      exact instanceIds_extend step choices
    have hback : a.store.takeBack a.given.instanceIds = s := by
      rw [hids, hafter]
      exact hs.takeBack_grantAll (allAvailable_chosenIds hs hall)
    simp [allocate, allocateGreedily, hm, hw, hback]

/-- A step that is refused leaves the store as it was. -/
theorem allocate_error {s : Store} (hs : s.Sound) {step : String} {requirements : List Requirement}
    {f : Failure} (h : (s.allocate step requirements).1 = .error f) :
    (s.allocate step requirements).2.1 = s ∧ ∃ choices after r,
      walk step requirements s = (choices, after, some r) ∧ f = .unmet step r.name := by
  obtain ⟨hfirst, hsecond⟩ := allocate_eq_walk hs step requirements
  rcases hw : walk step requirements s with ⟨choices, after, _ | r⟩
  · simp [hfirst, allocateGreedily, hw] at h
  · rw [hfirst] at h
    refine ⟨by rw [hsecond, allocateGreedily, hw], choices, after, r, rfl, ?_⟩
    simpa [allocateGreedily, hw, eq_comm] using h

/-- A step that is given what it requires is given what the walk chooses. -/
theorem allocate_ok {s : Store} (hs : s.Sound) {step : String} {requirements : List Requirement}
    {given : Allotment} (h : (s.allocate step requirements).1 = .ok given) :
    ∃ choices, walk step requirements s = (choices, (s.allocate step requirements).2.1, none) ∧
      given = ({ step } : Allotment).extend choices := by
  obtain ⟨hfirst, hsecond⟩ := allocate_eq_walk hs step requirements
  rcases hw : walk step requirements s with ⟨choices, after, _ | r⟩
  · rw [hfirst] at h
    refine ⟨choices, by rw [hsecond, allocateGreedily, hw], ?_⟩
    simpa [allocateGreedily, hw, eq_comm] using h
  · simp [hfirst, allocateGreedily, hw] at h

theorem Sound.allocate {s : Store} (hs : s.Sound) (step : String)
    (requirements : List Requirement) : (s.allocate step requirements).2.1.Sound := by
  cases h : (s.allocate step requirements).1 with
  | error f => rw [(allocate_error hs h).1]; exact hs
  | ok given =>
    obtain ⟨choices, hw, -⟩ := allocate_ok hs h
    rw [(walk_eq_none hw).2.2]
    exact hs.grantAll step (chosenIds choices)

end Store

end Foreman
