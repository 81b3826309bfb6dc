import Foreman.Proofs.Store.Available
/-!
# Contention

Several steps ask for the same things, one after another, and none gives anything back. What counts
is how many available instances are *eligible*: those that meet some preference of the requirement.
Whether an instance meets a preference does not depend on who holds what, every copy of the
requirement takes one eligible instance, and no eligible instance is ever missed. So each step that
is given what it requires leaves so many fewer, until there are too few for any other.

## Main definitions

* `Foreman.Store.eligible`: the available instances that meet some preference of a chain.
* `Foreman.Store.contend`: steps ask for the same things, one after another.

## Main results

* `Foreman.Store.Sound.allocate_replicate`: a step is given copies of one requirement exactly when
  there are as many eligible instances, and that many fewer are left.
* `Foreman.Store.contend_counts`: how many of the steps are given what they require.
-/

namespace Foreman.Store

/-- The available instances that meet some preference of a chain, in the order of registration. -/
def eligible (s : Store) (chain : List Preference) : List Instance :=
  s.available.filter fun i => chain.any fun p => s.accepts p i

/-! ### Copies of one requirement -/

/-- A requirement cannot be met exactly when no instance is eligible. -/
theorem firstChoice?_eq_none_iff {s : Store} {chain : List Preference} :
    s.firstChoice? chain = none ↔ s.eligible chain = [] := by
  simp only [firstChoice?_eq_pick?, pick?, eligible, List.findSome?_eq_none_iff,
    Option.map_eq_none_iff, List.find?_eq_none, List.filter_eq_nil_iff, List.any_eq_true]
  constructor
  · rintro h i hi ⟨p, hp, hmeets⟩
    exact h p hp i hi hmeets
  · intro h p hp i hi hmeets
    exact h i hi ⟨p, hp, hmeets⟩

theorem mem_eligible_of_firstChoice? {s : Store} {chain : List Preference} {i : Instance}
    {p : Preference} (h : s.firstChoice? chain = some (i, p)) : i ∈ s.eligible chain := by
  obtain ⟨hp, hi, havailable, haccepts⟩ := firstChoice?_eq_some h
  exact List.mem_filter.2
    ⟨mem_available.2 ⟨hi, havailable⟩, List.any_eq_true.2 ⟨p, hp, haccepts⟩⟩

theorem eligible_modify_grant (s : Store) (id step : String) (chain : List Preference) :
    (s.modify id (·.grant step)).eligible chain = (s.eligible chain).filter (·.id ≠ id) := by
  simp only [eligible, available_modify_grant, accepts_modify_grant, List.filter_filter,
    Bool.and_comm]

/-- Once an eligible instance was given, one fewer is eligible. -/
theorem Sound.length_eligible_modify_grant {s : Store} (hs : s.Sound) {chain : List Preference}
    {i : Instance} (hi : i ∈ s.eligible chain) (step : String) :
    ((s.modify i.id (·.grant step)).eligible chain).length + 1 = (s.eligible chain).length := by
  obtain ⟨before, after, hsplit⟩ := List.append_of_mem hi
  have hnodup : ((before ++ i :: after).map Instance.id).Nodup := by
    rw [← hsplit]
    exact hs.nodup_available.sublist (List.filter_sublist.map _)
  rw [eligible_modify_grant, hsplit, filter_id_ne hnodup]
  simp only [List.length_append, List.length_cons]
  omega

/-- The walk meets copies of one requirement as long as instances are eligible, each of which it
takes. -/
theorem Sound.walk_replicate {s : Store} (hs : s.Sound) (step : String) (r : Requirement)
    (copies : ℕ) :
    (copies ≤ (s.eligible r.chain).length →
      ∃ choices after, walk step (List.replicate copies r) s = (choices, after, none) ∧
        (after.eligible r.chain).length + copies = (s.eligible r.chain).length) ∧
    ((s.eligible r.chain).length < copies →
      ∃ choices after, walk step (List.replicate copies r) s = (choices, after, some r)) := by
  induction copies generalizing s with
  | zero => exact ⟨fun _ => ⟨[], s, rfl, rfl⟩, fun h => absurd h (Nat.not_lt_zero _)⟩
  | succ copies ih =>
    rw [List.replicate_succ]
    cases hr : s.firstChoice? r.chain with
    | none =>
      have hnone := congrArg List.length (firstChoice?_eq_none_iff.1 hr)
      refine ⟨fun hle => ?_, fun _ => ⟨[], s, by simp [walk, hr]⟩⟩
      simp only [List.length_nil] at hnone
      omega
    | some chosen =>
      obtain ⟨i, p⟩ := chosen
      have hfewer := hs.length_eligible_modify_grant (mem_eligible_of_firstChoice? hr) step
      obtain ⟨hmet, hunmet⟩ := ih (hs.modify_grant i.id step)
      refine ⟨fun hle => ?_, fun hlt => ?_⟩
      · obtain ⟨choices, after, hwalk, hleft⟩ := hmet (by omega)
        exact ⟨⟨r.name, i, p⟩ :: choices, after, by simp [walk, hr, hwalk], by omega⟩
      · obtain ⟨choices, after, hwalk⟩ := hunmet (by omega)
        exact ⟨⟨r.name, i, p⟩ :: choices, after, by simp [walk, hr, hwalk]⟩

/-- A step that asks for copies of one requirement is given them if there are as many eligible
instances, and that many fewer are eligible then. Otherwise it is refused, and nothing changes. -/
theorem Sound.allocate_replicate {s : Store} (hs : s.Sound) (step : String) (r : Requirement)
    (copies : ℕ) :
    (copies ≤ (s.eligible r.chain).length →
      ∃ given, (s.allocate step (List.replicate copies r)).1 = .ok given ∧
        ((s.allocate step (List.replicate copies r)).2.1.eligible r.chain).length + copies =
          (s.eligible r.chain).length) ∧
    ((s.eligible r.chain).length < copies →
      (s.allocate step (List.replicate copies r)).1 = .error (.unmet step r.name) ∧
        (s.allocate step (List.replicate copies r)).2.1 = s) := by
  obtain ⟨hmet, hunmet⟩ := hs.walk_replicate step r copies
  refine ⟨fun hle => ?_, fun hlt => ?_⟩
  · obtain ⟨choices, after, hwalk, hleft⟩ := hmet hle
    obtain ⟨hgiven, hafter⟩ := hs.allocate_of_walk hwalk
    exact ⟨_, hgiven, hafter ▸ hleft⟩
  · obtain ⟨choices, after, hwalk⟩ := hunmet hlt
    exact hs.allocate_of_walk_some hwalk

/-! ### One step after another -/

/-- Steps ask for the same things, one after another. What becomes of each, and the store
afterwards. -/
def contend (s : Store) (requirements : List Requirement) :
    List String → List (Except Failure Allotment) × Store
  | [] => ([], s)
  | step :: rest =>
    let later := (s.allocate step requirements).2.1.contend requirements rest
    ((s.allocate step requirements).1 :: later.1, later.2)

/-- What any of the steps is given was available in the beginning. -/
theorem Sound.available_of_contend {s : Store} (hs : s.Sound) {requirements : List Requirement}
    {steps : List String} {given : Allotment} (h : .ok given ∈ (s.contend requirements steps).1) :
    ∀ id ∈ given.instanceIds, id ∈ s.available.map Instance.id := by
  induction steps generalizing s with
  | nil => exact absurd h List.not_mem_nil
  | cons step rest ih =>
    rcases List.mem_cons.1 h with hfirst | hlater
    · exact (hs.available_allocate hfirst.symm).2
    · intro id hid
      have hafter := ih (hs.allocate step requirements) hlater id hid
      cases hresult : (s.allocate step requirements).1 with
      | error f => rwa [(allocate_error hs hresult).1] at hafter
      | ok other =>
        rw [(hs.available_allocate hresult).1] at hafter
        exact List.map_subset _ (List.filter_subset_self _) hafter

/-- No instance is given to two of the steps. -/
theorem Sound.pairwise_disjoint_contend {s : Store} (hs : s.Sound)
    (requirements : List Requirement) (steps : List String) :
    (s.contend requirements steps).1.Pairwise fun a b => ∀ given other, a = .ok given →
      b = .ok other → given.instanceIds.Disjoint other.instanceIds := by
  induction steps generalizing s with
  | nil => exact .nil
  | cons step rest ih =>
    refine .cons (fun b hb given other hgiven hother id hid hid' => ?_)
      (ih (hs.allocate step requirements))
    -- what the first was given is not available to the others
    have hafter := (hs.allocate step requirements).available_of_contend (hother ▸ hb) id hid'
    rw [(hs.available_allocate hgiven).1] at hafter
    obtain ⟨i, hi, rfl⟩ := List.mem_map.1 hafter
    simp [hid] at hi

/-- So many steps are given copies of one requirement as there are eligible instances for. -/
theorem Sound.countP_contend {s : Store} (hs : s.Sound) (r : Requirement) {copies : ℕ}
    (hcopies : 0 < copies) (steps : List String) :
    (s.contend (List.replicate copies r) steps).1.countP Except.isOk =
      min steps.length ((s.eligible r.chain).length / copies) := by
  induction steps generalizing s with
  | nil => simp [contend]
  | cons step rest ih =>
    obtain ⟨hmet, hunmet⟩ := hs.allocate_replicate step r copies
    have hrest := ih (hs.allocate step (List.replicate copies r))
    rw [contend, List.countP_cons, hrest, List.length_cons]
    rcases Nat.lt_or_ge (s.eligible r.chain).length copies with hlt | hle
    · obtain ⟨hrefused, hsame⟩ := hunmet hlt
      rw [hsame, hrefused, Nat.div_eq_of_lt hlt]
      simp [Except.isOk, Except.toBool]
    · obtain ⟨given, hgiven, hleft⟩ := hmet hle
      rw [hgiven, ← hleft, Nat.add_div_right _ hcopies]
      simp only [Except.isOk, Except.toBool, if_true]
      omega

/-- What becomes of one of the steps is what an allocation comes to once those before it have been
served. -/
theorem getElem?_contend (s : Store) (requirements : List Requirement) (earlier later : List String)
    (step : String) :
    (s.contend requirements (earlier ++ step :: later)).1[earlier.length]? =
      some ((s.contend requirements earlier).2.allocate step requirements).1 := by
  induction earlier generalizing s with
  | nil => rfl
  | cons other rest ih => simpa [contend] using ih _

theorem Sound.contend {s : Store} (hs : s.Sound) (requirements : List Requirement)
    (steps : List String) : (s.contend requirements steps).2.Sound := by
  induction steps generalizing s with
  | nil => exact hs
  | cons step rest ih => exact ih (hs.allocate step requirements)

/-- Contention, counted. In a reachable store, let steps ask one after another for the same number
of copies of one requirement, whatever its preferences, and let nothing else happen to the store.
Then as many of the steps are given them, if there are so many steps, as the number of copies goes
into the number of available instances that meet some preference of the requirement. No instance is
given to two steps. Any other step is refused the requirement, and its asking changes nothing. -/
theorem contend_counts {s : Store} (hs : s.Reachable) (r : Requirement) {copies : ℕ}
    (hcopies : 0 < copies) (steps : List String) :
    let requirements := List.replicate copies r
    let results := (s.contend requirements steps).1
    results.countP Except.isOk = min steps.length ((s.eligible r.chain).length / copies) ∧
    (results.Pairwise fun a b => ∀ given other, a = .ok given → b = .ok other →
      given.instanceIds.Disjoint other.instanceIds) ∧
    ∀ earlier step later, steps = earlier ++ step :: later →
      let t := (s.contend requirements earlier).2
      results[earlier.length]? = some (t.allocate step requirements).1 ∧
      ((∃ given, (t.allocate step requirements).1 = .ok given) ∨
        (t.allocate step requirements).1 = .error (.unmet step r.name) ∧
          (t.allocate step requirements).2.1 = t) := by
  intro requirements results
  refine ⟨hs.sound.countP_contend r hcopies steps,
    hs.sound.pairwise_disjoint_contend requirements steps, ?_⟩
  rintro earlier step later rfl t
  refine ⟨s.getElem?_contend requirements earlier later step, ?_⟩
  obtain ⟨hmet, hunmet⟩ := (hs.sound.contend requirements earlier).allocate_replicate step r copies
  rcases Nat.lt_or_ge (t.eligible r.chain).length copies with hlt | hle
  · exact .inr (hunmet hlt)
  · obtain ⟨given, hgiven, -⟩ := hmet hle
    exact .inl ⟨given, hgiven⟩

/-- Anybody at work in the kitchen who speaks the language, and the porter above all. -/
def helper : Requirement :=
  { name := "helper"
    preferences := [.specific "toad",
      .emergency (.ofList [("language", .text "en")]) "anyone will do"] }

/-- The kitchen after three more have come. -/
def crowdedKitchen : Store :=
  (performAll kitchen [.register "daisy" "chef" .empty default,
    .register "wario" "staff" .empty default, .register "yoshi" "staff" .empty default]).2

theorem reachable_crowdedKitchen : crowdedKitchen.Reachable :=
  reachable_kitchen.performAll _

/-- Five are there to help, so two of three steps can have two helpers each. -/
theorem contend_counts_kitchen :
    let results :=
      (crowdedKitchen.contend (List.replicate 2 helper) ["roast", "bake", "serve"]).1
    crowdedKitchen.Reachable ∧ 0 < 2 ∧ (crowdedKitchen.eligible helper.chain).length = 5 ∧
      results.countP Except.isOk = 2 ∧
      results = [
        .ok ⟨"roast", [⟨"helper", "luigi", "chef", .emergency⟩,
          ⟨"helper", "peach", "staff", .emergency⟩], ["anyone will do", "anyone will do"]⟩,
        .ok ⟨"bake", [⟨"helper", "daisy", "chef", .emergency⟩,
          ⟨"helper", "wario", "staff", .emergency⟩], ["anyone will do", "anyone will do"]⟩,
        .error (.unmet "serve" "helper")] := by
  intro results
  obtain ⟨hcount, -, -⟩ :=
    contend_counts reachable_crowdedKitchen helper Nat.two_pos ["roast", "bake", "serve"]
  have hfive : (crowdedKitchen.eligible helper.chain).length = 5 := by decide +kernel
  rw [hfive] at hcount
  exact ⟨reachable_crowdedKitchen, Nat.two_pos, hfive, hcount, by decide +kernel⟩

end Foreman.Store
