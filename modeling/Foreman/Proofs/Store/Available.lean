import Foreman.Proofs.Store.Allotment
/-!
# What is available

All that an allocation depends on is which instances are available, in what order they were
registered, and which preferences each of them meets. Who holds the others makes no difference, and
neither does the id of the step that asks.

So more is never less. With one more available instance at its disposal the greedy walk may choose
otherwise from some requirement on, but at every moment it has just one instance left over that it
would not have had otherwise: the new one, or the one that it took the new one instead of.

## Main definitions

* `Foreman.Store.available`: the available instances.
* `Foreman.Store.pick?`: the first preference that some instance of a list meets.
* `Foreman.Store.HasOneMore`: a store in which one more instance is available than in another.

## Main results

* `Foreman.Store.firstChoice?_eq_pick?`: the choice of the walk depends on what is available.
* `Foreman.Store.walk_congr`: so does the whole walk.
* `Foreman.Store.allocate_register`: one more instance never makes an allocation fail.
-/

namespace Foreman.Store

/-- The available instances, in the order of registration. -/
def available (s : Store) : List Instance :=
  s.instances.filter (·.isAvailable)

theorem mem_available {s : Store} {i : Instance} :
    i ∈ s.available ↔ i ∈ s.instances ∧ i.isAvailable = true :=
  List.mem_filter

theorem Sound.nodup_available {s : Store} (hs : s.Sound) :
    (s.available.map Instance.id).Nodup :=
  hs.nodup.sublist (List.filter_sublist.map _)

@[simp] theorem isAvailable_grant (i : Instance) (step : String) :
    (i.grant step).isAvailable = false := rfl

/-- What is given to a step is not available any more, and all else is as available as it was. -/
theorem available_grantAll (s : Store) (step : String) (ids : List String) :
    (s.grantAll step ids).available = s.available.filter (·.id ∉ ids) := by
  simp only [available, grantAll, each]
  induction s.instances with
  | nil => rfl
  | cons i rest ih =>
    by_cases hmem : i.id ∈ ids
    · by_cases ha : i.isAvailable <;> simp [hmem, ha, ih]
    · by_cases ha : i.isAvailable <;> simp [hmem, ha, ih]

theorem available_modify_grant (s : Store) (id step : String) :
    (s.modify id (·.grant step)).available = s.available.filter (·.id ≠ id) := by
  have h := available_grantAll s step [id]
  simpa [grantAll_cons, grantAll_nil] using h

theorem accepts_modify_grant (s : Store) (id step : String) (p : Preference) (i : Instance) :
    (s.modify id (·.grant step)).accepts p i = s.accepts p i := by
  rw [modify_eq_each]
  exact accepts_each s (id_grant_if id step) p i

/-! ### Choosing from a list -/

/-- The first preference of a chain that some instance of a list meets, with the first of these
instances, where it is said which instances meet which preferences. -/
def pick? (meets : Preference → Instance → Bool) (pool : List Instance) (chain : List Preference) :
    Option (Instance × Preference) :=
  chain.findSome? fun p => (pool.find? (meets p)).map (·, p)

/-- The walk chooses from what is available. -/
theorem firstChoice?_eq_pick? (s : Store) (chain : List Preference) :
    s.firstChoice? chain = pick? s.accepts s.available chain := by
  simp [firstChoice?, pick?, earliest?, available, List.find?_filter]

theorem pick?_congr {meets meets' : Preference → Instance → Bool} {pool : List Instance}
    (h : ∀ p, ∀ i ∈ pool, meets p i = meets' p i) (chain : List Preference) :
    pick? meets pool chain = pick? meets' pool chain := by
  unfold pick?
  congr 1
  funext p
  rw [← List.head?_filter, List.filter_congr (h p), List.head?_filter]

/-- One more member of a list is found, or what was found before. -/
private theorem find?_append_cons {α : Type} (found : α → Bool) (before after : List α) (x : α) :
    (before ++ x :: after).find? found = some x ∨
      (before ++ x :: after).find? found = (before ++ after).find? found := by
  simp only [List.find?_append, List.find?_cons]
  cases before.find? found with
  | some i => exact .inr rfl
  | none => cases found x <;> simp

/-- With one more instance to choose from, that one is chosen, or what was chosen before. -/
theorem pick?_append_cons {meets : Preference → Instance → Bool} {before after : List Instance}
    {chain : List Preference} {i : Instance} {p : Preference}
    (h : pick? meets (before ++ after) chain = some (i, p)) (x : Instance) :
    (∃ q, pick? meets (before ++ x :: after) chain = some (x, q)) ∨
      pick? meets (before ++ x :: after) chain = some (i, p) := by
  induction chain with
  | nil => simp [pick?] at h
  | cons q rest ih =>
    simp only [pick?, List.findSome?_cons] at h ih ⊢
    rcases find?_append_cons (meets q) before after x with hx | hsame
    · exact .inl ⟨q, by simp [hx]⟩
    · rw [hsame]
      cases hq : (before ++ after).find? (meets q) with
      | some j => exact .inr (by simpa [hq] using h)
      | none => exact ih (by simpa [hq] using h)

/-! ### The walk and what is available -/

/-- The same instances are available in two stores, and meet the same preferences. -/
structure Alike (s t : Store) : Prop where
  /-- The same instances are available, in the same order. -/
  available : t.available = s.available
  /-- They meet the same preferences. -/
  accepts : ∀ p i, t.accepts p i = s.accepts p i

theorem Alike.firstChoice? {s t : Store} (h : s.Alike t) (chain : List Preference) :
    t.firstChoice? chain = s.firstChoice? chain := by
  rw [firstChoice?_eq_pick?, firstChoice?_eq_pick?, h.available]
  exact pick?_congr (fun p i _ => h.accepts p i) chain

theorem Alike.modify_grant {s t : Store} (h : s.Alike t) (id step other : String) :
    (s.modify id (·.grant step)).Alike (t.modify id (·.grant other)) where
  available := by rw [available_modify_grant, available_modify_grant, h.available]
  accepts p i := by rw [accepts_modify_grant, accepts_modify_grant, h.accepts]

/-- Where the same instances are available and meet the same preferences, the walk chooses the same
instances and stops at the same requirement, whichever step asks. -/
theorem walk_congr {s t : Store} (h : s.Alike t) (step other : String)
    (requirements : List Requirement) :
    (walk other requirements t).1 = (walk step requirements s).1 ∧
      (walk other requirements t).2.2 = (walk step requirements s).2.2 := by
  induction requirements generalizing s t with
  | nil => exact ⟨rfl, rfl⟩
  | cons r rest ih =>
    simp only [walk, h.firstChoice? r.chain]
    cases s.firstChoice? r.chain with
    | none => exact ⟨rfl, rfl⟩
    | some chosen =>
      obtain ⟨i, p⟩ := chosen
      obtain ⟨hchoices, hunmet⟩ := ih (h.modify_grant i.id step other)
      exact ⟨congrArg (⟨r.name, i, p⟩ :: ·) hchoices, hunmet⟩

/-- What a walk to the end chooses is what a step is given. -/
theorem Sound.allocate_of_walk {s : Store} (hs : s.Sound) {step : String}
    {requirements : List Requirement} {choices : List Choice} {after : Store}
    (h : walk step requirements s = (choices, after, none)) :
    (s.allocate step requirements).1 = .ok (({ step } : Allotment).extend choices) ∧
      (s.allocate step requirements).2.1 = after := by
  obtain ⟨hresult, hafter⟩ := allocate_eq_walk hs step requirements
  rw [hresult, hafter]
  simp [allocateGreedily, h]

/-- A step is refused the requirement that the walk stops at, and nothing changes. -/
theorem Sound.allocate_of_walk_some {s : Store} (hs : s.Sound) {step : String}
    {requirements : List Requirement} {choices : List Choice} {after : Store} {r : Requirement}
    (h : walk step requirements s = (choices, after, some r)) :
    (s.allocate step requirements).1 = .error (.unmet step r.name) ∧
      (s.allocate step requirements).2.1 = s := by
  obtain ⟨hresult, hafter⟩ := allocate_eq_walk hs step requirements
  rw [hresult, hafter]
  simp [allocateGreedily, h]

/-- What a step is given was available, and is not available any more; all else is as available as
it was. -/
theorem Sound.available_allocate {s : Store} (hs : s.Sound) {step : String}
    {requirements : List Requirement} {given : Allotment}
    (h : (s.allocate step requirements).1 = .ok given) :
    (s.allocate step requirements).2.1.available =
        s.available.filter (·.id ∉ given.instanceIds) ∧
      ∀ id ∈ given.instanceIds, id ∈ s.available.map Instance.id := by
  obtain ⟨choices, hwalk, rfl⟩ := allocate_ok hs h
  obtain ⟨hall, -, hafter⟩ := walk_eq_none hwalk
  rw [instanceIds_extend]
  refine ⟨by rw [hafter, available_grantAll], fun id hid => ?_⟩
  obtain ⟨c, hc, rfl⟩ := List.mem_map.1 hid
  obtain ⟨r, -, hallow⟩ := exists_of_mem_right hall hc
  exact List.mem_map_of_mem (mem_available.2 ⟨hallow.mem, hallow.available⟩)

/-! ### One more instance -/

/-- One more instance is available in a store than in another, and the others meet the same
preferences in both. -/
structure HasOneMore (t s : Store) : Prop where
  /-- One more instance is available, somewhere among the others. -/
  available : ∃ before extra after,
    s.available = before ++ after ∧ t.available = before ++ extra :: after
  /-- The others meet the same preferences. -/
  accepts : ∀ p, ∀ i ∈ s.available, t.accepts p i = s.accepts p i

/-- Of some instances with distinct ids, no other has the id of one of them. -/
theorem id_ne_of_nodup {before after : List Instance} {i : Instance}
    (h : ((before ++ i :: after).map Instance.id).Nodup) :
    ∀ j ∈ before ++ after, j.id ≠ i.id := by
  rw [List.map_append, List.map_cons, List.nodup_middle, ← List.map_append] at h
  intro j hj heq
  exact (List.nodup_cons.1 h).1 (heq ▸ List.mem_map_of_mem hj)

/-- One of some instances with distinct ids is taken out by its id. -/
theorem filter_id_ne {before after : List Instance} {i : Instance}
    (h : ((before ++ i :: after).map Instance.id).Nodup) :
    (before ++ i :: after).filter (·.id ≠ i.id) = before ++ after := by
  rw [List.filter_append, List.filter_cons_of_neg (by simp), ← List.filter_append,
    List.filter_eq_self.2 (by simpa using id_ne_of_nodup h)]

/-- Where one more instance is available than elsewhere, whatever is chosen elsewhere, something is
chosen, and one more instance is available still. -/
theorem HasOneMore.firstChoice? {s t : Store} (h : t.HasOneMore s) (ht : t.Sound) (step : String)
    {chain : List Preference} {i : Instance} {p : Preference}
    (hchosen : s.firstChoice? chain = some (i, p)) :
    ∃ j q, t.firstChoice? chain = some (j, q) ∧
      (t.modify j.id (·.grant step)).HasOneMore (s.modify i.id (·.grant step)) := by
  obtain ⟨⟨before, x, after, hs, hx⟩, haccepts⟩ := h
  have hi : i ∈ before ++ after := by
    obtain ⟨-, hmem, havailable, -⟩ := firstChoice?_eq_some hchosen
    exact hs ▸ mem_available.2 ⟨hmem, havailable⟩
  have hnodup := ht.nodup_available
  rw [hx] at hnodup
  have haccepts' (j : Instance) : ∀ q, ∀ k ∈ (s.modify i.id (·.grant step)).available,
      (t.modify j.id (·.grant step)).accepts q k = (s.modify i.id (·.grant step)).accepts q k := by
    intro q k hk
    rw [available_modify_grant] at hk
    rw [accepts_modify_grant, accepts_modify_grant]
    exact haccepts q k (List.mem_of_mem_filter hk)
  rw [firstChoice?_eq_pick?, hs, ← pick?_congr (hs ▸ haccepts)] at hchosen
  rw [firstChoice?_eq_pick?, hx]
  rcases pick?_append_cons hchosen x with ⟨q, hpick⟩ | hpick
  · -- the additional instance is taken, and the one taken elsewhere is left
    refine ⟨x, q, hpick, ?_, haccepts' x⟩
    obtain ⟨before', after', hsplit⟩ := List.append_of_mem hi
    have hrest : ((before' ++ i :: after').map Instance.id).Nodup := by
      rw [← hsplit]
      exact hnodup.sublist (((List.sublist_cons_self x after).append_left before).map _)
    refine ⟨before', i, after', ?_, ?_⟩
    · rw [available_modify_grant, hs, hsplit, filter_id_ne hrest]
    · rw [available_modify_grant, hx, filter_id_ne hnodup, hsplit]
  · -- the same instance is taken, and the additional one is left
    refine ⟨i, p, hpick, ?_, haccepts' i⟩
    have hne : x.id ≠ i.id := (id_ne_of_nodup hnodup i hi).symm
    refine ⟨before.filter (·.id ≠ i.id), x, after.filter (·.id ≠ i.id), ?_, ?_⟩
    · rw [available_modify_grant, hs, List.filter_append]
    · rw [available_modify_grant, hx, List.filter_append,
        List.filter_cons_of_pos (by simpa using hne)]

/-- Where one more instance is available than elsewhere, the walk gets to the end if it does so
elsewhere, and leaves one more instance available. -/
theorem HasOneMore.walk {s t : Store} (h : t.HasOneMore s) (ht : t.Sound) {step : String}
    {requirements : List Requirement} {choices : List Choice} {after : Store}
    (hwalk : Store.walk step requirements s = (choices, after, none)) :
    ∃ choices' after', Store.walk step requirements t = (choices', after', none) ∧
      after'.HasOneMore after := by
  induction requirements generalizing s t choices with
  | nil =>
    obtain ⟨rfl, rfl⟩ : [] = choices ∧ s = after := by simpa [Store.walk] using hwalk
    exact ⟨[], t, rfl, h⟩
  | cons r rest ih =>
    cases hr : s.firstChoice? r.chain with
    | none => simp [Store.walk, hr] at hwalk
    | some chosen =>
      obtain ⟨i, p⟩ := chosen
      obtain ⟨j, q, hchosen, hmore⟩ := h.firstChoice? ht step hr
      rcases hw : Store.walk step rest (s.modify i.id (·.grant step)) with ⟨others, final, unmet⟩
      obtain ⟨rfl, rfl, rfl⟩ :
          ⟨r.name, i, p⟩ :: others = choices ∧ final = after ∧ unmet = none := by
        simpa [Store.walk, hr, hw] using hwalk
      obtain ⟨others', after', hwalk', hend⟩ := ih hmore (ht.modify_grant j.id step) hw
      exact ⟨⟨r.name, j, q⟩ :: others', after', by simp [Store.walk, hchosen, hwalk'], hend⟩

/-- A new instance is one more that is available, if it does not have the name of a kind that has
instances. -/
theorem hasOneMore_register {s : Store} {id : String} (hnew : s.has id = false)
    (hkind : ∀ i ∈ s.instances, i.kind ≠ id) (kind : String) (attributes : Bindings)
    (now : Timestamp) : (s.register id kind attributes now).2.1.HasOneMore s := by
  have hstore : (s.register id kind attributes now).2.1 =
      { s with instances := s.instances ++ [.fresh id kind attributes now] } := by
    simp [register, hnew]
  rw [hstore]
  refine ⟨⟨s.available, .fresh id kind attributes now, [], by simp, ?_⟩, fun p i hi => ?_⟩
  · simp [available, Instance.fresh, Instance.isAvailable]
  · obtain ⟨hmem, -⟩ := mem_available.1 hi
    cases p with
    | matching matcher | emergency matcher warning => rfl
    | specific name =>
      have hid : i.id ≠ id := fun heq => by
        have := has_eq_true_iff.2 (heq ▸ List.mem_map_of_mem hmem : id ∈ s.ids)
        simp [hnew] at this
      by_cases hname : name = id
      · subst hname
        simp [accepts, has, instance?, Instance.fresh, hid, hkind i hmem]
      · simp [accepts, has, instance?, List.find?_append, Instance.fresh, Ne.symm hname]

/-- One more instance never makes an allocation fail. Take a reachable store in which a step is
given what it requires, and register a new instance of any kind, under an id that is not the name of
a kind that has instances. Then the step is given what it requires there too, and what is left
available is what is left without the new instance, with exactly one more among it. -/
theorem allocate_register {s : Store} (hs : s.Reachable) {step : String}
    {requirements : List Requirement} {given : Allotment}
    (h : (s.allocate step requirements).1 = .ok given) {id : String} (hnew : s.has id = false)
    (hkind : ∀ i ∈ s.instances, i.kind ≠ id) (kind : String) (attributes : Bindings)
    (now : Timestamp) :
    let t := (s.register id kind attributes now).2.1
    (s.register id kind attributes now).1 = .ok id ∧
    t.instances = s.instances ++ [.fresh id kind attributes now] ∧
    ∃ given', (t.allocate step requirements).1 = .ok given' ∧
      ∃ before extra after,
        (s.allocate step requirements).2.1.available = before ++ after ∧
        (t.allocate step requirements).2.1.available = before ++ extra :: after ∧
        ∀ i ∈ before ++ after, i.id ≠ extra.id := by
  intro t
  have ht : t.Sound := hs.sound.register id kind attributes now
  obtain ⟨choices, hwalk, -⟩ := allocate_ok hs.sound h
  obtain ⟨choices', rest, hwalk', hmore⟩ :=
    (hasOneMore_register hnew hkind kind attributes now).walk ht hwalk
  obtain ⟨hgiven, hrest⟩ := ht.allocate_of_walk hwalk'
  obtain ⟨before, extra, after, hbefore, hafter⟩ := hmore.available
  have hnodup := (ht.allocate step requirements).nodup_available
  rw [hrest, hafter] at hnodup
  refine ⟨by simp [register, hnew], by simp [t, register, hnew], _, hgiven, before, extra, after,
    hbefore, hrest ▸ hafter, id_ne_of_nodup hnodup⟩

/-- With one more chef in the kitchen, the step does not need its last resort any more, and the
instance that it had taken then is left. -/
theorem allocate_register_kitchen :
    let t := (kitchen.register "daisy" "chef" .empty default).2.1
    kitchen.Reachable ∧ (kitchen.allocate "second-step" kitchenOrder).1 = .ok kitchenAllotment ∧
      kitchen.has "daisy" = false ∧ (∀ i ∈ kitchen.instances, i.kind ≠ "daisy") ∧
      (kitchen.allocate "second-step" kitchenOrder).2.1.available = [] ∧
      (t.allocate "second-step" kitchenOrder).1 = .ok
        ⟨"second-step", [⟨"baker", "luigi", "chef", .matching⟩,
          ⟨"helper", "daisy", "chef", .specific⟩], []⟩ ∧
      (t.allocate "second-step" kitchenOrder).2.1.available.map Instance.id = ["peach"] ∧
      ∃ extra, (t.allocate "second-step" kitchenOrder).2.1.available = [extra] := by
  intro t
  have hok : (kitchen.allocate "second-step" kitchenOrder).1 = .ok kitchenAllotment := by
    decide +kernel
  have hnew : kitchen.has "daisy" = false := by decide +kernel
  have hkind : ∀ i ∈ kitchen.instances, i.kind ≠ "daisy" := by decide +kernel
  have hleft : (kitchen.allocate "second-step" kitchenOrder).2.1.available = [] :=
    List.isEmpty_iff.1 (by decide +kernel)
  obtain ⟨-, -, given', hgiven, before, extra, after, hbefore, hafter, -⟩ :=
    allocate_register reachable_kitchen hok hnew hkind "chef" .empty default
  rw [hleft] at hbefore
  obtain ⟨rfl, rfl⟩ := List.append_eq_nil_iff.1 hbefore.symm
  exact ⟨reachable_kitchen, hok, hnew, hkind, hleft, by decide +kernel, by decide +kernel, extra,
    hafter⟩

/-- An instance that has the name of a kind stands in the way of the instances of that kind. -/
example :
    let s := (performAll {} [.register "left" "oven" .empty default,
      .register "right" "oven" .empty default]).2
    let heat : Requirement := { name := "heat", preferences := [.specific "oven"] }
    (s.allocate "step" [heat, heat]).1.isOk = true ∧
      ((s.register "oven" "oven" .empty default).2.1.allocate "step" [heat, heat]).1 =
        .error (.unmet "step" "heat") := by
  decide +kernel

end Foreman.Store
