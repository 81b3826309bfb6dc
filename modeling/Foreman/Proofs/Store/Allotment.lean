import Foreman.Proofs.Store.History
/-!
# What a step is given

In every reachable store, what a step is given is what the greedy walk gives, and a step that is not
given all it requires is given nothing.

## Main results

* `Foreman.Store.allocate_refines_walk`: allocations agree with the greedy walk, and what the walk
  gives is one available instance of its own for each requirement.
* `Foreman.Store.allocate_all_or_nothing`: a refusal names the first requirement that the walk could
  not meet, and changes nothing.
-/

namespace Foreman.Store

/-- In every reachable store an allocation has the result of the greedy walk and leaves the store
that the walk leaves. What a step is given is, for each requirement in order, an instance that was
available and met one of its preferences; the instances are distinct and the step holds them
afterwards, and each is reported under its id, with its kind and the kind of the preference, and
with the warning of a preference of last resort. -/
theorem allocate_refines_walk {s : Store} (hs : s.Reachable) (step : String)
    (requirements : List Requirement) :
    (s.allocate step requirements).1 = (s.allocateGreedily step requirements).1 ∧
    (s.allocate step requirements).2.1 = (s.allocateGreedily step requirements).2 ∧
    ∀ given, (s.allocate step requirements).1 = .ok given →
      given.instanceIds.Nodup ∧
      (s.allocate step requirements).2.1 = s.grantAll step given.instanceIds ∧
      ∃ choices, List.Forall₂ s.Allows requirements choices ∧
        given = ({ step } : Allotment).extend choices ∧
        ∀ c ∈ choices, c.taken.grant step ∈ (s.allocate step requirements).2.1.instances := by
  obtain ⟨hresult, hafter⟩ := allocate_eq_walk hs.sound step requirements
  refine ⟨hresult, hafter, fun given hgiven => ?_⟩
  obtain ⟨choices, hwalk, rfl⟩ := allocate_ok hs.sound hgiven
  obtain ⟨hall, hnodup, hgrant⟩ := walk_eq_none hwalk
  rw [instanceIds_extend]
  refine ⟨hnodup, hgrant, choices, hall, rfl, fun c hc => ?_⟩
  obtain ⟨r, -, hallow⟩ := exists_of_mem_right hall hc
  rw [hgrant]
  exact mem_each.2 ⟨c.taken, hallow.mem, if_pos (List.mem_map_of_mem hc)⟩

/-- A store in which one instance is out of rotation and one is held. -/
def kitchen : Store :=
  (performAll {}
    [.define { name := "staff", own := .ofList [("language", .text "en")] },
      .define
        { name := "chef", parent := some "staff"
          own := .ofList [("capabilities", .list ["bake-bread"])] },
      .register "mario" "chef" .empty default, .register "luigi" "chef" .empty default,
      .register "peach" "staff" .empty default, .register "toad" "staff" .empty default,
      .retire "mario",
      .allocate "first-step" [{ name := "porter", preferences := [.specific "toad"] }]]).2

theorem reachable_kitchen : kitchen.Reachable := ⟨_, rfl⟩

/-- Requirements that fall through: an instance that is there but out of rotation, a kind without an
instance left, and at last anyone who speaks the language. -/
def kitchenOrder : List Requirement :=
  [{ name := "baker"
     preferences := [.specific "mario", .matching (.ofList
       [("capabilities", .list ["bake-bread"]), ("language", .text "en")])] },
    { name := "helper"
      preferences := [.specific "chef",
        .emergency (.ofList [("language", .text "en")]) "anyone will do"] }]

/-- What a step is given there that has these requirements. -/
def kitchenAllotment : Allotment :=
  ⟨"second-step",
    [⟨"baker", "luigi", "chef", .matching⟩, ⟨"helper", "peach", "staff", .emergency⟩],
    ["anyone will do"]⟩

theorem allocate_refines_walk_kitchen :
    kitchen.Reachable ∧ (kitchen.allocate "second-step" kitchenOrder).1 = .ok kitchenAllotment ∧
      (kitchen.allocateGreedily "second-step" kitchenOrder).1 = .ok kitchenAllotment ∧
      kitchenAllotment.instanceIds.Nodup ∧
      (kitchen.allocateGreedily "second-step" kitchenOrder).2 =
        kitchen.grantAll "second-step" kitchenAllotment.instanceIds ∧
      ∃ choices, List.Forall₂ kitchen.Allows kitchenOrder choices ∧
        kitchenAllotment = ({ step := "second-step" } : Allotment).extend choices := by
  obtain ⟨hresult, hafter, hgiven⟩ :=
    allocate_refines_walk reachable_kitchen "second-step" kitchenOrder
  have hok : (kitchen.allocate "second-step" kitchenOrder).1 = .ok kitchenAllotment := by
    decide +kernel
  obtain ⟨hnodup, hgrant, choices, hall, hchoices, -⟩ := hgiven kitchenAllotment hok
  exact ⟨reachable_kitchen, hok, hresult ▸ hok, hnodup, hafter ▸ hgrant, choices, hall, hchoices⟩

/-- A step that is refused in a reachable store is told the first requirement, in order, that the
greedy walk could not meet once it had met those before; and the store is exactly as it was, so that
whatever the step or others held before they still hold. -/
theorem allocate_all_or_nothing {s : Store} (hs : s.Reachable) {step : String}
    {requirements : List Requirement} {f : Failure}
    (h : (s.allocate step requirements).1 = .error f) :
    (s.allocate step requirements).2.1 = s ∧
    ∃ met r later choices after, requirements = met ++ r :: later ∧
      walk step met s = (choices, after, none) ∧ after.firstChoice? r.chain = none ∧
      f = .unmet step r.name := by
  obtain ⟨hsame, choices, after, r, hwalk, rfl⟩ := allocate_error hs.sound h
  obtain ⟨met, later, rfl, hmet, hnone⟩ := walk_eq_some hwalk
  exact ⟨hsame, met, r, later, choices, after, rfl, hmet, hnone, rfl⟩

/-- A step that holds an instance asks for another one, which it could have, and again for the one
that it holds: it is refused and keeps what it had. -/
theorem allocate_all_or_nothing_kitchen :
    let requirements : List Requirement :=
      [{ name := "helper", preferences := [.specific "chef"] },
        { name := "porter", preferences := [.specific "toad", .specific "mario"] }]
    kitchen.Reachable ∧
    (kitchen.allocate "first-step" requirements).1 = .error (.unmet "first-step" "porter") ∧
    (kitchen.allocate "first-step" requirements).2.1 = kitchen ∧
    kitchen.heldBy "first-step" = ["toad"] ∧
    ∃ met r later choices after, requirements = met ++ r :: later ∧
      walk "first-step" met kitchen = (choices, after, none) ∧ after.firstChoice? r.chain = none ∧
      Failure.unmet "first-step" "porter" = .unmet "first-step" r.name := by
  intro requirements
  have hrefused : (kitchen.allocate "first-step" requirements).1 =
      .error (.unmet "first-step" "porter") := by rfl
  obtain ⟨hsame, hfirst⟩ := allocate_all_or_nothing reachable_kitchen hrefused
  exact ⟨reachable_kitchen, hrefused, hsame, by rfl, hfirst⟩

end Foreman.Store
