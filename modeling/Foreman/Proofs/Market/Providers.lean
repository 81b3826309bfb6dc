import Foreman.Market
import Foreman.Proofs.Store.Available
import Foreman.Proofs.Store.Lineage
/-!
# The index of a catalogue and the store

Which kinds of resources offer a capability can be asked in two places. The index of a catalogue
says it outright, as far as it was told; and a step that requires the capability finds it out when
the instances are matched. Where the index was told of all kinds, the two agree: whatever the kinds
are, whichever of them extend others, and even where their lineages come round.

## Main definitions

* `Foreman.Characteristics.asking`: the matcher that asks for one capability.
* `Foreman.Market.Lists`: the index lists what some kinds offer.
* `Foreman.Market.AgreesWith`: the index says what a step finds out.

## Main results

* `Foreman.Market.Lists.providersFor_eq`: the providers of a capability are the kinds that match.
* `Foreman.Market.Lists.agreesWith`: an index that lists the kinds of a store agrees with the store.
-/

namespace Foreman

namespace Characteristics

/-- The matcher that asks for one capability and nothing else. -/
def asking (capability : String) : Characteristics :=
  .ofList [(capabilitiesKey, .list [capability])]

/-- One capability is offered where it is advertised. -/
theorem accepts_asking (capability : String) (offered : Characteristics) :
    (asking capability).accepts offered = offered.advertised.contains capability := by
  have hentry : (asking capability).accepts offered =
      (Characteristic.list [capability]).accepts (offered.get? capabilitiesKey) :=
    Bool.and_true _
  rw [hentry, advertised]
  cases h : offered.get? capabilitiesKey with
  | none => rfl
  | some value => cases value <;> simp [Characteristic.accepts]

end Characteristics

open Characteristics (asking accepts_asking)

namespace Kinds

variable {kinds : Kinds} {name : String}

theorem pairwise_keys (kinds : Kinds) : kinds.keys.Pairwise (· < ·) :=
  List.pairwise_map.2 kinds.ascending

theorem mem_keys_iff : name ∈ kinds.keys ↔ kinds.contains name = true := by
  simp [Table.keys, Table.contains_eq_true_iff, Table.get?_eq_some_iff]

end Kinds

namespace Market

variable {m : Market} {kinds : Kinds} {s : Store}

/-- The index lists, of each of some kinds that offers anything, all that it offers. -/
def Lists (m : Market) (kinds : Kinds) : Prop :=
  m.providers.entries = kinds.advertised.filter fun e => !e.2.isEmpty

/-- An index that is replaced by what some kinds offer lists these kinds. -/
theorem lists_replaceProviders (m : Market) (kinds : Kinds) :
    (m.replaceProviders kinds.advertised).Lists kinds := by
  have hadvertised : kinds.advertised.Pairwise fun a b => a.1 < b.1 :=
    kinds.pairwise_keys.map _ fun _ _ h => h
  have hoffering := hadvertised.sublist (List.filter_sublist (p := fun e => !e.2.isEmpty))
  exact congrArg Table.entries (Table.ofList_entries ⟨_, hoffering⟩)

/-- The providers of a capability, in order, are the kinds that the matcher which asks for it
accepts. -/
theorem Lists.providersFor_eq (h : m.Lists kinds) (capability : String) :
    m.providersFor capability =
      kinds.keys.filter fun name => (asking capability).accepts (kinds.effective name) := by
  have hoffered : ∀ e : String × List String,
      (e.2.contains capability && !e.2.isEmpty) = e.2.contains capability := by
    rintro ⟨name, _ | ⟨first, rest⟩⟩ <;> simp
  calc m.providersFor capability
    _ = (m.providers.entries.filter fun e => e.2.contains capability).map (·.1) := rfl
    _ = (kinds.advertised.filter fun e => e.2.contains capability).map (·.1) := by
      rw [h, List.filter_filter]
      simp only [hoffered]
    _ = kinds.keys.filter fun name => (asking capability).accepts (kinds.effective name) := by
      simp only [Kinds.advertised, List.filter_map, List.map_map, Function.comp_def, accepts_asking,
        List.map_id']

theorem Lists.mem_providersFor (h : m.Lists kinds) {capability name : String} :
    name ∈ m.providersFor capability ↔
      kinds.contains name = true ∧ (asking capability).accepts (kinds.effective name) = true := by
  rw [h.providersFor_eq, List.mem_filter, Kinds.mem_keys_iff]

/-- Kinds that are not known are no providers, and offer nothing either. -/
theorem Lists.contains_providersFor (h : m.Lists kinds) (capability name : String) :
    (m.providersFor capability).contains name =
      (asking capability).accepts (kinds.effective name) := by
  rw [Bool.eq_iff_iff, List.contains_iff_mem, h.mem_providersFor, and_iff_right_iff_imp]
  intro haccepts
  by_contra hunknown
  have hnone : kinds.get? name = none := by simpa [Table.contains] using hunknown
  rw [Kinds.effective_of_unknown hnone, accepts_asking] at haccepts
  cases haccepts

/-- The index says of every capability what a step finds out that requires it. -/
structure AgreesWith (m : Market) (s : Store) : Prop where
  /-- The providers of a capability come in strictly ascending order. -/
  ascending : ∀ capability, (m.providersFor capability).Pairwise (· < ·)
  /-- They are the kinds that are known and that the matcher which asks for it accepts. -/
  mem_iff : ∀ capability name, name ∈ m.providersFor capability ↔
    s.kinds.contains name = true ∧ (asking capability).accepts (s.kinds.effective name) = true
  /-- As many kinds are listed as offer anything. -/
  total : m.info.providers =
    s.kinds.keys.countP fun name => !(s.kinds.effective name).advertised.isEmpty
  /-- A step that requires a capability is given the first available instance of a kind that is
  listed, and is refused where there is none. -/
  allocate : ∀ capability step (r : Requirement), r.chain = [.matching (asking capability)] →
    (s.allocate step [r]).1 =
      match s.available.find? fun i => (m.providersFor capability).contains i.kind with
      | some i => .ok { step, assignments := [⟨r.name, i.id, i.kind, .matching⟩] }
      | none => .error (.unmet step r.name)

/-- An index that lists the kinds of a sound store agrees with the store. -/
theorem Lists.agreesWith (h : m.Lists s.kinds) (hs : s.Sound) : m.AgreesWith s where
  ascending capability := by
    rw [h.providersFor_eq]
    exact s.kinds.pairwise_keys.sublist List.filter_sublist
  mem_iff _ _ := h.mem_providersFor
  total := by
    have hlength : m.info.providers = (s.kinds.advertised.filter fun e => !e.2.isEmpty).length :=
      congrArg List.length h
    rw [hlength, ← List.countP_eq_length_filter, Kinds.advertised, List.countP_map]
    rfl
  allocate capability step r hr := by
    have hlisted : s.accepts (.matching (asking capability)) =
        fun i => (m.providersFor capability).contains i.kind :=
      funext fun i => (h.contains_providersFor capability i.kind).symm
    have hchoice : s.firstChoice? r.chain =
        (s.available.find? fun i => (m.providersFor capability).contains i.kind).map
          (·, .matching (asking capability)) := by
      rw [hr, Store.firstChoice?_eq_pick?, Store.pick?, List.findSome?_cons, hlisted]
      cases s.available.find? fun i => (m.providersFor capability).contains i.kind <;> rfl
    rw [(Store.allocate_eq_walk hs step [r]).1, Store.allocateGreedily, Store.walk, hchoice]
    cases s.available.find? fun i => (m.providersFor capability).contains i.kind <;> rfl

end Market

end Foreman
