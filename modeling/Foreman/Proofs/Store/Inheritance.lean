import Foreman.Proofs.Store.Lineage
/-!
# Inheritance

What a kind offers is what it says itself laid over what it inherits, and that is what the kind it
extends offers. Where kinds extend each other in a circle this is no unfolding: the lineage of a
kind and that of the kind it extends go round the circle from different places and end at different
places. But once round, a lineage can only come to the kind from whose parent it set out, and what
that kind says is laid over everything anyway.

## Main definitions

* `Foreman.Kinds.inherited`: what a kind inherits.

## Main results

* `Foreman.Kinds.lineage_erase`: a lineage that sets out from the parent of a kind is the same
  without that kind, but that it may end with it.
* `Foreman.Kinds.effective_inherits`: what a kind offers, by what it inherits.
-/

namespace Foreman

/-- A matcher asks only for what is offered under its own keys. -/
theorem Characteristics.accepts_congr {matcher offered other : Characteristics}
    (h : ∀ e ∈ matcher.entries, offered.get? e.1 = other.get? e.1) :
    matcher.accepts offered = matcher.accepts other := by
  rw [Bool.eq_iff_iff, accepts, accepts, List.all_eq_true, List.all_eq_true]
  exact forall₂_congr fun e he => by rw [h e he]

namespace Kinds

variable {kinds left : Kinds} {name parent start : String} {k : ResourceKind}

/-- What a kind inherits: all that the kind it extends offers, if that one is known. -/
def inherited (kinds : Kinds) (k : ResourceKind) : Characteristics :=
  match k.parent with
  | none => .empty
  | some parent => if kinds.contains parent then kinds.effective parent else .empty

theorem inherited_of_parent (hparent : k.parent = some parent) :
    kinds.inherited k = kinds.effective parent := by
  simp only [inherited, hparent]
  split
  · rfl
  · next hunknown =>
    have hnone : kinds.get? parent = none := by simpa [Table.contains] using hunknown
    exact (effective_of_unknown hnone).symm

/-- A lineage that sets out from the parent of a kind, or sets out once that parent has been
visited, is the same without that kind, but that it may end with it. -/
theorem lineage_erase (hk : left.get? name = some k) (hparent : k.parent = some parent)
    (hback : start = parent ∨ left.get? parent = none) :
    lineage left start = lineage (left.erase name) start ∨
      lineage left start = lineage (left.erase name) start ++ [k] := by
  induction left, start using lineage.induct with
  | case1 left start hnone =>
    left
    rw [lineage_of_unknown hnone, lineage_of_unknown (by simp [Table.get?_erase, hnone])]
  | case2 left start j hsome ih =>
    by_cases hname : start = name
    · -- the kind itself has come up, and its parent was visited before
      subst hname
      obtain rfl : j = k := Option.some.inj (hsome.symm.trans hk)
      have hvisited : (left.erase start).get? parent = none := by
        rw [Table.get?_erase]
        rcases hback with rfl | hnone <;> simp [*]
      right
      rw [lineage_of_known hsome, hparent, Option.elim_some, lineage_of_unknown hvisited,
        lineage_of_unknown (by simp [Table.get?_erase]), List.nil_append]
    · have hkept : (left.erase name).get? start = some j := by simp [Table.get?_erase, hname, hsome]
      rw [lineage_of_known hsome, lineage_of_known hkept, left.erase_comm name start]
      cases hj : j.parent with
      | none => exact .inl rfl
      | some next =>
        have hrest := ih next (by simp [Table.get?_erase, Ne.symm hname, hk]) <| .inr <| by
          rw [Table.get?_erase]
          rcases hback with rfl | hnone <;> simp [*]
        simpa only [Option.elim_some, List.cons_append, List.cons.injEq, true_and] using hrest

/-- What comes after a kind in its lineage says the same under a key as what it inherits, if it says
nothing there itself. -/
theorem findSome?_lineage_erase (hknown : kinds.get? name = some k) {key : String}
    (hsilent : k.own.get? key = none) :
    ((k.parent.elim [] (lineage (kinds.erase name))).findSome? fun j => j.own.get? key) =
      (kinds.inherited k).get? key := by
  cases hparent : k.parent with
  | none => simp [inherited, hparent]
  | some parent =>
    rw [inherited_of_parent hparent, get?_effective, Option.elim_some]
    rcases lineage_erase hknown hparent (.inl rfl) with hsame | hround
    · rw [hsame]
    · simp [hround, List.findSome?_append, hsilent]

/-- What a kind offers is what it says itself laid over what the kind it extends offers, whatever
extends what and even in a circle; a kind that extends none, or one that is not known, inherits
nothing. So a matcher that asks for nothing under the keys of a kind accepts what the kind offers
exactly if it accepts what the kind it extends offers. -/
theorem effective_inherits (hknown : kinds.get? name = some k) :
    kinds.effective name = k.own.overlay (kinds.inherited k) ∧
      ∀ matcher : Characteristics, (∀ e ∈ matcher.entries, k.own.get? e.1 = none) →
        matcher.accepts (kinds.effective name) = matcher.accepts (kinds.inherited k) := by
  have hlocal (key : String) : (kinds.effective name).get? key =
      (k.own.get? key).or ((kinds.inherited k).get? key) := by
    rw [get?_effective, lineage_of_known hknown, List.findSome?_cons]
    cases hown : k.own.get? key with
    | some value => rfl
    | none => exact findSome?_lineage_erase hknown hown
  refine ⟨Table.ext_get? fun key => by rw [hlocal, Table.get?_overlay], fun matcher hsilent => ?_⟩
  exact Characteristics.accepts_congr fun e he => by rw [hlocal, hsilent e he, Option.none_or]

/-- The car and the vehicle extend each other. Each offers what it says itself laid over what the
other offers, so they differ about the seats, and both move. -/
theorem effective_inherits_car :
    let moving : Characteristics := .ofList [("moves", .flag true)]
    ∃ car vehicle, fleet.get? "car" = some car ∧ fleet.get? "vehicle" = some vehicle ∧
      car.parent = some "vehicle" ∧ vehicle.parent = some "car" ∧
      fleet.effective "car" = car.own.overlay (fleet.effective "vehicle") ∧
      fleet.effective "vehicle" = vehicle.own.overlay (fleet.effective "car") ∧
      (fleet.effective "car").get? "seats" = some (.flag true) ∧
      (fleet.effective "vehicle").get? "seats" = some (.flag false) ∧
      moving.accepts (fleet.effective "car") = true := by
  intro moving
  obtain ⟨hcar, hmoving⟩ := @effective_inherits fleet "car" _ rfl
  obtain ⟨hvehicle, -⟩ := @effective_inherits fleet "vehicle" _ rfl
  rw [inherited_of_parent rfl] at hcar hmoving hvehicle
  refine ⟨_, _, rfl, rfl, rfl, rfl, hcar, hvehicle, ?_, ?_, ?_⟩
  · rw [hcar, Table.get?_overlay]
    rfl
  · rw [hvehicle, Table.get?_overlay]
    rfl
  · have hmoves : ∀ e ∈ moving.entries, (fleet.effective "vehicle").get? e.1 = moving.get? e.1 := by
      intro e he
      obtain rfl := List.mem_singleton.1 he
      rw [hvehicle, Table.get?_overlay]
      rfl
    rw [hmoving moving (by decide), Characteristics.accepts_congr hmoves]
    rfl

end Kinds

end Foreman
