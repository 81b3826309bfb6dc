import Foreman.Proofs.Store.Balance
import Foreman.Proofs.Workshop.Chronicle
/-!
# The inventory of a workshop

At any time in the course of any session, the inventory of a workshop is in order: the instances are
those on the roll of the history of its store, and the books balance.

## Main results

* `Foreman.Workshop.inventory_in_order`: ids, holders and the roll, and what registering an
  instance, taking it out of rotation and putting it back come to.
* `Foreman.Workshop.books_balance`: what is allocated is what was given to steps since all instances
  were last removed, less what they gave back and what was removed meanwhile.
-/

namespace Foreman

open Store (Deed)

namespace Workshop

variable {config : Config} {library : Library} {wiring : Wiring} {deeds : List Deed}
  {w : Workshop}

theorem Chronicle.store_of_new (h : Chronicle (new config library wiring) deeds w) :
    w.store = (Store.performAll {} deeds).2 :=
  h.store

/-- At any time the store of a workshop that was new is sound. -/
theorem Chronicle.sound (h : Chronicle (new config library wiring) deeds w) : w.store.Sound := by
  rw [h.store_of_new]
  exact Store.sound_empty.performAll deeds

/-- The inventory of a workshop is in order at any time. No two instances have the same id, and an
instance is allocated if and only if it has a holder. The instances are those that were registered
and not removed since, in the order of registration, with kind and attributes as they were given
then. A new one is refused exactly if the id that it is to have is taken, in which case the store
stays as it is, and otherwise comes last. Taking an instance out of rotation, and putting it back,
changes the state of that one instance and nothing else, if it exists and is not held, or is out of
rotation. All this is so after any session, and whenever an answer is given that is seen in its
course. -/
theorem inventory_in_order (h : Chronicle (new config library wiring) deeds w) :
    Chronicled (new config library wiring) ∧
    w.store.ids.Nodup ∧
    (∀ i ∈ w.store.instances, i.status = .allocated ↔ i.holder.isSome) ∧
    w.store.instances.map Instance.asRegistered = Store.roll (Store.performAll {} deeds).1 ∧
    (∀ kind attributes, Store.idFor kind attributes w.freshMark.1 ∈ w.store.ids →
      (w.register kind attributes).1 =
          .error (.duplicateInstance (Store.idFor kind attributes w.freshMark.1)) ∧
        (w.register kind attributes).2.store = w.store) ∧
    (∀ kind attributes, Store.idFor kind attributes w.freshMark.1 ∉ w.store.ids →
      (w.register kind attributes).1 = .ok (Store.idFor kind attributes w.freshMark.1) ∧
        (w.register kind attributes).2.store =
          { w.store with
            instances := w.store.instances ++
              [.fresh (Store.idFor kind attributes w.freshMark.1) kind attributes w.now] }) ∧
    (∀ id, ((w.retire id).1 = true ↔
        ∃ i ∈ w.store.instances, i.id = id ∧ i.status ≠ .allocated) ∧
      (w.retire id).2.store = w.store.setStatus id (· ≠ .allocated) .unavailable) ∧
    ∀ id, ((w.reinstate id).1 = true ↔
        ∃ i ∈ w.store.instances, i.id = id ∧ i.status = .unavailable) ∧
      (w.reinstate id).2.store = w.store.setStatus id (· = .unavailable) .available := by
  have hs := h.sound
  refine ⟨chronicled rfl, hs.nodup, hs.coherent, ?_,
    fun kind attributes hmem => Store.register_of_mem hmem,
    fun kind attributes hmem => Store.register_of_notMem hmem, fun id => ?_, fun id => ?_⟩
  · rw [h.store_of_new]
    exact Store.map_asRegistered_performAll deeds
  · have hretire := hs.retire_eq id
    exact ⟨by simp [retire, hretire], congrArg Prod.snd hretire⟩
  · have hreinstate := hs.reinstate_eq id
    exact ⟨by simp [reinstate, hreinstate], congrArg Prod.snd hreinstate⟩

/-- What is said of an oven of an id. -/
def ovenOf (id : String) : Bindings :=
  .ofList [("id", .text id)]

/-- A workshop in which nothing has happened. -/
def bakehouse : Workshop :=
  new {} (.shelf .empty) .own

/-- Nobody asks for anything while a command is carried out. -/
def unasked (w : Workshop) (c : Command) : Workshop :=
  (answer (fun _ w => (some [], w)) c w).2

/-- The workshop after two ovens were registered, the first of which was removed and registered
again, and the second taken out of rotation. -/
def restocked : Workshop :=
  ((((bakehouse.unasked (.register "oven" (ovenOf "left") none)).unasked
    (.register "oven" (ovenOf "right") none)).unasked (.remove "left")).unasked
    (.register "oven" (ovenOf "left") none)).unasked (.retire "right")

/-- What was done to its store. -/
def restocking : List Deed :=
  [.register "left" "oven" (ovenOf "left") (.ofMillis 0),
    .register "right" "oven" (ovenOf "right") (.ofMillis 0), .remove "left",
    .register "left" "oven" (ovenOf "left") (.ofMillis 0), .retire "right"]

/-- The oven that was registered again is now the last. Its id cannot be used once more, and the
other oven, which keeps its place, can be put back into rotation. -/
theorem inventory_in_order_bakehouse :
    Chronicle bakehouse restocking restocked ∧
      restocked.store.ids = ["right", "left"] ∧
      restocked.store.instances.map Instance.asRegistered =
        Store.roll (Store.performAll {} restocking).1 ∧
      (restocked.register "oven" (ovenOf "left")).1 = .error (.duplicateInstance "left") ∧
      (restocked.register "oven" (ovenOf "left")).2.store = restocked.store ∧
      (restocked.reinstate "right").1 = true ∧ (restocked.reinstate "left").1 = false := by
  have hdone : Chronicle bakehouse _ restocked :=
    ((((Chronicle.refl.tail (.command _ rfl)).tail (.command _ rfl)).tail
      (.command _ rfl)).tail (.command _ rfl)).tail (.command _ rfl)
  have h : Chronicle bakehouse restocking restocked := hdone
  obtain ⟨-, -, -, hroll, hrefused, -, -, hreinstate⟩ := inventory_in_order h
  obtain ⟨hfailed, hkept⟩ := hrefused "oven" (ovenOf "left") (by decide)
  obtain ⟨hright, -⟩ := hreinstate "right"
  obtain ⟨hleft, -⟩ := hreinstate "left"
  refine ⟨h, by decide, hroll, hfailed, hkept, hright.2 (by decide), ?_⟩
  rw [Bool.eq_false_iff, ne_eq, hleft]
  decide

/-- The books of a workshop balance at any time. Since all instances were last removed at once, what
is allocated is what allocations gave to steps, less what steps gave back, in runs of playbooks and
otherwise, and less what was removed while a step held it. It is also what all the steps that hold
something hold, taken together. What is allocated, what is available and what is out of rotation are
all there is, so the part that is allocated lies between zero and one. All this is so after any
session, and whenever an answer is given that is seen in its course. -/
theorem books_balance (h : Chronicle (new config library wiring) deeds w) :
    Chronicled (new config library wiring) ∧
    w.store.utilization.allocated +
        Store.tally Store.Event.givenBack (Store.performAll {} deeds).1 +
        Store.tally Store.Event.lost (Store.performAll {} deeds).1 =
      Store.tally Store.Event.given (Store.performAll {} deeds).1 ∧
    w.store.holders.Nodup ∧
    (∀ step, step ∈ w.store.holders ↔ w.store.heldBy step ≠ []) ∧
    (w.store.holders.map fun step => (w.store.heldBy step).length).sum =
      w.store.utilization.allocated ∧
    w.store.utilization.allocated + w.store.utilization.available +
      w.store.utilization.unavailable = w.store.utilization.total ∧
    w.store.utilization.total = w.store.instances.length ∧
    w.store.utilization.rate = (if w.store.utilization.total = 0 then 0
      else Float.ofNat w.store.utilization.allocated / Float.ofNat w.store.utilization.total) ∧
    0 ≤ (w.store.utilization.allocated / w.store.utilization.total : ℚ) ∧
    (w.store.utilization.allocated / w.store.utilization.total : ℚ) ≤ 1 := by
  refine ⟨chronicled rfl, ?_, Store.nodup_holders _, fun _ => Store.mem_holders,
    h.sound.sum_length_heldBy, Store.count_add_count_add_count _, rfl, Store.utilization_rate _,
    Store.utilization_ratio _⟩
  rw [h.store_of_new]
  exact Store.balanced_performAll deeds

/-- A step that needs the oven of a name. -/
def heating (oven : String) : List Requirement :=
  [{ name := "heat", preferences := [.specific oven] }]

/-- The workshop after three ovens were given to two steps, one of which gave its oven back, and one
of the other's was removed. -/
def inUse : Workshop :=
  (((((((bakehouse.unasked (.register "oven" (ovenOf "left") none)).unasked
    (.register "oven" (ovenOf "middle") none)).unasked
    (.register "oven" (ovenOf "right") none)).unasked
    (.allocate "bread" (heating "left" ++ heating "middle"))).unasked
    (.allocate "pie" (heating "right"))).unasked (.release "pie")).unasked (.remove "middle"))

/-- What was done to its store. -/
def servings : List Deed :=
  [.register "left" "oven" (ovenOf "left") (.ofMillis 0),
    .register "middle" "oven" (ovenOf "middle") (.ofMillis 0),
    .register "right" "oven" (ovenOf "right") (.ofMillis 0),
    .allocate "bread" (heating "left" ++ heating "middle"), .allocate "pie" (heating "right"),
    .release "pie", .remove "middle"]

/-- Of the three ovens that were given, one was given back and one was removed, which leaves one. -/
theorem books_balance_bakehouse :
    Chronicle bakehouse servings inUse ∧
      Store.tally Store.Event.given (Store.performAll {} servings).1 = 3 ∧
      Store.tally Store.Event.givenBack (Store.performAll {} servings).1 = 1 ∧
      Store.tally Store.Event.lost (Store.performAll {} servings).1 = 1 ∧
      inUse.store.utilization.allocated = 1 ∧
      inUse.store.holders = ["bread"] ∧ (inUse.store.heldBy "bread").length = 1 := by
  have hdone : Chronicle bakehouse _ inUse :=
    ((((((Chronicle.refl.tail (.command _ rfl)).tail (.command _ rfl)).tail
      (.command _ rfl)).tail (.command _ rfl)).tail (.command _ rfl)).tail
      (.command _ rfl)).tail (.command _ rfl)
  have h : Chronicle bakehouse servings inUse := hdone
  obtain ⟨-, hbalance, -, -, hsum, -, -, -, -, -⟩ := books_balance h
  have hgiven : Store.tally Store.Event.given (Store.performAll {} servings).1 = 3 := by decide
  have hback : Store.tally Store.Event.givenBack (Store.performAll {} servings).1 = 1 := by decide
  have hlost : Store.tally Store.Event.lost (Store.performAll {} servings).1 = 1 := by decide
  have hallocated : inUse.store.utilization.allocated = 1 := by omega
  have hholders : inUse.store.holders = ["bread"] := by decide
  refine ⟨h, hgiven, hback, hlost, hallocated, hholders, ?_⟩
  simpa [hholders, hallocated] using hsum

end Workshop

end Foreman
