import Foreman.Proofs.Store.History
import Foreman.Workshop
/-!
# What the operations of a workshop do to its store

Every operation of a workshop that is not a run, and is not about runs, does some deeds to the store
and leaves the ledger alone; most do nothing to the store at all.

## Main definitions

* `Foreman.Workshop.Does`: one workshop comes from another by deeds to the store, and whatever may
  happen to anything but store and ledger.

## Main results

* `Foreman.Workshop.does_allocate`, `Foreman.Workshop.does_release`, …: the deeds of the operations.
-/

namespace Foreman

namespace Workshop

open Store (Deed)

/-- A workshop comes from another by deeds to its store; the ledger stays as it is, and anything may
happen to the rest. -/
structure Does (w : Workshop) (deeds : List Deed) (w' : Workshop) : Prop where
  /-- The store has undergone the deeds. -/
  store : w'.store = (w.store.performAll deeds).2
  /-- The ledger is the same. -/
  ledger : w'.ledger = w.ledger

variable {w w' w'' : Workshop}

/-- Nothing is done to the store. -/
theorem does_nil (hstore : w'.store = w.store) (hledger : w'.ledger = w.ledger) : w.Does [] w' :=
  ⟨hstore, hledger⟩

theorem Does.trans {deeds others : List Deed} (h : w.Does deeds w') (h' : w'.Does others w'') :
    w.Does (deeds ++ others) w'' :=
  ⟨by rw [h'.store, h.store, Store.performAll_append], h'.ledger.trans h.ledger⟩

theorem does_note (n : Notice) (w : Workshop) : w.Does [] (w.note n) := ⟨rfl, rfl⟩

theorem does_noteAll (ns : List Notice) (w : Workshop) : w.Does [] (w.noteAll ns) := ⟨rfl, rfl⟩

theorem does_publishOffers (w : Workshop) : w.Does [] w.publishOffers := by
  unfold publishOffers
  split <;> exact ⟨rfl, rfl⟩

theorem does_define (k : ResourceKind) (w : Workshop) : w.Does [.define k] (w.define k).2 := by
  have hstore : w.Does [.define k] { w with store := w.store.define k } := ⟨rfl, rfl⟩
  exact hstore.trans (does_publishOffers _)

theorem does_register (kind : String) (attributes : Bindings) (w : Workshop) :
    w.Does [.register (Store.idFor kind attributes w.freshMark.1) kind attributes w.now]
      (w.register kind attributes).2 :=
  ⟨by rw [Store.performAll_singleton, Store.perform_register]; rfl, rfl⟩

theorem does_remove (id : String) (w : Workshop) : w.Does [.remove id] (w.remove id).2 :=
  ⟨rfl, rfl⟩

theorem does_retire (id : String) (w : Workshop) : w.Does [.retire id] (w.retire id).2 :=
  ⟨rfl, rfl⟩

theorem does_reinstate (id : String) (w : Workshop) : w.Does [.reinstate id] (w.reinstate id).2 :=
  ⟨rfl, rfl⟩

theorem does_clear (w : Workshop) : w.Does [.clear] w.clear := ⟨rfl, rfl⟩

theorem does_allocate (step : String) (requirements : List Requirement) (w : Workshop) :
    w.Does [.allocate step requirements] (w.allocate step requirements).2 :=
  ⟨by rw [Store.performAll_singleton, Store.perform_allocate_snd]; rfl, rfl⟩

theorem does_release (step : String) (w : Workshop) : w.Does [.release step] (w.release step).2 :=
  ⟨rfl, rfl⟩

/-- Steps give back what they hold, one after another. -/
theorem does_releaseAll (steps : List String) (w : Workshop) :
    w.Does (steps.map .release) (steps.foldl (fun w step => (w.release step).2) w) := by
  induction steps generalizing w with
  | nil => exact ⟨rfl, rfl⟩
  | cons step rest ih => exact (does_release step w).trans (ih _)

/-- What an allocation in a workshop comes to is what it comes to in its store. -/
theorem allocate_fst (step : String) (requirements : List Requirement) (w : Workshop) :
    (w.allocate step requirements).1 = (w.store.allocate step requirements).1 := rfl

theorem does_file (e : CatalogEntry) (w : Workshop) : w.Does [] (w.file e).2 := ⟨rfl, rfl⟩

theorem does_resolve (name : String) (w : Workshop) : w.Does [] (w.resolve name).2 := ⟨rfl, rfl⟩

theorem does_updatePolicy (u : PolicyUpdate) (w : Workshop) : w.Does [] (w.updatePolicy u).2 := by
  unfold updatePolicy
  dsimp only
  split <;> exact ⟨rfl, rfl⟩

/-! ### Manifests -/

theorem does_fileCapabilities (cs : List Capability) (w : Workshop) :
    w.Does [] (w.fileCapabilities cs) := by
  induction cs generalizing w with
  | nil => exact ⟨rfl, rfl⟩
  | cons c rest ih =>
    have hnoted : w.Does [] (if c.name.isEmpty then w.note .namelessCapability else w) := by
      split <;> exact ⟨rfl, rfl⟩
    exact (hnoted.trans (does_file (.capability c) _)).trans (ih _)

theorem does_fileResponsibilities (rs : List Responsibility) (w : Workshop) :
    w.Does [] (w.fileResponsibilities rs) := by
  induction rs generalizing w with
  | nil => exact ⟨rfl, rfl⟩
  | cons r rest ih =>
    have hnoted : w.Does []
        (if r.capability.name.isEmpty then w.note .namelessResponsibility else w) := by
      split <;> exact ⟨rfl, rfl⟩
    exact (hnoted.trans (does_file (.responsibility r) _)).trans (ih _)

/-- The kinds of a manifest that have a name are described, one after another. -/
def definitions (ks : List ResourceKind) : List Deed :=
  (ks.filter fun k => !k.name.isEmpty).map .define

theorem definitions_cons (k : ResourceKind) (rest : List ResourceKind) :
    definitions (k :: rest) = definitions [k] ++ definitions rest := by
  rw [definitions, ← List.singleton_append, List.filter_append, List.map_append]
  rfl

theorem does_defineAll (ks : List ResourceKind) (w : Workshop) :
    w.Does (definitions ks) (w.defineAll ks) := by
  induction ks generalizing w with
  | nil => exact ⟨rfl, rfl⟩
  | cons k rest ih =>
    have hhead : w.Does (definitions [k])
        (if k.name.isEmpty then w.note .namelessKind else (w.define k).2) := by
      by_cases hname : k.name.isEmpty
      · rw [if_pos hname, definitions, List.filter_cons_of_neg (by simpa using hname)]
        exact does_note .namelessKind w
      · rw [if_neg hname, definitions, List.filter_cons_of_pos (by simpa using hname)]
        exact does_define k w
    rw [definitions_cons]
    exact hhead.trans (ih _)

theorem does_registerManifest (m : Manifest) (w : Workshop) :
    w.Does (definitions m.resources) (w.registerManifest m).2 := by
  have hnoted := does_noteAll (m.rejected.map fun r => .malformedEntry r.heading r.index r.reason) w
  have hfiled := (hnoted.trans (does_fileCapabilities m.capabilities _)).trans
    (does_fileResponsibilities m.responsibilities _)
  have hdefined := hfiled.trans (does_defineAll m.resources _)
  have hoffered (v : Workshop) : v.Does [] (if v.wiring = .own then v else
      { v.noteAll (Store.allCycleNotices v.store.kinds) with
        market := v.market.replaceProviders v.store.kinds.advertised }) := by
    split <;> exact ⟨rfl, rfl⟩
  have hall := hdefined.trans (hoffered _)
  rwa [List.append_nil] at hall

end Workshop

end Foreman
