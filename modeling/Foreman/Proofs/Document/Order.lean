import Foreman.Proofs.Document.ReadBack
/-!
# The order of members

Readers of records look their fields up by name, so it does not matter in which order the members of
a record stand, nor those of the records inside it. Two documents that differ in nothing else are
read as the same value or both refused, though not always for the same reason.

## Main definitions

* `Foreman.Document.Alike`: two documents differ in nothing but the order of members.
* `Foreman.Document.OrderBlind`: a reader does not tell such documents apart.
* `Foreman.Form.Alike`: two forms have the same fields but for the order of members.

## Main results

* `Foreman.Form.Alike.may`: a field of such forms is read alike.
* `Foreman.Document.OrderBlind.asList`, `Foreman.Document.orderBlind_record`: readers of lists and
  of records do not look at the order of members.
-/

namespace Foreman

namespace Document

/-- Two documents differ in nothing but the order in which members of records stand. -/
inductive Alike : Document → Document → Prop
  | refl (d : Document) : Alike d d
  | record {ms between ms' : List (Document × Document)} (hperm : ms.Perm between)
      (hkeys : between.map Prod.fst = ms'.map Prod.fst)
      (hvalues : List.Forall₂ Alike (between.map Prod.snd) (ms'.map Prod.snd)) :
      Alike (.record ms) (.record ms')
  | list {ds ds' : List Document} (hitems : List.Forall₂ Alike ds ds') :
      Alike (.list ds) (.list ds')

variable {α : Type} {d d' : Document}

/-- A reader does not tell documents apart that differ in nothing but the order of members. -/
def OrderBlind (read : Document → Except Misfit α) : Prop :=
  ∀ {d d' : Document}, d.Alike d' → ∀ a, read d = .ok a ↔ read d' = .ok a

/-- So it is with a reader that refuses whatever has members or items. -/
theorem orderBlind_of_plain {read : Document → Except Misfit α}
    (hrecord : ∀ ms a, read (.record ms) ≠ .ok a) (hlist : ∀ ds a, read (.list ds) ≠ .ok a) :
    OrderBlind read := by
  intro d d' h a
  cases h with
  | refl => exact Iff.rfl
  | record _ _ _ => exact iff_of_false (hrecord _ a) (hrecord _ a)
  | list _ => exact iff_of_false (hlist _ a) (hlist _ a)

theorem orderBlind_asFlag : OrderBlind asFlag :=
  orderBlind_of_plain (fun _ _ h => by cases h) fun _ _ h => by cases h

theorem orderBlind_asCount (bound : ℕ) (kind : String) : OrderBlind (asCount bound kind) :=
  orderBlind_of_plain (fun _ _ h => by cases h) fun _ _ h => by cases h

theorem orderBlind_asCount32 : OrderBlind asCount32 :=
  orderBlind_asCount _ _

theorem orderBlind_asCount64 : OrderBlind asCount64 :=
  orderBlind_asCount _ _

/-- Items that are alike are read alike. -/
theorem OrderBlind.mapM {read : Document → Except Misfit α} (hread : OrderBlind read)
    {ds ds' : List Document} (h : List.Forall₂ Alike ds ds') (as : List α) :
    ds.mapM read = .ok as ↔ ds'.mapM read = .ok as := by
  induction h generalizing as with
  | nil => exact Iff.rfl
  | cons hfirst _ ih =>
    simp only [List.mapM_cons, Except.bind_eq_ok_iff, hread hfirst, ih]

theorem OrderBlind.asList {read : Document → Except Misfit α} (hread : OrderBlind read) :
    OrderBlind (asList read) := by
  intro d d' h as
  cases h with
  | refl => exact Iff.rfl
  | record _ _ _ => exact iff_of_false nofun nofun
  | list hitems => exact hread.mapM hitems as

end Document

namespace Form

variable {α : Type} {d d' : Document} {form : Form d} {form' : Form d'} {name : String}
  {a default : α} {read : Document → Except Misfit α}

theorem map_occurrences (name : String) (members : List (Document × Document)) (i : Nat) :
    (occurrences name i members).map (·.2) =
      (members.filter fun m => m.1.keyText? = some name).map (·.2) := by
  induction members generalizing i with
  | nil => rfl
  | cons m rest ih =>
    by_cases hm : m.1.keyText? = some name
    · simp [occurrences, hm, ih]
    · simp [occurrences, hm, ih]

/-- Everything that a form has under the name of a field, or in its place. -/
def found (form : Form d) (name : String) : List Document :=
  match form.fields with
  | .named members => (occurrences name 0 members).map (·.2)
  | .ordered items _ => items[form.shape.fields.idxOf name]?.toList

/-- A field with a default is read from the one value that there is, if there is one. -/
theorem may_eq_done_iff : form.may name default read = .done a ↔
    match form.found name with
    | [] => a = default
    | [x] => read x = .ok a
    | _ :: _ :: _ => False := by
  obtain ⟨shape, fields, small⟩ := form
  cases fields with
  | named members =>
    simp only [may, readWithin, found]
    split
    · next hocc => simp [hocc, eq_comm]
    · next i x more hocc =>
      cases hread : read x <;> cases more <;> simp [hocc, hread]
  | ordered items buffered =>
    simp only [may, readWithin, found]
    split
    · next hitem => simp [hitem, eq_comm]
    · next x hitem =>
      rw [hitem]
      cases hread : read x <;> simp [hread]

/-- A field that stands once among the members of a record is read from its value. -/
theorem may_named {ms : List (Document × Document)} {x : Document}
    (hfields : form.fields = .named ms)
    (hfound : (ms.filter fun m => m.1.keyText? = some name).map (·.2) = [x])
    (hread : read x = .ok a) : form.may name default read = .done a := by
  rw [may_eq_done_iff, found, hfields]
  simp only [map_occurrences, hfound]
  exact hread

/-- A field that does not stand among the members of a record has its default. -/
theorem may_named_absent {ms : List (Document × Document)} (hfields : form.fields = .named ms)
    (habsent : (ms.filter fun m => m.1.keyText? = some name) = []) :
    form.may name default read = .done default := by
  rw [may_eq_done_iff, found, hfields]
  simp only [map_occurrences, habsent, List.map_nil]

theorem close_named {ms : List (Document × Document)} (hfields : form.fields = .named ms) (a : α) :
    form.close (.done a) = .ok a := by
  simp only [close, hfields]

/-- Two forms of one record have the same fields, but for the order in which members stand. -/
structure Alike (form : Form d) (form' : Form d') : Prop where
  /-- They are forms of the same record. -/
  shape : form.shape = form'.shape
  /-- Under each name they have the same, but for the order. -/
  found : ∀ name, ∃ between, (form.found name).Perm between ∧
    List.Forall₂ Document.Alike between (form'.found name)
  /-- None is closed unless the other is. -/
  close : ∀ {β : Type} (b : β), form.close (.done b) = .ok b ↔ form'.close (.done b) = .ok b

/-- A field of forms that are alike is read alike. -/
theorem Alike.may (h : form.Alike form') (hread : Document.OrderBlind read) :
    form.may name default read = .done a ↔ form'.may name default read = .done a := by
  obtain ⟨between, hperm, hitems⟩ := h.found name
  rw [may_eq_done_iff, may_eq_done_iff]
  generalize form.found name = ds at hperm
  generalize form'.found name = ds' at hitems
  match ds, hperm with
  | [], hperm =>
    obtain rfl := List.nil_perm.1 hperm
    cases hitems
    exact Iff.rfl
  | [x], hperm =>
    obtain rfl := List.singleton_perm.1 hperm
    obtain ⟨y, _, hxy, hnil, rfl⟩ := List.forall₂_cons_left_iff.1 hitems
    cases hnil
    exact hread hxy a
  | x :: y :: more, hperm =>
    have hlength := hperm.length_eq.trans hitems.length_eq
    match ds', hlength with
    | _ :: _ :: _, _ => exact Iff.rfl

end Form

namespace Document

variable {α : Type} {shape : Shape} {d d' : Document}

/-- Of members that are alike, those of a name are. -/
theorem forall₂_filter (keep : Document → Bool) {ms ms' : List (Document × Document)}
    (hkeys : ms.map Prod.fst = ms'.map Prod.fst)
    (hvalues : List.Forall₂ Alike (ms.map Prod.snd) (ms'.map Prod.snd)) :
    List.Forall₂ Alike ((ms.filter fun m => keep m.1).map Prod.snd)
      ((ms'.filter fun m => keep m.1).map Prod.snd) := by
  induction ms generalizing ms' with
  | nil =>
    obtain rfl := List.map_eq_nil_iff.1 hkeys.symm
    exact .nil
  | cons m ms ih =>
    obtain ⟨m', ms', rfl⟩ := List.exists_cons_of_ne_nil
      (show ms' ≠ [] by rintro rfl; cases hkeys)
    obtain ⟨hkey, hkeys⟩ := List.cons.inj hkeys
    obtain ⟨hvalue, hvalues⟩ := List.forall₂_cons.1 hvalues
    rw [List.filter_cons, List.filter_cons, hkey]
    split
    · exact .cons hvalue (ih hkeys hvalues)
    · exact ih hkeys hvalues

theorem forall₂_refl (ds : List Document) : List.Forall₂ Alike ds ds :=
  List.forall₂_same.2 fun d _ => .refl d

/-- Of items that are alike, those in one place are. -/
theorem forall₂_getElem? {ds ds' : List Document} (h : List.Forall₂ Alike ds ds') (place : ℕ) :
    List.Forall₂ Alike ds[place]?.toList ds'[place]?.toList := by
  induction h generalizing place with
  | nil => exact .nil
  | cons hfirst _ ih =>
    cases place with
    | zero => exact .cons hfirst .nil
    | succ place => exact ih place

/-- Documents that are alike have forms that are, or neither has one. -/
theorem of?_alike (shape : Shape) (h : d.Alike d') :
    (∃ why why', Form.of? shape false d = .error why ∧ Form.of? shape false d' = .error why') ∨
      ∃ form form', Form.of? shape false d = .ok form ∧ Form.of? shape false d' = .ok form' ∧
        form.Alike form' := by
  cases h with
  | refl =>
    cases hform : Form.of? shape false d with
    | error why => exact .inl ⟨why, why, rfl, rfl⟩
    | ok form =>
      exact .inr ⟨form, form, rfl, rfl, rfl,
        fun name => ⟨_, .refl _, forall₂_refl _⟩, fun _ => Iff.rfl⟩
  | @record ms between ms' hperm hkeys hvalues =>
    have hall : (ms.all fun m => m.1.keyText?.isSome) =
        ms'.all fun m => m.1.keyText?.isSome := by
      have hmap (ms : List (Document × Document)) : (ms.all fun m => m.1.keyText?.isSome) =
          (ms.map Prod.fst).all fun key => key.keyText?.isSome := by
        simp [List.all_map, Function.comp_def]
      rw [hmap, hmap, ← hkeys]
      exact (hperm.map Prod.fst).all_eq
    by_cases hms : (ms.all fun m => m.1.keyText?.isSome) = true
    · have hms' := hall ▸ hms
      refine .inr ⟨⟨shape, .named ms, sizeOf_lt_of_mem_record⟩,
        ⟨shape, .named ms', sizeOf_lt_of_mem_record⟩, if_pos hms, if_pos hms', rfl,
        fun name => ⟨(between.filter fun m => m.1.keyText? = some name).map (·.2), ?_, ?_⟩,
        fun _ => Iff.rfl⟩
      · simp only [Form.found, Form.map_occurrences]
        exact (hperm.filter _).map _
      · simp only [Form.found, Form.map_occurrences]
        exact forall₂_filter (fun key => key.keyText? = some name) hkeys hvalues
    · have hms' := hall ▸ hms
      exact .inl ⟨_, _, if_neg hms, if_neg hms'⟩
  | @list ds ds' hitems =>
    refine .inr ⟨⟨shape, .ordered ds false, sizeOf_lt_of_mem_list⟩,
      ⟨shape, .ordered ds' false, sizeOf_lt_of_mem_list⟩, rfl, rfl, rfl,
      fun name => ⟨_, .refl _, forall₂_getElem? hitems _⟩, fun _ => ?_⟩
    simp only [Form.close, hitems.length_eq]

/-- A reader of records does not look at the order of members if it reads the fields of forms that
are alike as the same. -/
theorem orderBlind_record (read : Document → Except Misfit α)
    {fields : (d : Document) → Form d → Reading α}
    (hread : ∀ d, read d = Form.of? shape false d >>= fun form => form.close (fields d form))
    (hfields : ∀ {d d' : Document} {form : Form d} {form' : Form d'}, form.Alike form' →
      ∀ a, fields d form = .done a ↔ fields d' form' = .done a) : OrderBlind read := by
  intro d d' h a
  rw [hread, hread]
  rcases of?_alike shape h with ⟨why, why', hd, hd'⟩ | ⟨form, form', hd, hd', halike⟩
  · rw [hd, hd']
    exact iff_of_false nofun nofun
  · rw [hd, hd', Except.ok_bind, Except.ok_bind]
    constructor
    · intro hclose
      have hdone := Form.done_of_close hclose
      rw [hdone] at hclose
      rw [(hfields halike a).1 hdone]
      exact (halike.close a).1 hclose
    · intro hclose
      have hdone := Form.done_of_close hclose
      rw [hdone] at hclose
      rw [(hfields halike a).2 hdone]
      exact (halike.close a).2 hclose

end Document

end Foreman
