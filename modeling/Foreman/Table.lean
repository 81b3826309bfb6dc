/-!
# Tables keyed by text

A table sends each of finitely many texts to a value. It is kept as a list of entries in strictly
ascending order of the keys, so two tables with the same look-ups are equal and every listing of a
table is in the order of its keys.

## Main definitions

* `Foreman.Table`: a list of entries with strictly ascending keys.
* `Foreman.Table.get?`, `Foreman.Table.insert`, `Foreman.Table.erase`, `Foreman.Table.overlay`:
  look-up, replacement, removal, and one table laid over another.
* `Foreman.Table.ofList`: the table of a list of entries, the last of equal keys winning.

## Main results

* `Foreman.Table.get?_insert`, `Foreman.Table.get?_erase`, `Foreman.Table.get?_overlay`: the
  look-ups after each operation.
* `Foreman.Table.ext_get?`: tables with equal look-ups are equal.
* `Foreman.Table.ofList_entries`: a table is the table of its own entries.
-/

namespace Foreman

/-- A finite map from texts to values, its entries in strictly ascending order of their keys. -/
structure Table (α : Type u) where
  /-- The entries, in order. -/
  entries : List (String × α)
  /-- The keys ascend strictly. -/
  ascending : entries.Pairwise fun a b => a.1 < b.1
  deriving DecidableEq

namespace Table

variable {α : Type u} {β : Type v}

instance [Repr α] : Repr (Table α) where
  reprPrec t := reprPrec t.entries

/-- The table without entries. -/
def empty : Table α := ⟨[], .nil⟩

instance : EmptyCollection (Table α) := ⟨empty⟩

instance : Inhabited (Table α) := ⟨empty⟩

/-- The value of a key, if it has one. -/
def get? (t : Table α) (key : String) : Option α :=
  t.entries.lookup key

/-- Whether a key has a value. -/
def contains (t : Table α) (key : String) : Bool :=
  (t.get? key).isSome

/-- The keys, ascending. -/
def keys (t : Table α) : List String :=
  t.entries.map (·.1)

/-- The values, in the order of their keys. -/
def values (t : Table α) : List α :=
  t.entries.map (·.2)

/-- The number of entries. -/
def size (t : Table α) : Nat :=
  t.entries.length

/-- Whether there are no entries. -/
def isEmpty (t : Table α) : Bool :=
  t.entries.isEmpty

/-! ### Ascending lists of entries -/

/-- A list of entries with one entry put at the place of its key, replacing an equal key. -/
def insertEntry (key : String) (value : α) : List (String × α) → List (String × α)
  | [] => [(key, value)]
  | (k, v) :: rest =>
    if key < k then (key, value) :: (k, v) :: rest
    else if key = k then (key, value) :: rest
    else (k, v) :: insertEntry key value rest

theorem lookup_cons_eq_ite (key k : String) (v : α) (l : List (String × α)) :
    ((k, v) :: l).lookup key = if key = k then some v else l.lookup key := by
  rw [List.lookup_cons]
  by_cases h : key = k
  · simp [h]
  · simp [beq_eq_false_iff_ne.2 h, h]

theorem mem_insertEntry {key : String} {value : α} {e : String × α} {l : List (String × α)}
    (h : e ∈ insertEntry key value l) : e = (key, value) ∨ e ∈ l := by
  induction l with
  | nil => simpa [insertEntry] using h
  | cons hd tl ih =>
    obtain ⟨k, v⟩ := hd
    rw [insertEntry] at h
    split at h
    · simpa using h
    · split at h <;> grind

theorem pairwise_insertEntry (key : String) (value : α) {l : List (String × α)}
    (h : l.Pairwise fun a b => a.1 < b.1) :
    (insertEntry key value l).Pairwise fun a b => a.1 < b.1 := by
  induction l with
  | nil => simp [insertEntry]
  | cons hd tl ih =>
    obtain ⟨k, v⟩ := hd
    have hhd : ∀ e ∈ tl, k < e.1 := fun e he => List.rel_of_pairwise_cons h he
    have htl := ih h.of_cons
    rw [insertEntry]
    split
    · next hlt =>
      refine h.cons fun e he => ?_
      rcases List.mem_cons.1 he with rfl | hm
      · exact hlt
      · exact String.lt_trans hlt (hhd e hm)
    · next hnlt =>
      split
      · next heq =>
        subst heq
        exact h.of_cons.cons hhd
      · next hne =>
        refine htl.cons fun e he => ?_
        rcases mem_insertEntry he with rfl | hm
        · show k < key
          grind
        · exact hhd e hm

theorem lookup_insertEntry (key k : String) (value : α) (l : List (String × α)) :
    (insertEntry key value l).lookup k = if k = key then some value else l.lookup k := by
  induction l with
  | nil => by_cases hk : k = key <;> simp [insertEntry, lookup_cons_eq_ite, hk]
  | cons hd tl ih =>
    obtain ⟨k', v⟩ := hd
    rw [insertEntry]
    split
    · by_cases hk : k = key <;> simp [lookup_cons_eq_ite, hk]
    · split
      · next heq => subst heq; by_cases hk : k = key <;> simp [lookup_cons_eq_ite, hk]
      · next hne =>
        by_cases hk : k = k'
        · subst hk; simp [Ne.symm hne]
        · simp [lookup_cons_eq_ite, hk, ih]

/-- In an ascending list an entry is looked up exactly when it is a member. -/
theorem lookup_eq_some_iff_mem {l : List (String × α)} (h : l.Pairwise fun a b => a.1 < b.1)
    (key : String) (value : α) : l.lookup key = some value ↔ (key, value) ∈ l := by
  induction l with
  | nil => simp
  | cons hd tl ih =>
    obtain ⟨k, v⟩ := hd
    have hhd : ∀ e ∈ tl, k < e.1 := fun e he => List.rel_of_pairwise_cons h he
    have := ih h.of_cons
    by_cases hk : key = k
    · subst hk
      have hnot : (key, value) ∉ tl := fun hm => String.lt_irrefl _ (hhd _ hm)
      simp [hnot, eq_comm]
    · simp [lookup_cons_eq_ite, hk, this]

/-- Two ascending lists with the same members are equal. -/
theorem eq_of_mem_iff {l₁ l₂ : List (String × α)} (h₁ : l₁.Pairwise fun a b => a.1 < b.1)
    (h₂ : l₂.Pairwise fun a b => a.1 < b.1) (h : ∀ e, e ∈ l₁ ↔ e ∈ l₂) : l₁ = l₂ := by
  induction l₁ generalizing l₂ with
  | nil =>
    cases l₂ with
    | nil => rfl
    | cons e tl => exact absurd ((h e).2 (by simp)) (by simp)
  | cons a tl₁ ih =>
    cases l₂ with
    | nil => exact absurd ((h a).1 (by simp)) (by simp)
    | cons b tl₂ =>
      have ha : ∀ e ∈ tl₁, a.1 < e.1 := fun e he => List.rel_of_pairwise_cons h₁ he
      have hb : ∀ e ∈ tl₂, b.1 < e.1 := fun e he => List.rel_of_pairwise_cons h₂ he
      have hab : a = b := by
        rcases List.mem_cons.1 ((h a).1 (by simp)) with hab | hab
        · exact hab
        · rcases List.mem_cons.1 ((h b).2 (by simp)) with hba | hba
          · exact hba.symm
          · exact absurd (ha _ hba) (String.lt_asymm (hb _ hab))
      subst hab
      rw [ih h₁.of_cons h₂.of_cons]
      intro e
      have := h e
      simp only [List.mem_cons] at this
      constructor
      · intro he
        rcases this.1 (.inr he) with heq | hm
        · subst heq; exact absurd (ha _ he) (String.lt_irrefl _)
        · exact hm
      · intro he
        rcases this.2 (.inr he) with heq | hm
        · subst heq; exact absurd (hb _ he) (String.lt_irrefl _)
        · exact hm

/-! ### Operations -/

/-- The table with a value put under a key, replacing an earlier one. -/
def insert (t : Table α) (key : String) (value : α) : Table α :=
  ⟨insertEntry key value t.entries, pairwise_insertEntry key value t.ascending⟩

/-- The table without a key. -/
def erase (t : Table α) (key : String) : Table α :=
  ⟨t.entries.filter fun e => e.1 != key, t.ascending.sublist List.filter_sublist⟩

/-- The entries that satisfy a condition. -/
def filter (t : Table α) (keep : String → α → Bool) : Table α :=
  ⟨t.entries.filter fun e => keep e.1 e.2, t.ascending.sublist List.filter_sublist⟩

/-- The table with a function applied to every value. -/
def mapValues (f : α → β) (t : Table α) : Table β :=
  ⟨t.entries.map fun e => (e.1, f e.2), by
    rw [List.pairwise_map]; exact t.ascending⟩

/-- A list of entries put into a table from the left, the last of equal keys winning. -/
def insertAll (t : Table α) (entries : List (String × α)) : Table α :=
  entries.foldl (fun t e => t.insert e.1 e.2) t

/-- The table of a list of entries, the last of equal keys winning. -/
def ofList (entries : List (String × α)) : Table α :=
  insertAll empty entries

/-- One table laid over another: where both have a key, the upper one has its way. -/
def overlay (upper lower : Table α) : Table α :=
  lower.insertAll upper.entries

instance : Membership (String × α) (Table α) where
  mem t e := e ∈ t.entries

/-! ### Look-ups -/

@[simp] theorem get?_empty (key : String) : (empty : Table α).get? key = none := rfl

@[simp] theorem entries_empty : (empty : Table α).entries = [] := rfl

theorem get?_eq_some_iff {t : Table α} {key : String} {value : α} :
    t.get? key = some value ↔ (key, value) ∈ t.entries :=
  lookup_eq_some_iff_mem t.ascending key value

/-- Tables with equal look-ups are equal. -/
theorem ext_get? {t u : Table α} (h : ∀ key, t.get? key = u.get? key) : t = u := by
  have : t.entries = u.entries := eq_of_mem_iff t.ascending u.ascending fun e => by
    obtain ⟨key, value⟩ := e
    rw [← get?_eq_some_iff, ← get?_eq_some_iff, h]
  cases t
  cases u
  simp_all

theorem get?_insert (t : Table α) (key k : String) (value : α) :
    (t.insert key value).get? k = if k = key then some value else t.get? k :=
  lookup_insertEntry key k value t.entries

@[simp] theorem get?_insert_self (t : Table α) (key : String) (value : α) :
    (t.insert key value).get? key = some value := by simp [get?_insert]

theorem get?_insert_of_ne (t : Table α) {key k : String} (value : α) (h : k ≠ key) :
    (t.insert key value).get? k = t.get? k := by simp [get?_insert, h]

theorem get?_erase (t : Table α) (key k : String) :
    (t.erase key).get? k = if k = key then none else t.get? k := by
  cases hk : (t.erase key).get? k with
  | some v =>
    rw [get?_eq_some_iff] at hk
    obtain ⟨hmem, hne⟩ := List.mem_filter.1 hk
    have : k ≠ key := by simpa using hne
    simp [this, get?_eq_some_iff.2 hmem]
  | none =>
    split
    · rfl
    · next hne =>
      cases ht : t.get? k with
      | none => rfl
      | some v =>
        rw [get?_eq_some_iff] at ht
        have : (k, v) ∈ (t.erase key).entries := List.mem_filter.2 ⟨ht, by simpa using hne⟩
        rw [get?_eq_some_iff.2 this] at hk
        simp at hk

theorem erase_comm (t : Table α) (a b : String) : (t.erase a).erase b = (t.erase b).erase a :=
  ext_get? fun key => by
    simp only [get?_erase]
    by_cases ha : key = a <;> simp [ha]

theorem get?_insertAll (t : Table α) (entries : List (String × α)) (key : String) :
    (t.insertAll entries).get? key =
      ((entries.reverse.find? fun e => e.1 == key).map (·.2)).or (t.get? key) := by
  induction entries generalizing t with
  | nil => simp [insertAll]
  | cons e rest ih =>
    have := ih (t.insert e.1 e.2)
    simp only [insertAll, List.foldl_cons] at this ⊢
    rw [this, get?_insert, List.reverse_cons, List.find?_append]
    cases hrest : rest.reverse.find? fun e => e.1 == key with
    | some _ => simp
    | none =>
      by_cases hk : key = e.1
      · simp [hk]
      · simp [hk, Ne.symm hk]

theorem find?_reverse_entries (t : Table α) (key : String) :
    (t.entries.reverse.find? fun e => e.1 == key).map (·.2) = t.get? key := by
  cases hf : t.entries.reverse.find? fun e => e.1 == key with
  | some e =>
    have hmem := List.mem_of_find?_eq_some hf
    have hkey := List.find?_some hf
    simp only [beq_iff_eq] at hkey
    rw [Option.map_some, eq_comm, get?_eq_some_iff, ← hkey]
    simpa using hmem
  | none =>
    cases ht : t.get? key with
    | none => rfl
    | some v =>
      rw [get?_eq_some_iff] at ht
      have := List.find?_eq_none.1 hf (key, v) (by simpa using ht)
      simp at this

/-- Where both tables have a key, the upper one has its way. -/
theorem get?_overlay (upper lower : Table α) (key : String) :
    (upper.overlay lower).get? key = (upper.get? key).or (lower.get? key) := by
  rw [overlay, get?_insertAll, find?_reverse_entries]

theorem get?_ofList (entries : List (String × α)) (key : String) :
    (ofList entries).get? key = (entries.reverse.find? fun e => e.1 == key).map (·.2) := by
  simp [ofList, get?_insertAll]

/-- A table is the table of its own entries. -/
@[simp] theorem ofList_entries (t : Table α) : ofList t.entries = t :=
  ext_get? fun key => by rw [get?_ofList, find?_reverse_entries]

@[simp] theorem overlay_empty (t : Table α) : t.overlay empty = t :=
  ext_get? fun key => by simp [get?_overlay]

@[simp] theorem empty_overlay (t : Table α) : (empty : Table α).overlay t = t :=
  ext_get? fun key => by simp [get?_overlay]

theorem contains_eq_true_iff {t : Table α} {key : String} :
    t.contains key = true ↔ ∃ value, t.get? key = some value := by
  simp [contains, Option.isSome_iff_exists]

theorem size_erase_lt (t : Table α) {key : String} {value : α} (h : t.get? key = some value) :
    (t.erase key).size < t.size := by
  rw [get?_eq_some_iff] at h
  exact List.length_filter_lt_length_iff_exists.2 ⟨(key, value), h, by simp⟩

end Table

end Foreman
