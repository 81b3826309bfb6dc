import Foreman.Proofs.Market.LastFiled
/-!
# Look-ups and filings, access by access

To look a name up the memory is asked, then the catalogue is read, and then the memory is told of
what was read; to file an entry the catalogue is written, and then the memory is cleared of its
name. Where several look-ups and filings are under way at once, nothing comes between the parts of
one access, but any of them may make its next access after any other.

## Main definitions

* `Foreman.Market.Visit`: a look-up or a filing, by the access that it makes next.
* `Foreman.Market.Desk`, `Foreman.Market.Desk.attend`: a catalogue, at which an access is made.
* `Foreman.Market.Hall`, `Foreman.Market.Hall.play`: all that is under way at a catalogue, and what
  comes of some moves, in any order.

## Main results

* `Foreman.Market.resolve_eq_accesses`, `Foreman.Market.register_eq_accesses`: looking up and filing
  are made up of the accesses.
* `Foreman.Market.Hall.play_ask`, `Foreman.Market.Hall.play_file`: a look-up or a filing that
  nothing interrupts is looking up or filing.
-/

namespace Foreman.Market

/-! ### Single accesses -/

/-- The memory is asked for a name, and it is counted whether the memory had it. -/
def recollect (m : Market) (name : String) : Option CatalogEntry × Market :=
  match m.memory with
  | none => (none, m)
  | some memory =>
    match memory.get? name with
    | some e => (some e, { m with hits := m.hits + 1 })
    | none => (none, { m with misses := m.misses + 1 })

/-- The memory is told of the entry of a name. -/
def remember (m : Market) (name : String) (e : CatalogEntry) : Market :=
  { m with memory := m.memory.map (·.insert name e) }

/-- An entry is written into the catalogue. -/
def enter (m : Market) (e : CatalogEntry) : Market :=
  { m with catalogue := m.catalogue.insert e.name e }

/-- The memory is cleared of a name. -/
def forget (m : Market) (name : String) : Market :=
  { m with memory := m.memory.map (·.erase name) }

@[simp]
theorem catalogue_recollect (m : Market) (name : String) :
    (m.recollect name).2.catalogue = m.catalogue := by
  rw [recollect]
  split
  · rfl
  · split <;> rfl

@[simp]
theorem memory_recollect (m : Market) (name : String) : (m.recollect name).2.memory = m.memory := by
  rw [recollect]
  split
  · rfl
  · split <;> rfl

theorem recollect_eq_some_iff {m : Market} {name : String} {e : CatalogEntry} :
    (m.recollect name).1 = some e ↔
      ∃ memory, m.memory = some memory ∧ memory.get? name = some e := by
  cases hmemory : m.memory with
  | none => simp [recollect, hmemory]
  | some memory => cases hget : memory.get? name <;> simp [recollect, hmemory, hget]

/-- Looking up is asking the memory; then, if it does not have the name, reading the catalogue; and
then, if the name is listed, telling the memory. -/
theorem resolve_eq_accesses (m : Market) (name : String) :
    m.resolve name =
      match (m.recollect name).1, m.catalogue.get? name with
      | some e, _ => (some e, (m.recollect name).2)
      | none, some e => (some e, (m.recollect name).2.remember name e)
      | none, none => (none, (m.recollect name).2) := by
  obtain ⟨catalogue, providers, memory, hits, misses⟩ := m
  cases memory with
  | none => cases hlisted : catalogue.get? name <;> simp [resolve, recollect, remember, hlisted]
  | some memory =>
    cases hknown : memory.get? name <;> cases hlisted : catalogue.get? name <;>
      simp [resolve, recollect, remember, hknown, hlisted]

/-- Filing is writing the catalogue and then clearing the memory. -/
theorem register_eq_accesses (m : Market) (e : CatalogEntry) :
    m.register e = (!m.catalogue.contains e.name, (m.enter e).forget e.name) :=
  rfl

/-! ### Look-ups and filings under way -/

/-- A filing that has ended. -/
structure Filing where
  /-- How many entries were written before its own. -/
  number : ℕ
  /-- The entry. -/
  entry : CatalogEntry

/-- A question for the entry of a name. -/
structure Question where
  /-- The name. -/
  name : String
  /-- The filings that had ended when it began. -/
  known : List Filing

/-- A look-up or a filing, by the access that it makes next. -/
inductive Visit where
  /-- A look-up that is to ask the memory. -/
  | asking (q : Question)
  /-- A look-up that is to read the catalogue. -/
  | missing (q : Question)
  /-- A look-up that is to tell the memory of an entry, which it read when so many were written. -/
  | found (q : Question) (e : CatalogEntry) (since : ℕ)
  /-- A filing that is to write its entry. -/
  | filing (e : CatalogEntry)
  /-- A filing that is to clear the memory, so many entries having been written before its own. -/
  | entered (number : ℕ) (e : CatalogEntry)
  /-- One that has ended. -/
  | left

/-- An answer that was given. -/
structure Told where
  /-- What was asked. -/
  question : Question
  /-- What was answered. -/
  answer : Option CatalogEntry
  /-- Whether the memory answered. -/
  recalled : Bool

/-- A catalogue, and what has come of the look-ups and filings so far. -/
structure Desk where
  /-- The catalogue. -/
  market : Market
  /-- The entries that were written, in order. -/
  filed : List CatalogEntry := []
  /-- The filings that have ended. -/
  returned : List Filing := []
  /-- The answers that were given. -/
  told : List Told := []

/-- An answer is given. -/
def Desk.tell (d : Desk) (t : Told) : Desk :=
  { d with told := d.told ++ [t] }

/-- The next access of a look-up or a filing, and what it is to do then. -/
def Desk.attend (d : Desk) : Visit → Visit × Desk
  | .asking q =>
    let after := { d with market := (d.market.recollect q.name).2 }
    match (d.market.recollect q.name).1 with
    | some e => (.left, after.tell ⟨q, some e, true⟩)
    | none => (.missing q, after)
  | .missing q =>
    match d.market.catalogue.get? q.name with
    | some e => (.found q e d.filed.length, d)
    | none => (.left, d.tell ⟨q, none, false⟩)
  | .found q e _ =>
    (.left, ({ d with market := d.market.remember q.name e }).tell ⟨q, some e, false⟩)
  | .filing e =>
    (.entered d.filed.length e, { d with market := d.market.enter e, filed := d.filed ++ [e] })
  | .entered number e =>
    (.left, { d with market := d.market.forget e.name, returned := d.returned ++ [⟨number, e⟩] })
  | .left => (.left, d)

/-- A catalogue, and all that is under way at it. -/
structure Hall where
  /-- The catalogue. -/
  desk : Desk
  /-- The look-ups and filings that have begun, in order. -/
  visits : List Visit := []

/-- What happens next. -/
inductive Move where
  /-- A look-up of a name begins. -/
  | ask (name : String)
  /-- A filing of an entry begins. -/
  | file (e : CatalogEntry)
  /-- One that has begun makes its next access. -/
  | go (k : ℕ)

namespace Hall

/-- One thing happens. -/
def move (h : Hall) : Move → Hall
  | .ask name => { h with visits := h.visits ++ [.asking ⟨name, h.desk.returned⟩] }
  | .file e => { h with visits := h.visits ++ [.filing e] }
  | .go k =>
    match h.visits[k]? with
    | none => h
    | some v => ⟨(h.desk.attend v).2, h.visits.set k (h.desk.attend v).1⟩

/-- Some things happen, one after another. -/
def play (h : Hall) (moves : List Move) : Hall :=
  moves.foldl move h

/-- An empty catalogue, at which nothing is under way. -/
def start (caching : Bool) : Hall :=
  ⟨{ market := new caching }, []⟩

/-! ### Without overlap -/

/-- The last that began makes its next access. -/
theorem move_go_length (d : Desk) (visits : List Visit) (v : Visit) :
    (Hall.mk d (visits ++ [v])).move (.go visits.length) =
      ⟨(d.attend v).2, visits ++ [(d.attend v).1]⟩ := by
  simp [move]

/-- The accesses of a filing, with nothing between them, are those of filing. -/
theorem play_file (h : Hall) (e : CatalogEntry) :
    h.play [.file e, .go h.visits.length, .go h.visits.length] =
      ⟨{ h.desk with
          market := (h.desk.market.register e).2
          filed := h.desk.filed ++ [e]
          returned := h.desk.returned ++ [⟨h.desk.filed.length, e⟩] },
        h.visits ++ [.left]⟩ := by
  have hbegun : h.move (.file e) = ⟨h.desk, h.visits ++ [.filing e]⟩ := rfl
  simp only [play, List.foldl, hbegun, move_go_length, register_eq_accesses]
  rfl

/-- The accesses of a look-up, with nothing between them, are those of looking up. -/
theorem play_ask (h : Hall) (name : String) :
    ∃ recalled, h.play [.ask name, .go h.visits.length, .go h.visits.length,
        .go h.visits.length] =
      ⟨({ h.desk with market := (h.desk.market.resolve name).2 }).tell
          ⟨⟨name, h.desk.returned⟩, (h.desk.market.resolve name).1, recalled⟩,
        h.visits ++ [.left]⟩ := by
  have hbegun : h.move (.ask name) =
      ⟨h.desk, h.visits ++ [.asking ⟨name, h.desk.returned⟩]⟩ := rfl
  simp only [play, List.foldl, hbegun, move_go_length, resolve_eq_accesses]
  cases hrecall : (h.desk.market.recollect name).1 with
  | some e => exact ⟨true, by simp [Desk.attend, hrecall]⟩
  | none =>
    cases hlisted : h.desk.market.catalogue.get? name with
    | some e => exact ⟨false, by simp [Desk.attend, hrecall, hlisted]⟩
    | none => exact ⟨false, by simp [Desk.attend, hrecall, hlisted]⟩

end Hall

end Foreman.Market
