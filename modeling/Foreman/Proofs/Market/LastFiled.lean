import Foreman.Session
import Mathlib.Data.List.Basic
import Mathlib.Data.List.Induction
/-!
# A catalogue answers from what was last filed

All that a catalogue answers follows from the entries that were filed, in order: under each name
stands the one last filed under it. Its memory changes nothing about the answers. What it counts is
how many look-ups there were, and how many of them the memory answered: those of names that were
looked up and found before, and under which nothing was filed since.

## Main definitions

* `Foreman.Market.Call`, `Foreman.Market.serve`, `Foreman.Market.after`: what is asked of a
  catalogue, one call after another.
* `Foreman.Market.last?`, `Foreman.Market.IsListing`: the entry last filed under a name, and the
  list of all such entries.
* `Foreman.Market.Tells`: an answer is the one that follows from what was filed.
* `Foreman.Market.Remembered`: a name was found, and nothing was filed under it since.

## Main results

* `Foreman.Market.market_replies`: commands that ask for such calls make a workshop's catalogue what
  the calls make it.
* `Foreman.Market.reflects_after`: catalogue and memory reflect the calls made so far.
* `Foreman.Market.Reflects.tells`: every answer follows from what was filed.
* `Foreman.Market.answers_follow_last_filed`: so it does with a memory and without.
-/

namespace Foreman.Market

/-- What is asked of a catalogue. -/
inductive Call where
  /-- An entry is to be filed. -/
  | register (e : CatalogEntry)
  /-- The entry of a name is looked up. -/
  | resolve (name : String)
  /-- Whether a name is listed is asked for. -/
  | isKnown (name : String)
  /-- Whether nothing is listed is asked for. -/
  | isEmpty
  /-- All entries are asked for. -/
  | list
  /-- The responsibilities looked at in a mode are asked for. -/
  | byMonitoring (mode : Monitoring)
  /-- The catalogue in figures is asked for. -/
  | info

namespace Call

/-- The entry that a call files. -/
def entry? : Call → Option CatalogEntry
  | register e => some e
  | _ => none

/-- Whether a call is a look-up. -/
def isResolve : Call → Bool
  | resolve _ => true
  | _ => false

/-- The command by which a workshop is asked the same. -/
def command : Call → Command
  | register e => .file e
  | resolve name => .resolve name
  | isKnown name => .isKnown name
  | isEmpty => .isEmpty
  | list => .listCapabilities
  | byMonitoring mode => .byMonitoring mode
  | info => .marketInfo

end Call

/-- A call is answered. -/
def serve (m : Market) : Call → Answer × Market
  | .register e => (.flag (m.register e).1, (m.register e).2)
  | .resolve name => (.entry (m.resolve name).1, (m.resolve name).2)
  | .isKnown name => (.flag (m.isKnown name), m)
  | .isEmpty => (.flag m.isEmpty, m)
  | .list => (.entries m.list, m)
  | .byMonitoring mode => (.responsibilities (m.byMonitoring mode), m)
  | .info => (.marketInfo m.info, m)

/-- The catalogue after some calls, one after another. -/
def after (m : Market) (past : List Call) : Market :=
  past.foldl (fun m c => (m.serve c).2) m

theorem after_concat (m : Market) (past : List Call) (c : Call) :
    m.after (past ++ [c]) = ((m.after past).serve c).2 := by
  rw [after, List.foldl_append]
  rfl

/-- A workshop answers from its catalogue. -/
theorem answer_command (attendant : Workshop.Attendant) (c : Call) (w : Workshop) :
    (Workshop.answer attendant c.command w).1 = some (w.market.serve c).1 ∧
      (Workshop.answer attendant c.command w).2.market = (w.market.serve c).2 := by
  cases c <;> exact ⟨rfl, rfl⟩

/-- A command that asks for such a call gets its reply. -/
theorem market_perform (levels : ℕ) (c : Call) (w : Workshop) :
    (Workshop.perform levels c.command w).1.isSome ∧
      (Workshop.perform levels c.command w).2.market = (w.market.serve c).2 := by
  have hreply (attendant : Workshop.Attendant) :
      (Workshop.reply attendant c.command w).1.isSome ∧
        (Workshop.reply attendant c.command w).2.market = (w.market.serve c).2 := by
    obtain ⟨hanswer, hmarket⟩ := answer_command attendant c { w with interludes := [] }
    refine ⟨?_, hmarket⟩
    simp only [Workshop.reply, hanswer]
    rfl
  cases levels with
  | zero => exact hreply _
  | succ levels => exact hreply _

/-- Commands that ask for such calls make the catalogue of a workshop what the calls make it. -/
theorem market_replies (levels : ℕ) (calls : List Call) (w : Workshop) :
    (Workshop.replies (Workshop.perform levels) (calls.map Call.command) w).2.market =
      w.market.after calls := by
  induction calls generalizing w with
  | nil => rfl
  | cons c rest ih =>
    obtain ⟨hreply, hone⟩ := market_perform levels c w
    rcases hfirst : Workshop.perform levels c.command w with ⟨_ | r, w'⟩ <;>
      rw [hfirst] at hreply hone
    · cases hreply
    · simp only [List.map_cons, Workshop.replies, hfirst]
      exact (ih w').trans (congrArg (fun m => m.after rest) hone)

/-! ### What was last filed -/

/-- The entries that were filed, in order. -/
def filed (past : List Call) : List CatalogEntry :=
  past.filterMap Call.entry?

/-- The entry last filed under a name. -/
def last? (filed : List CatalogEntry) (name : String) : Option CatalogEntry :=
  filed.reverse.find? fun e => e.name = name

variable {past : List Call} {m : Market} {name : String} {e : CatalogEntry} {c : Call}
  {es files : List CatalogEntry} {caching : Bool}

theorem filed_append (past more : List Call) : filed (past ++ more) = filed past ++ filed more :=
  List.filterMap_append

/-- A call that files nothing. -/
theorem filed_concat (past : List Call) (h : c.entry? = none) :
    filed (past ++ [c]) = filed past := by
  simp [filed, h]

theorem name_of_last? (h : last? files name = some e) : e.name = name := by
  simpa using List.find?_some h

/-- Of two lists the later one has its way. -/
theorem last?_append (files more : List CatalogEntry) (name : String) :
    last? (files ++ more) name = (last? more name).or (last? files name) := by
  rw [last?, List.reverse_append, List.find?_append]
  rfl

theorem last?_concat (files : List CatalogEntry) (e : CatalogEntry) (name : String) :
    last? (files ++ [e]) name = if name = e.name then some e else last? files name := by
  rw [last?, List.reverse_append, List.reverse_singleton, List.singleton_append, List.find?_cons]
  by_cases h : e.name = name
  · simp [h]
  · simp [h, Ne.symm h, last?]

/-- Entries filed under other names make no difference. -/
theorem last?_append_of_forall_ne (files : List CatalogEntry) {more : List CatalogEntry}
    (h : ∀ e ∈ more, e.name ≠ name) : last? (files ++ more) name = last? files name := by
  have hnone : last? more name = none := by
    simpa [last?] using h
  rw [last?_append, hnone, Option.none_or]

/-- All entries that were last filed under their names, in the order of the names. -/
structure IsListing (files es : List CatalogEntry) : Prop where
  /-- The names ascend strictly. -/
  ascending : es.Pairwise fun a b => a.name < b.name
  /-- The entries are those last filed under their names. -/
  mem_iff : ∀ e, e ∈ es ↔ last? files e.name = some e

/-- All responsibilities looked at in a mode that were last filed under their names, in the order of
the names. -/
structure IsWatchList (files : List CatalogEntry) (mode : Monitoring)
    (rs : List Responsibility) : Prop where
  /-- The names ascend strictly. -/
  ascending : rs.Pairwise fun a b => a.capability.name < b.capability.name
  /-- The responsibilities are those of the mode that were last filed under their names. -/
  mem_iff : ∀ r, r ∈ rs ↔
    r.monitoring = mode ∧ last? files r.capability.name = some (.responsibility r)

/-- An answer follows from what was filed. -/
def Tells (files : List CatalogEntry) : Call → Answer → Prop
  | .register e, a => a = .flag (last? files e.name).isNone
  | .resolve name, a => a = .entry (last? files name)
  | .isKnown name, a => a = .flag (last? files name).isSome
  | .isEmpty, a => a = .flag files.isEmpty
  | .list, a => ∃ es, IsListing files es ∧ a = .entries es
  | .byMonitoring mode, a => ∃ rs, IsWatchList files mode rs ∧ a = .responsibilities rs
  | .info, a => ∃ es i, IsListing files es ∧ a = .marketInfo i ∧ i.entries = es.length ∧
      i.responsibilities = es.countP (fun e => e.monitoring?.isSome) ∧ i.providers = 0

/-! ### What is remembered -/

/-- A name was looked up and found, and nothing was filed under it since. -/
def Remembered (past : List Call) (name : String) : Prop :=
  ∃ before since, past = before ++ .resolve name :: since ∧
    (last? (filed before) name).isSome ∧ ∀ e ∈ filed since, e.name ≠ name

/-- What is remembered under a name is what was last filed under it. -/
theorem Remembered.isSome (h : Remembered past name) : (last? (filed past) name).isSome := by
  obtain ⟨before, since, rfl, hfound, hsince⟩ := h
  have hfiled : filed (.resolve name :: since) = filed since := rfl
  rwa [filed_append, hfiled, last?_append_of_forall_ne _ hsince]

theorem not_remembered_nil (name : String) : ¬ Remembered [] name := by
  rintro ⟨before, since, h, -⟩
  simp at h

/-- One more call makes a catalogue remember a name that is found, and forget one under which an
entry is filed. -/
theorem remembered_concat (past : List Call) (c : Call) (name : String) :
    Remembered (past ++ [c]) name ↔
      (c = .resolve name ∧ (last? (filed past) name).isSome) ∨
        (Remembered past name ∧ ∀ e, c = .register e → e.name ≠ name) := by
  constructor
  · rintro ⟨before, since, h, hfound, hsince⟩
    -- the look-up that found the name is the last call, or the last call came after it
    rcases List.eq_nil_or_concat' since with rfl | ⟨earlier, last, rfl⟩
    · obtain ⟨rfl, rfl⟩ : past = before ∧ c = .resolve name := by simpa using h
      exact .inl ⟨rfl, hfound⟩
    · rw [← List.cons_append, ← List.append_assoc] at h
      obtain ⟨rfl, hlast⟩ := List.append_inj' h rfl
      obtain rfl : c = last := by simpa using hlast
      rw [filed_append] at hsince
      refine .inr ⟨⟨before, earlier, rfl, hfound, fun e he => ?_⟩, fun e he => ?_⟩
      · exact hsince e (List.mem_append_left _ he)
      · subst he
        exact hsince e (List.mem_append_right _ (List.mem_singleton_self e))
  · rintro (⟨rfl, hfound⟩ | ⟨⟨before, since, rfl, hfound, hsince⟩, hc⟩)
    · exact ⟨past, [], rfl, hfound, fun e he => absurd he List.not_mem_nil⟩
    · refine ⟨before, since ++ [c], by simp, hfound, fun e he => ?_⟩
      rw [filed_append] at he
      rcases List.mem_append.1 he with he | he
      · exact hsince e he
      · cases c with
        | register d =>
          obtain rfl : e = d := by simpa [filed, Call.entry?] using he
          exact hc e rfl
        | _ => simp [filed, Call.entry?] at he

/-! ### Catalogue and memory -/

/-- Catalogue, memory and figures reflect some calls. -/
structure Reflects (caching : Bool) (past : List Call) (m : Market) : Prop where
  /-- Under each name stands the entry last filed under it. -/
  catalogue : ∀ name, m.catalogue.get? name = last? (filed past) name
  /-- No kind of resource is said to offer anything. -/
  providers : m.providers = .empty
  /-- There is a memory, if there is to be one. -/
  remembers : m.memory.isSome = caching
  /-- It holds what is remembered, as it was last filed. -/
  memory : ∀ memory, m.memory = some memory → ∀ name e,
    memory.get? name = some e ↔ Remembered past name ∧ last? (filed past) name = some e
  /-- Every look-up is counted, if there is a memory. -/
  figures : m.hits + m.misses = if caching then past.countP Call.isResolve else 0

theorem reflects_new (caching : Bool) : Reflects caching [] (new caching) where
  catalogue _ := rfl
  providers := rfl
  remembers := by cases caching <;> rfl
  memory memory hmemory name e := by
    obtain rfl : memory = .empty := by
      cases caching
      · exact nomatch hmemory
      · exact (Option.some.inj hmemory).symm
    simp [not_remembered_nil]
  figures := by simp [new]

/-- A look-up with a memory that agrees with the catalogue is answered from the catalogue. The
memory then knows what the catalogue has under the name, and the look-up is counted as answered from
memory if the memory knew it before. -/
theorem resolve_of_memory {memory : Table CatalogEntry} (hmemory : m.memory = some memory)
    (hagree : ∀ e, memory.get? name = some e → m.catalogue.get? name = some e) :
    (m.resolve name).1 = m.catalogue.get? name ∧
      ∃ memory' : Table CatalogEntry,
        (∀ n, memory'.get? n = if n = name then m.catalogue.get? name else memory.get? n) ∧
        (m.resolve name).2 =
          { m with
            memory := some memory'
            hits := m.hits + (memory.get? name).isSome.toNat
            misses := m.misses + (memory.get? name).isNone.toNat } := by
  have hsame {found : Option CatalogEntry} (hknown : memory.get? name = found) (n : String) :
      memory.get? n = if n = name then found else memory.get? n := by
    split
    · next hn => rw [hn, hknown]
    · rfl
  rw [resolve, hmemory]
  dsimp only
  cases hhit : memory.get? name with
  | some e =>
    rw [hagree e hhit]
    exact ⟨rfl, memory, hsame hhit, by simp [← hmemory]⟩
  | none =>
    cases m.catalogue.get? name with
    | none => exact ⟨rfl, memory, hsame hhit, by simp [← hmemory]⟩
    | some e => exact ⟨rfl, memory.insert name e, fun n => memory.get?_insert name n e, rfl⟩

namespace Reflects

variable {memory : Table CatalogEntry}

/-! ### One more call -/

/-- Catalogue and memory reflect an entry that is filed. -/
theorem register (h : Reflects caching past m) (e : CatalogEntry) :
    Reflects caching (past ++ [Call.register e]) (m.register e).2 where
  catalogue name := by
    have hcatalogue : (m.register e).2.catalogue = m.catalogue.insert e.name e := rfl
    have hfiled : filed [Call.register e] = [e] := rfl
    rw [hcatalogue, Table.get?_insert, filed_append, hfiled, last?_concat, h.catalogue]
  providers := h.providers
  remembers := by
    rw [← h.remembers]
    exact Option.isSome_map
  memory memory' hmemory name d := by
    obtain ⟨memory, hbefore, rfl⟩ := Option.map_eq_some_iff.1 hmemory
    have hfiled : filed [Call.register e] = [e] := rfl
    rw [Table.get?_erase, remembered_concat, filed_append, hfiled, last?_concat]
    by_cases hname : name = e.name
    · simp [hname]
    · simp [hname, Ne.symm hname, h.memory memory hbefore]
  figures := by
    have hcount : (past ++ [Call.register e]).countP Call.isResolve =
        past.countP Call.isResolve := by
      simp [Call.isResolve]
    rw [hcount]
    exact h.figures

/-- A name is in the memory if it is remembered. -/
theorem isSome_memory_iff (h : Reflects caching past m) (hmemory : m.memory = some memory)
    (name : String) : (memory.get? name).isSome ↔ Remembered past name := by
  rw [Option.isSome_iff_exists]
  constructor
  · rintro ⟨e, he⟩
    exact ((h.memory memory hmemory name e).1 he).1
  · intro hremembered
    obtain ⟨e, he⟩ := Option.isSome_iff_exists.1 hremembered.isSome
    exact ⟨e, (h.memory memory hmemory name e).2 ⟨hremembered, he⟩⟩

/-- What is in the memory is in the catalogue. -/
theorem catalogue_of_memory (h : Reflects caching past m) (hmemory : m.memory = some memory)
    (he : memory.get? name = some e) : m.catalogue.get? name = some e := by
  rw [h.catalogue]
  exact ((h.memory memory hmemory name e).1 he).2

/-- Without a memory, a look-up changes nothing. -/
theorem resolve_of_none (h : Reflects caching past m) (hmemory : m.memory = none) (name : String) :
    Reflects caching (past ++ [.resolve name]) (m.resolve name).2 := by
  have hkept : (m.resolve name).2 = m := by
    rw [Market.resolve, hmemory]
  have hcaching : caching = false := by
    rw [← h.remembers, hmemory]
    rfl
  rw [hkept]
  refine ⟨fun n => ?_, h.providers, h.remembers, fun memory hsome => ?_, ?_⟩
  · rw [filed_concat past rfl, h.catalogue]
  · exact absurd (hmemory.symm.trans hsome) nofun
  · rw [h.figures, hcaching]
    rfl

/-- With a memory, what is looked up is remembered, if it is found, and the look-up is counted. -/
theorem resolve_of_some (h : Reflects caching past m) (hmemory : m.memory = some memory)
    (name : String) : Reflects caching (past ++ [.resolve name]) (m.resolve name).2 := by
  have hcaching : caching = true := by
    rw [← h.remembers, hmemory]
    rfl
  obtain ⟨-, memory', hget, hafter⟩ :=
    resolve_of_memory hmemory fun e he => h.catalogue_of_memory hmemory he
  rw [hafter]
  refine ⟨fun n => ?_, h.providers, hcaching.symm, fun memory'' hsome n e => ?_, ?_⟩
  · rw [filed_concat past rfl, ← h.catalogue]
  · obtain rfl : memory' = memory'' := Option.some.inj hsome
    rw [hget, filed_concat past rfl, remembered_concat, h.catalogue]
    by_cases hn : n = name
    · -- a name that is found is remembered from now on, whether or not it was before
      subst hn
      simp only [if_true, true_and]
      exact ⟨fun hlast => ⟨.inl (Option.isSome_iff_exists.2 ⟨e, hlast⟩), hlast⟩, And.right⟩
    · simp [hn, Ne.symm hn, h.memory memory hmemory]
  · have hcount : (past ++ [Call.resolve name]).countP Call.isResolve =
        past.countP Call.isResolve + 1 := by
      simp [Call.isResolve]
    have hfigures := h.figures
    rw [hcount]
    simp only [hcaching, if_true] at hfigures ⊢
    cases memory.get? name <;> simp <;> omega

/-- Catalogue and memory reflect a look-up. -/
theorem resolve (h : Reflects caching past m) (name : String) :
    Reflects caching (past ++ [.resolve name]) (m.resolve name).2 := by
  cases hmemory : m.memory with
  | none => exact h.resolve_of_none hmemory name
  | some memory => exact h.resolve_of_some hmemory name

/-- Catalogue and memory reflect a call that changes nothing. -/
theorem asked (h : Reflects caching past m) (hentry : c.entry? = none)
    (hresolve : c.isResolve = false) : Reflects caching (past ++ [c]) m := by
  have hfiled := filed_concat past hentry
  have hremembered (name : String) : Remembered (past ++ [c]) name ↔ Remembered past name := by
    rw [remembered_concat]
    refine ⟨?_, fun hpast => .inr ⟨hpast, ?_⟩⟩
    · rintro (⟨rfl, -⟩ | ⟨hpast, -⟩)
      · exact absurd hresolve nofun
      · exact hpast
    · rintro e rfl
      exact absurd hentry nofun
  refine ⟨fun name => ?_, h.providers, h.remembers, fun memory hmemory name e => ?_, ?_⟩
  · rw [hfiled, h.catalogue]
  · rw [hfiled, hremembered, h.memory memory hmemory]
  · rw [List.countP_append, List.countP_singleton, hresolve, h.figures]
    rfl

/-- Catalogue and memory reflect one more call. -/
theorem serve (h : Reflects caching past m) (c : Call) :
    Reflects caching (past ++ [c]) (m.serve c).2 := by
  cases c with
  | register e => exact h.register e
  | resolve name => exact h.resolve name
  | isKnown _ => exact h.asked rfl rfl
  | isEmpty => exact h.asked rfl rfl
  | list => exact h.asked rfl rfl
  | byMonitoring _ => exact h.asked rfl rfl
  | info => exact h.asked rfl rfl

end Reflects

/-- Catalogue and memory reflect the calls made so far. -/
theorem reflects_after (caching : Bool) (past : List Call) :
    Reflects caching past ((new caching).after past) := by
  induction past using List.reverseRecOn with
  | nil => exact reflects_new caching
  | append_singleton past c ih =>
    rw [after_concat]
    exact ih.serve c

/-! ### Listings -/

/-- In a listing stand only entries that were last filed under the names they have. -/
theorem Reflects.name_eq (h : Reflects caching past m) (he : (name, e) ∈ m.catalogue.entries) :
    e.name = name := by
  rw [← Table.get?_eq_some_iff, h.catalogue] at he
  exact name_of_last? he

theorem Reflects.isListing (h : Reflects caching past m) : IsListing (filed past) m.list where
  ascending := by
    refine List.pairwise_map.2 (m.catalogue.ascending.imp_of_mem fun ha hb hlt => ?_)
    rwa [h.name_eq ha, h.name_eq hb]
  mem_iff e := by
    rw [← h.catalogue, Table.get?_eq_some_iff, list, Table.values, List.mem_map]
    constructor
    · rintro ⟨⟨name, d⟩, hmem, rfl⟩
      rwa [h.name_eq hmem]
    · intro hmem
      exact ⟨(e.name, e), hmem, rfl⟩

/-- A listing is empty if nothing was filed. -/
theorem IsListing.isEmpty_eq (h : IsListing files es) : es.isEmpty = files.isEmpty := by
  rw [Bool.eq_iff_iff, List.isEmpty_iff, List.isEmpty_iff]
  constructor
  · rintro rfl
    rcases List.eq_nil_or_concat' files with rfl | ⟨earlier, e, rfl⟩
    · rfl
    · have hmem : e ∈ [] := (h.mem_iff e).2 (by rw [last?_concat, if_pos rfl])
      exact absurd hmem List.not_mem_nil
  · rintro rfl
    refine List.eq_nil_iff_forall_not_mem.2 fun e he => ?_
    exact nomatch (h.mem_iff e).1 he

theorem watched?_eq_some_iff {mode : Monitoring} {r : Responsibility} :
    watched? mode e = some r ↔ e = .responsibility r ∧ r.monitoring = mode := by
  cases e with
  | capability c => simp [watched?]
  | responsibility s =>
    simp only [watched?, Option.ite_none_right_eq_some, Option.some.injEq,
      CatalogEntry.responsibility.injEq]
    constructor <;> rintro ⟨rfl, rfl⟩ <;> exact ⟨rfl, rfl⟩

/-- The responsibilities of a listing that are looked at in a mode. -/
theorem IsListing.isWatchList (h : IsListing files es) (mode : Monitoring) :
    IsWatchList files mode (es.filterMap (watched? mode)) where
  ascending := by
    refine h.ascending.filterMap _ fun a b hlt r hr s hs => ?_
    obtain ⟨rfl, -⟩ := watched?_eq_some_iff.1 hr
    obtain ⟨rfl, -⟩ := watched?_eq_some_iff.1 hs
    exact hlt
  mem_iff r := by
    rw [List.mem_filterMap]
    constructor
    · rintro ⟨e, he, hwatched⟩
      obtain ⟨rfl, hmode⟩ := watched?_eq_some_iff.1 hwatched
      exact ⟨hmode, (h.mem_iff _).1 he⟩
    · rintro ⟨hmode, hlast⟩
      exact ⟨.responsibility r, (h.mem_iff _).2 hlast, watched?_eq_some_iff.2 ⟨rfl, hmode⟩⟩

/-! ### Answers -/

namespace Reflects

theorem contains_eq (h : Reflects caching past m) (name : String) :
    m.catalogue.contains name = (last? (filed past) name).isSome := by
  rw [Table.contains, h.catalogue]

/-- A look-up is answered from what was filed, with a memory and without. -/
theorem resolve_eq (h : Reflects caching past m) (name : String) :
    (m.resolve name).1 = last? (filed past) name := by
  rw [← h.catalogue]
  cases hmemory : m.memory with
  | none => rw [Market.resolve, hmemory]
  | some memory => exact (resolve_of_memory hmemory fun e => h.catalogue_of_memory hmemory).1

/-- Every answer follows from what was filed. -/
theorem tells (h : Reflects caching past m) (c : Call) : Tells (filed past) c (m.serve c).1 := by
  cases c with
  | register e =>
    have hnew : (m.register e).1 = (last? (filed past) e.name).isNone := by
      rw [Market.register, h.contains_eq, Option.not_isSome]
    exact congrArg Answer.flag hnew
  | resolve name => exact congrArg Answer.entry (h.resolve_eq name)
  | isKnown name => exact congrArg Answer.flag (h.contains_eq name)
  | isEmpty =>
    have hempty : m.isEmpty = (filed past).isEmpty := by
      rw [← h.isListing.isEmpty_eq]
      exact List.isEmpty_map.symm
    exact congrArg Answer.flag hempty
  | list => exact ⟨_, h.isListing, rfl⟩
  | byMonitoring mode => exact ⟨_, h.isListing.isWatchList mode, rfl⟩
  | info =>
    refine ⟨m.list, m.info, h.isListing, rfl, ?_, rfl, ?_⟩
    · exact (List.length_map _).symm
    · rw [Market.info, h.providers]
      rfl

/-- The same calls make the same catalogue, with a memory and without. -/
theorem catalogue_eq {m' : Market} {caching' : Bool} (h : Reflects caching past m)
    (h' : Reflects caching' past m') : m.catalogue = m'.catalogue :=
  Table.ext_get? fun name => by rw [h.catalogue, h'.catalogue]

end Reflects

/-! ### With a memory and without -/

/-- An answer without what it says about a memory. -/
def withoutMemory : Answer → Answer
  | .marketInfo i => .marketInfo { i with caching := false, hits := 0, misses := 0 }
  | a => a

/-- What is answered with a memory is what is answered without one, but for what is said about the
memory. -/
theorem Reflects.withoutMemory_eq {m' : Market} (h : Reflects true past m)
    (h' : Reflects false past m') (c : Call) :
    withoutMemory (m.serve c).1 = (m'.serve c).1 := by
  have hcatalogue := h.catalogue_eq h'
  cases c with
  | register e =>
    have hnew : (m.register e).1 = (m'.register e).1 := by
      rw [Market.register, Market.register, hcatalogue]
    exact congrArg Answer.flag hnew
  | resolve name =>
    have hentry := (h.resolve_eq name).trans (h'.resolve_eq name).symm
    exact congrArg Answer.entry hentry
  | isKnown name => exact congrArg (fun t => Answer.flag (t.contains name)) hcatalogue
  | isEmpty => exact congrArg (fun t => Answer.flag t.isEmpty) hcatalogue
  | list => exact congrArg (fun t => Answer.entries t.values) hcatalogue
  | byMonitoring mode =>
    exact congrArg (fun t => Answer.responsibilities (t.values.filterMap (watched? mode)))
      hcatalogue
  | info =>
    have hfigures : m'.hits + m'.misses = 0 := h'.figures
    have hhits : m'.hits = 0 := by omega
    have hmisses : m'.misses = 0 := by omega
    have hproviders := h.providers.trans h'.providers.symm
    show Answer.marketInfo _ = Answer.marketInfo _
    rw [info, info, list, list, hcatalogue, hproviders, hhits, hmisses, h'.remembers]

/-- A call is counted as it should be, by a catalogue with a memory. -/
structure Counted (past : List Call) (c : Call) (before after : MarketInfo) : Prop where
  /-- There is a memory. -/
  caching : before.caching = true
  /-- All look-ups so far were counted. -/
  total : before.hits + before.misses = past.countP Call.isResolve
  /-- A look-up of a name that is remembered counts as answered from memory. -/
  hit : ∀ name, c = .resolve name → Remembered past name →
    after.hits = before.hits + 1 ∧ after.misses = before.misses
  /-- Any other look-up does not. -/
  miss : ∀ name, c = .resolve name → ¬ Remembered past name →
    after.hits = before.hits ∧ after.misses = before.misses + 1
  /-- Nothing but look-ups is counted. -/
  other : c.isResolve = false → after.hits = before.hits ∧ after.misses = before.misses

theorem Reflects.counted (h : Reflects true past m) (c : Call) :
    Counted past c m.info (m.serve c).2.info := by
  obtain ⟨memory, hmemory⟩ := Option.isSome_iff_exists.1 h.remembers
  have hcount (name : String) :
      (m.resolve name).2.hits = m.hits + (memory.get? name).isSome.toNat ∧
        (m.resolve name).2.misses = m.misses + (memory.get? name).isNone.toNat := by
    obtain ⟨-, memory', -, hafter⟩ :=
      resolve_of_memory hmemory fun e he => h.catalogue_of_memory hmemory he
    rw [hafter]
    exact ⟨rfl, rfl⟩
  refine ⟨h.remembers, h.figures, ?_, ?_, fun hresolve => ?_⟩
  · rintro name rfl hremembered
    have hsome := (h.isSome_memory_iff hmemory name).2 hremembered
    have hnone : (memory.get? name).isNone = false := by
      rw [← Option.not_isSome, hsome]
      rfl
    have hboth := hcount name
    rwa [hsome, hnone] at hboth
  · rintro name rfl hremembered
    have hsome : (memory.get? name).isSome = false := by
      rwa [← Bool.not_eq_true, h.isSome_memory_iff hmemory]
    have hnone : (memory.get? name).isNone = true := by
      rw [← Option.not_isSome, hsome]
      rfl
    have hboth := hcount name
    rwa [hsome, hnone] at hboth
  · cases c with
    | resolve _ => exact nomatch hresolve
    | register _ | isKnown _ | isEmpty | list | byMonitoring _ | info => exact ⟨rfl, rfl⟩

/-- Whatever calls were made of a catalogue, the next one is answered from the entries last filed
under their names, with a memory and without; with a memory the answer is the same as without, but
for what it says about the memory; and the look-ups that are counted as answered from memory are
those of names that were found before, and under which nothing was filed since. A workshop that is
asked the same by commands answers the same. -/
theorem answers_follow_last_filed (past : List Call) (c : Call) :
    (∀ caching, Tells (filed past) c (((new caching).after past).serve c).1) ∧
      withoutMemory (((new true).after past).serve c).1 = (((new false).after past).serve c).1 ∧
      Counted past c ((new true).after past).info (((new true).after past).serve c).2.info ∧
      ∀ attendant levels caching (w : Workshop), w.market = new caching →
        (Workshop.answer attendant c.command
          (Workshop.replies (Workshop.perform levels) (past.map Call.command) w).2).1 =
            some (((new caching).after past).serve c).1 := by
  refine ⟨fun caching => (reflects_after caching past).tells c,
    (reflects_after true past).withoutMemory_eq (reflects_after false past) c,
    (reflects_after true past).counted c, fun attendant levels caching w hw => ?_⟩
  rw [(answer_command attendant c _).1, market_replies, hw]

/-- Work that is looked up before and after it is watched over. -/
def baking : List Call :=
  [.resolve "bake", .register (.capability { name := "bake" }), .resolve "bake",
    .register (.responsibility { capability := { name := "bake" }, monitoring := .periodic }),
    .isKnown "bake", .resolve "bake"]

theorem answers_follow_last_filed_baking :
    Remembered baking "bake" ∧ ¬ Remembered baking "serve" ∧
      (∀ caching, (((new caching).after baking).serve (.resolve "bake")).1 =
        .entry (last? (filed baking) "bake")) ∧
      (last? (filed baking) "bake").bind CatalogEntry.monitoring? = some .periodic ∧
      ((new true).after baking).info.hits = 0 ∧ ((new true).after baking).info.misses = 3 ∧
      (((new true).after baking).serve (.resolve "bake")).2.info.hits = 1 := by
  have hfound : (last? (filed baking) "bake").isSome := rfl
  have hbake : Remembered baking "bake" :=
    ⟨baking.dropLast, [], rfl, hfound, fun e he => absurd he List.not_mem_nil⟩
  obtain ⟨htells, -, hcounted, -⟩ := answers_follow_last_filed baking (.resolve "bake")
  refine ⟨hbake, fun hserve => ?_, htells, rfl, rfl, rfl, (hcounted.hit "bake" rfl hbake).1⟩
  exact absurd hserve.isSome (by decide)

end Foreman.Market
