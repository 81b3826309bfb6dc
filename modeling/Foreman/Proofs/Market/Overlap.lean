import Foreman.Proofs.Market.Accesses
/-!
# What overlapping look-ups are answered

Look-ups and filings overlap. An answer is fresh if the entry was written no earlier than any that
was filed under its name before the question began. The catalogue only gives fresh answers. So does
the memory, as long as it is told in time of what was read. It is told too late if, since an entry
was read, another was written under its name and the memory has already been cleared of the name:
it then keeps the replaced entry.

## Main definitions

* `Foreman.Market.Told.Fresh`: an answer is as new as every filing that had ended when its question
  began.
* `Foreman.Market.Desk.Sound`, `Foreman.Market.Hall.Sound`: what may be relied upon, whatever
  overlaps.
* `Foreman.Market.Hall.InTime`: the memory is never told too late of an entry of a name.
* `Foreman.Market.Desk.Current`: what the memory has under a name is fresh.

## Main results

* `Foreman.Market.Desk.Sound.attend`, `Foreman.Market.Hall.Sound.play`: what may be relied upon is
  kept by every access, and so by all of them.
* `Foreman.Market.Desk.Current.attend`, `Foreman.Market.Hall.Sound.current_play`: the memory is kept
  fresh by every access but a late one.
* `Foreman.Market.answers_fresh_unless_remembered_late`: which answers are fresh, for every order of
  the accesses.
* `Foreman.Market.overtaken_answer_not_fresh`: an order in which the memory is told too late.
-/

namespace Foreman.Market

/-! ### What is fresh -/

/-- The entry of a name is as new as every one of some filings under the name. -/
def NotBefore (files : List CatalogEntry) (known : List Filing) (name : String)
    (e : CatalogEntry) : Prop :=
  e.name = name ∧ ∀ f ∈ known, f.entry.name = name → e ∈ files.drop f.number

/-- An answer is as new as every filing under the name that had ended when the question began; if
there was one, there is an answer. -/
def Told.Fresh (files : List CatalogEntry) (t : Told) : Prop :=
  match t.answer with
  | some e => NotBefore files t.question.known t.question.name e
  | none => ∀ f ∈ t.question.known, f.entry.name ≠ t.question.name

/-- An entry was the last written under a name when so many entries were written. -/
structure ReadAt (files : List CatalogEntry) (since : ℕ) (name : String) (e : CatalogEntry) :
    Prop where
  /-- So many entries were written. -/
  le_length : since ≤ files.length
  /-- It was the last of them under the name. -/
  last : last? (files.take since) name = some e

variable {files more : List CatalogEntry} {known known' : List Filing} {name : String}
  {e : CatalogEntry} {since : ℕ} {d d' : Desk} {v : Visit} {t : Told} {h : Hall} {moves : List Move}

theorem NotBefore.append (h : NotBefore files known name e) (more : List CatalogEntry) :
    NotBefore (files ++ more) known name e :=
  ⟨h.1, fun f hf hname => by
    rw [List.drop_append]
    exact List.mem_append_left _ (h.2 f hf hname)⟩

theorem NotBefore.anti (h : NotBefore files known name e) (hsub : known' ⊆ known) :
    NotBefore files known' name e :=
  ⟨h.1, fun f hf => h.2 f (hsub hf)⟩

theorem Told.Fresh.append (h : t.Fresh files) (more : List CatalogEntry) :
    t.Fresh (files ++ more) := by
  obtain ⟨question, answer, recalled⟩ := t
  cases answer with
  | some e => exact NotBefore.append h more
  | none => exact h

theorem ReadAt.append (h : ReadAt files since name e) (more : List CatalogEntry) :
    ReadAt (files ++ more) since name e where
  le_length := Nat.le_trans h.le_length (by simp)
  last := by
    rw [List.take_append_of_le_length h.le_length]
    exact h.last

/-- Under the name of an entry stands, once it is written, that entry or a later one. -/
theorem exists_last?_of_getElem? {i : ℕ} {f : CatalogEntry} (hf : files[i]? = some f) :
    ∃ e ∈ files.drop i, last? files f.name = some e := by
  induction files using List.reverseRecOn with
  | nil => exact nomatch hf
  | append_singleton files last ih =>
    have hi : i ≤ files.length := by
      obtain ⟨hlt, -⟩ := List.getElem?_eq_some_iff.1 hf
      simpa [Nat.lt_succ_iff] using hlt
    rw [List.drop_append_of_le_length hi, last?_concat]
    by_cases hname : f.name = last.name
    · exact ⟨last, by simp, if_pos hname⟩
    · have hne : i ≠ files.length := by
        rintro rfl
        rw [List.getElem?_concat_length] at hf
        exact hname (congrArg CatalogEntry.name (Option.some.inj hf).symm)
      rw [List.getElem?_append_left (by omega)] at hf
      obtain ⟨e, he, hlast⟩ := ih hf
      exact ⟨e, List.mem_append_left _ he, by rw [if_neg hname, hlast]⟩

/-- What was read is as new as the filings that were written before. -/
theorem ReadAt.notBefore (h : ReadAt files since name e)
    (hknown : ∀ f ∈ known, files[f.number]? = some f.entry)
    (hbefore : ∀ f ∈ known, f.entry.name = name → f.number < since) :
    NotBefore files known name e := by
  refine ⟨name_of_last? h.last, fun f hf hname => ?_⟩
  have hread : (files.take since)[f.number]? = some f.entry := by
    rw [List.getElem?_take_of_lt (hbefore f hf hname), hknown f hf]
  obtain ⟨e', he', hlast⟩ := exists_last?_of_getElem? hread
  obtain rfl : e' = e := by
    rw [hname, h.last] at hlast
    exact (Option.some.inj hlast).symm
  rw [List.drop_take] at he'
  exact List.mem_of_mem_take he'

/-! ### What the catalogue answers -/

/-- What may be relied upon of a look-up or a filing under way. -/
def Desk.Holds (d : Desk) : Visit → Prop
  | .asking q | .missing q => q.known ⊆ d.returned
  | .found q e since =>
    q.known ⊆ d.returned ∧ ReadAt d.filed since q.name e ∧ ∀ f ∈ q.known, f.number < since
  | .entered number e => d.filed[number]? = some e
  | .filing _ | .left => True

/-- What may be relied upon of a catalogue and what has come of the look-ups and filings. -/
structure Desk.Sound (d : Desk) : Prop where
  /-- Under each name stands the entry last written. -/
  catalogue : ∀ name, d.market.catalogue.get? name = last? d.filed name
  /-- The filings that have ended were written. -/
  returned : ∀ f ∈ d.returned, d.filed[f.number]? = some f.entry
  /-- What the memory did not answer is fresh. -/
  told : ∀ t ∈ d.told, t.recalled = false → t.Fresh d.filed

/-- The same, and of all that is under way. -/
structure Hall.Sound (h : Hall) : Prop where
  /-- Of the catalogue. -/
  desk : h.desk.Sound
  /-- Of the look-ups and filings under way. -/
  visits : ∀ v ∈ h.visits, h.desk.Holds v

/-- One state of affairs follows another. -/
structure Desk.Later (d d' : Desk) : Prop where
  /-- Entries are only added. -/
  filed : ∃ more, d'.filed = d.filed ++ more
  /-- What has ended has ended. -/
  returned : d.returned ⊆ d'.returned

theorem Desk.attend_later (d : Desk) (v : Visit) : d.Later (d.attend v).2 := by
  cases v with
  | asking q =>
    rw [attend]
    split <;> exact ⟨⟨[], by simp [tell]⟩, by simp [tell]⟩
  | missing q =>
    rw [attend]
    split <;> exact ⟨⟨[], by simp [tell]⟩, by simp [tell]⟩
  | found q e since => exact ⟨⟨[], by simp [attend, tell]⟩, by simp [attend, tell]⟩
  | filing e => exact ⟨⟨[e], rfl⟩, List.Subset.refl _⟩
  | entered number e => exact ⟨⟨[], by simp [attend]⟩, List.subset_append_left _ _⟩
  | left => exact ⟨⟨[], by simp [attend]⟩, List.Subset.refl _⟩

/-- What may be relied upon of a look-up or a filing, the others do not disturb. -/
theorem Desk.Holds.later (h : d.Holds v) (hlater : d.Later d') : d'.Holds v := by
  obtain ⟨⟨more, hfiled⟩, hreturned⟩ := hlater
  cases v with
  | asking q | missing q => exact List.Subset.trans h hreturned
  | found q e since =>
    obtain ⟨hknown, hread, hbefore⟩ := h
    refine ⟨List.Subset.trans hknown hreturned, ?_, hbefore⟩
    rw [hfiled]
    exact hread.append more
  | entered number e =>
    have hlt : number < d.filed.length := (List.getElem?_eq_some_iff.1 h).1
    show d'.filed[number]? = some e
    rw [hfiled, List.getElem?_append_left hlt]
    exact h
  | filing _ | left => trivial

namespace Desk.Sound

theorem lt_of_mem (h : d.Sound) {f : Filing} (hf : f ∈ d.returned) : f.number < d.filed.length :=
  (List.getElem?_eq_some_iff.1 (h.returned f hf)).1

/-- What the catalogue has is as new as every filing that has ended. -/
theorem readAt (h : d.Sound) (hlisted : d.market.catalogue.get? name = some e) :
    ReadAt d.filed d.filed.length name e where
  le_length := Nat.le_refl _
  last := by rw [List.take_length, ← h.catalogue, hlisted]

/-- What the catalogue does not have was not filed. -/
theorem name_ne (h : d.Sound) (hunlisted : d.market.catalogue.get? name = none) {f : Filing}
    (hf : f ∈ d.returned) : f.entry.name ≠ name := by
  rintro rfl
  obtain ⟨e, -, hlast⟩ := exists_last?_of_getElem? (h.returned f hf)
  rw [h.catalogue, hlast] at hunlisted
  exact nomatch hunlisted

/-- An answer is given that is fresh, unless the memory gave it. -/
theorem tell (h : d.Sound) (ht : t.recalled = false → t.Fresh d.filed) : (d.tell t).Sound where
  catalogue := h.catalogue
  returned := h.returned
  told := List.forall_mem_append.2 ⟨h.told, List.forall_mem_singleton.2 ht⟩

/-- Memory and counts make no difference. -/
theorem of_catalogue_eq (h : d.Sound) {m : Market} (hm : m.catalogue = d.market.catalogue) :
    ({ d with market := m } : Desk).Sound where
  catalogue name := by
    show m.catalogue.get? name = _
    rw [hm, h.catalogue]
  returned := h.returned
  told := h.told

/-- An access keeps what may be relied upon, of the catalogue and of the look-up or filing. -/
theorem attend (h : d.Sound) (hv : d.Holds v) :
    (d.attend v).2.Sound ∧ (d.attend v).2.Holds (d.attend v).1 := by
  cases v with
  | asking q =>
    have hasked := h.of_catalogue_eq (catalogue_recollect d.market q.name)
    rw [Desk.attend]
    split
    · exact ⟨hasked.tell Bool.noConfusion, trivial⟩
    · exact ⟨hasked, hv⟩
  | missing q =>
    rw [Desk.attend]
    split
    · next e hlisted => exact ⟨h, hv, h.readAt hlisted, fun f hf => h.lt_of_mem (hv hf)⟩
    · next hunlisted => exact ⟨h.tell fun _ f hf => h.name_ne hunlisted (hv hf), trivial⟩
  | found q e since =>
    obtain ⟨hknown, hread, hbefore⟩ := hv
    have hfresh : NotBefore d.filed q.known q.name e :=
      hread.notBefore (fun f hf => h.returned f (hknown hf)) fun f hf _ => hbefore f hf
    have hremembered : ({ d with market := d.market.remember q.name e } : Desk).Sound :=
      h.of_catalogue_eq rfl
    exact ⟨hremembered.tell fun _ => hfresh, trivial⟩
  | filing e =>
    refine ⟨⟨fun name => ?_, fun f hf => ?_, fun t ht hrecalled => ?_⟩, ?_⟩
    · show (d.market.catalogue.insert e.name e).get? name = last? (d.filed ++ [e]) name
      rw [Table.get?_insert, last?_concat, h.catalogue]
    · show (d.filed ++ [e])[f.number]? = some f.entry
      rw [List.getElem?_append_left (h.lt_of_mem hf), h.returned f hf]
    · exact (h.told t ht hrecalled).append [e]
    · exact List.getElem?_concat_length
  | entered number e =>
    have hreturned : ∀ f ∈ d.returned ++ [⟨number, e⟩], d.filed[f.number]? = some f.entry :=
      List.forall_mem_append.2 ⟨h.returned, List.forall_mem_singleton.2 hv⟩
    exact ⟨⟨h.catalogue, hreturned, h.told⟩, trivial⟩
  | left => exact ⟨h, trivial⟩

end Desk.Sound

namespace Hall.Sound

theorem start (caching : Bool) : (Hall.start caching).Sound where
  desk := ⟨fun _ => rfl, nofun, nofun⟩
  visits := nofun

/-- One more look-up or filing begins. -/
theorem joined (hsound : h.Sound) (hv : h.desk.Holds v) :
    Hall.Sound ⟨h.desk, h.visits ++ [v]⟩ where
  desk := hsound.desk
  visits := List.forall_mem_append.2 ⟨hsound.visits, List.forall_mem_singleton.2 hv⟩

theorem move (hsound : h.Sound) (m : Move) : (h.move m).Sound := by
  cases m with
  | ask name => exact hsound.joined (List.Subset.refl _)
  | file e => exact hsound.joined trivial
  | go k =>
    rw [Hall.move]
    split
    · exact hsound
    · next v hk =>
      have hv := hsound.visits v (List.mem_of_getElem? hk)
      obtain ⟨hdesk, hnext⟩ := hsound.desk.attend hv
      refine ⟨hdesk, fun v' hv' => ?_⟩
      rcases List.mem_or_eq_of_mem_set hv' with hother | rfl
      · exact (hsound.visits v' hother).later (h.desk.attend_later v)
      · exact hnext

theorem play (hsound : h.Sound) (moves : List Move) : (h.play moves).Sound := by
  induction moves generalizing h with
  | nil => exact hsound
  | cons m rest ih => exact ih (hsound.move m)

end Hall.Sound

/-! ### What the memory answers -/

/-- The next access does not tell the memory too late of an entry of a name: no filing under the
name both wrote its entry after that one was read and has ended. -/
def Desk.InTime (d : Desk) (name : String) : Visit → Prop
  | .found q _ since => q.name = name → ∀ f ∈ d.returned, f.entry.name = name → f.number < since
  | _ => True

/-- The look-up or filing whose access comes next. -/
def Hall.next? (h : Hall) : Move → Option Visit
  | .go k => h.visits[k]?
  | .ask _ | .file _ => none

/-- In the course of some moves, the memory is never told too late of an entry of a name. -/
def Hall.InTime (name : String) : Hall → List Move → Prop
  | _, [] => True
  | h, m :: rest => (∀ v ∈ h.next? m, h.desk.InTime name v) ∧ (h.move m).InTime name rest

instance (d : Desk) (name : String) : (v : Visit) → Decidable (d.InTime name v)
  | .found q _ since => inferInstanceAs
      (Decidable (q.name = name → ∀ f ∈ d.returned, f.entry.name = name → f.number < since))
  | .asking _ | .missing _ | .filing _ | .entered _ _ | .left => isTrue trivial

instance decidableInTime (name : String) :
    (h : Hall) → (moves : List Move) → Decidable (h.InTime name moves)
  | _, [] => isTrue trivial
  | h, m :: rest =>
    have := decidableInTime name (h.move m) rest
    inferInstanceAs (Decidable (_ ∧ _))

/-- What the memory has under a name, and what it answered about the name, is fresh. -/
structure Desk.Current (d : Desk) (name : String) : Prop where
  /-- What it has is as new as the filings that have ended. -/
  memory : ∀ memory, d.market.memory = some memory → ∀ e, memory.get? name = some e →
    NotBefore d.filed d.returned name e
  /-- What it answered is fresh. -/
  told : ∀ t ∈ d.told, t.recalled = true → t.question.name = name → t.Fresh d.filed

namespace Desk.Current

/-- An answer is given that is fresh, if the memory gives it and it is about the name. -/
theorem tell (h : d.Current name)
    (ht : t.recalled = true → t.question.name = name → t.Fresh d.filed) :
    (d.tell t).Current name where
  memory := h.memory
  told := List.forall_mem_append.2 ⟨h.told, List.forall_mem_singleton.2 ht⟩

/-- Catalogue and counts make no difference. -/
theorem of_memory_eq (h : d.Current name) {m : Market} (hm : m.memory = d.market.memory) :
    ({ d with market := m } : Desk).Current name where
  memory := by
    show ∀ memory, m.memory = some memory → _
    rw [hm]
    exact h.memory
  told := h.told

/-- The memory is told of an entry that is as new as the filings that have ended, if it is one of
the name. -/
theorem remember (h : d.Current name) {other : String}
    (he : other = name → NotBefore d.filed d.returned name e) :
    ({ d with market := d.market.remember other e } : Desk).Current name where
  memory memory hmemory e' he' := by
    obtain ⟨before, hbefore, rfl⟩ := Option.map_eq_some_iff.1 hmemory
    rw [Table.get?_insert] at he'
    by_cases hname : name = other
    · rw [if_pos hname] at he'
      obtain rfl := Option.some.inj he'
      exact he hname.symm
    · rw [if_neg hname] at he'
      exact h.memory before hbefore e' he'
  told := h.told

/-- An entry is written. -/
theorem enter (h : d.Current name) (e : CatalogEntry) :
    ({ d with market := d.market.enter e, filed := d.filed ++ [e] } : Desk).Current name where
  memory memory hmemory e' he' := (h.memory memory hmemory e' he').append [e]
  told t ht hrecalled hname := (h.told t ht hrecalled hname).append [e]

/-- A filing ends, the memory being cleared of its name. -/
theorem forget (h : d.Current name) (number : ℕ) (e : CatalogEntry) :
    ({ d with market := d.market.forget e.name, returned := d.returned ++ [⟨number, e⟩] } :
      Desk).Current name where
  memory memory hmemory e' he' := by
    obtain ⟨before, hbefore, rfl⟩ := Option.map_eq_some_iff.1 hmemory
    rw [Table.get?_erase] at he'
    by_cases hname : name = e.name
    · rw [if_pos hname] at he'
      exact nomatch he'
    · rw [if_neg hname] at he'
      obtain ⟨hentry, hnew⟩ := h.memory before hbefore e' he'
      have hother : e.name = name → e' ∈ d.filed.drop number := fun h => absurd h.symm hname
      exact ⟨hentry, List.forall_mem_append.2 ⟨hnew, List.forall_mem_singleton.2 hother⟩⟩
  told := h.told

/-- An access keeps the memory fresh, unless it tells it too late. -/
theorem attend (h : d.Current name) (hsound : d.Sound) (hv : d.Holds v)
    (htime : d.InTime name v) : (d.attend v).2.Current name := by
  cases v with
  | asking q =>
    have hasked := h.of_memory_eq (memory_recollect d.market q.name)
    rw [Desk.attend]
    split
    · next e hrecall =>
      obtain ⟨memory, hmemory, hget⟩ := recollect_eq_some_iff.1 hrecall
      refine hasked.tell ?_
      rintro - rfl
      exact (h.memory memory hmemory e hget).anti hv
    · exact hasked
  | missing q =>
    rw [Desk.attend]
    split
    · exact h
    · exact h.tell Bool.noConfusion
  | found q e since =>
    obtain ⟨-, hread, -⟩ := hv
    have hremembered :
        ({ d with market := d.market.remember q.name e } : Desk).Current name := by
      refine h.remember ?_
      rintro rfl
      exact hread.notBefore hsound.returned (htime rfl)
    exact hremembered.tell Bool.noConfusion
  | filing e => exact h.enter e
  | entered number e => exact h.forget number e
  | left => exact h

end Desk.Current

namespace Hall

theorem start_current (caching : Bool) (name : String) :
    (start caching).desk.Current name where
  memory memory hmemory e he := by
    cases caching with
    | false => exact nomatch hmemory
    | true =>
      obtain rfl : Table.empty = memory := Option.some.inj hmemory
      exact nomatch he
  told := nofun

/-- While the memory is told of the entries of a name in time, it stays fresh. -/
theorem Sound.current_play (hsound : h.Sound) (hcurrent : h.desk.Current name)
    (htime : h.InTime name moves) : (h.play moves).desk.Current name := by
  induction moves generalizing h with
  | nil => exact hcurrent
  | cons m rest ih =>
    obtain ⟨hnow, hlater⟩ := htime
    refine ih (hsound.move m) ?_ hlater
    cases m with
    | ask _ | file _ => exact hcurrent
    | go k =>
      rw [Hall.move]
      split
      · exact hcurrent
      · next v hk =>
        have hv := hsound.visits v (List.mem_of_getElem? hk)
        exact hcurrent.attend hsound.desk hv (hnow v hk)

end Hall

/-! ### Without a memory -/

/-- There is no memory, and none has answered. -/
structure Desk.Forgetful (d : Desk) : Prop where
  /-- There is none. -/
  memory : d.market.memory = none
  /-- None has answered. -/
  told : ∀ t ∈ d.told, t.recalled = false

namespace Desk.Forgetful

theorem tell (h : d.Forgetful) (ht : t.recalled = false) : (d.tell t).Forgetful where
  memory := h.memory
  told := List.forall_mem_append.2 ⟨h.told, List.forall_mem_singleton.2 ht⟩

theorem attend (h : d.Forgetful) (v : Visit) : (d.attend v).2.Forgetful := by
  cases v with
  | asking q =>
    have hrecall : d.market.recollect q.name = (none, d.market) := by rw [recollect, h.memory]
    rw [Desk.attend, hrecall]
    exact h
  | missing q =>
    rw [Desk.attend]
    split
    · exact h
    · exact h.tell rfl
  | found q e since =>
    have hremembered : ({ d with market := d.market.remember q.name e } : Desk).Forgetful :=
      ⟨congrArg (Option.map _) h.memory, h.told⟩
    exact hremembered.tell rfl
  | filing e => exact ⟨h.memory, h.told⟩
  | entered number e => exact ⟨congrArg (Option.map _) h.memory, h.told⟩
  | left => exact h

end Desk.Forgetful

/-- Without a memory, none answers. -/
theorem Desk.Forgetful.play (hforgetful : h.desk.Forgetful) (moves : List Move) :
    (h.play moves).desk.Forgetful := by
  induction moves generalizing h with
  | nil => exact hforgetful
  | cons m rest ih =>
    refine ih ?_
    cases m with
    | ask _ | file _ => exact hforgetful
    | go k =>
      rw [Hall.move]
      split
      · exact hforgetful
      · next v _ => exact hforgetful.attend v

/-! ### Both together -/

/-- Whatever look-ups and filings overlap, and in whatever order their accesses come: an answer
that the memory did not give is as new as every filing under the name that had ended when the
question began; without a memory all answers are; and with one, so are all answers about a name of
whose entries the memory is never told too late. Where nothing comes between them, the accesses are
those of looking up and of filing. -/
theorem answers_fresh_unless_remembered_late (caching : Bool) (moves : List Move) :
    (∀ t ∈ ((Hall.start caching).play moves).desk.told, t.recalled = false →
        t.Fresh ((Hall.start caching).play moves).desk.filed) ∧
      (caching = false → ∀ t ∈ ((Hall.start caching).play moves).desk.told,
        t.Fresh ((Hall.start caching).play moves).desk.filed) ∧
      (∀ name, (Hall.start caching).InTime name moves →
        ∀ t ∈ ((Hall.start caching).play moves).desk.told, t.question.name = name →
          t.Fresh ((Hall.start caching).play moves).desk.filed) ∧
      (∀ (h : Hall) (name : String), ∃ recalled,
        (h.play (.ask name :: List.replicate 3 (.go h.visits.length))).desk =
          ({ h.desk with market := (h.desk.market.resolve name).2 }).tell
            ⟨⟨name, h.desk.returned⟩, (h.desk.market.resolve name).1, recalled⟩) ∧
      ∀ (h : Hall) (e : CatalogEntry),
        (h.play (.file e :: List.replicate 2 (.go h.visits.length))).desk =
          { h.desk with
            market := (h.desk.market.register e).2
            filed := h.desk.filed ++ [e]
            returned := h.desk.returned ++ [⟨h.desk.filed.length, e⟩] } := by
  have hsound := (Hall.Sound.start caching).play moves
  refine ⟨hsound.desk.told, ?_, fun name htime t ht hname => ?_, fun h name => ?_, fun h e => ?_⟩
  · rintro rfl t ht
    have hforgetful : (Hall.start false).desk.Forgetful := ⟨rfl, nofun⟩
    exact hsound.desk.told t ht ((hforgetful.play moves).told t ht)
  · have hcurrent :=
      (Hall.Sound.start caching).current_play (Hall.start_current caching name) htime
    cases hrecalled : t.recalled with
    | true => exact hcurrent.told t ht hrecalled hname
    | false => exact hsound.desk.told t ht hrecalled
  · obtain ⟨recalled, hplay⟩ := h.play_ask name
    exact ⟨recalled, congrArg Hall.desk hplay⟩
  · exact congrArg Hall.desk (h.play_file e)

/-- Bread of one kind. -/
def rye : CatalogEntry :=
  .capability { name := "bread", description := "rye" }

/-- Bread of another. -/
def wheat : CatalogEntry :=
  .capability { name := "bread", description := "wheat" }

/-- Rye is written, looked up and remembered while wheat is being filed; then wheat is looked up
twice. -/
def crossing : List Move :=
  [.file rye, .ask "bread", .go 0, .go 1, .go 0, .go 1, .file wheat, .go 2, .go 1, .go 2,
    .ask "bread", .go 3, .go 3, .go 3, .ask "bread", .go 4]

theorem answers_fresh_unless_remembered_late_crossing :
    (Hall.start true).InTime "bread" crossing ∧
      (∀ t ∈ ((Hall.start true).play crossing).desk.told, t.question.name = "bread" →
        t.Fresh ((Hall.start true).play crossing).desk.filed) ∧
      ((Hall.start true).play crossing).desk.told =
        [⟨⟨"bread", []⟩, some rye, false⟩,
          ⟨⟨"bread", [⟨0, rye⟩, ⟨1, wheat⟩]⟩, some wheat, false⟩,
          ⟨⟨"bread", [⟨0, rye⟩, ⟨1, wheat⟩]⟩, some wheat, true⟩] ∧
      ((Hall.start false).play crossing).desk.told.length = 2 := by
  have htime : (Hall.start true).InTime "bread" crossing := by decide
  obtain ⟨-, -, hfresh, -⟩ := answers_fresh_unless_remembered_late true crossing
  exact ⟨htime, hfresh "bread" htime, rfl, rfl⟩

/-- Rye is filed and looked up; while the memory is still to be told of it, wheat is filed; and when
the memory has been told, bread is looked up again. -/
def overtaking : List Move :=
  [.file rye, .go 0, .go 0, .ask "bread", .go 1, .go 1, .file wheat, .go 2, .go 2, .go 1,
    .ask "bread", .go 3]

/-- The memory may be told too late, and then answers with an entry that was replaced before the
question began. -/
theorem overtaken_answer_not_fresh :
    ((Hall.start true).play overtaking).desk.filed = [rye, wheat] ∧
      ∃ t ∈ ((Hall.start true).play overtaking).desk.told,
        t.question = ⟨"bread", [⟨0, rye⟩, ⟨1, wheat⟩]⟩ ∧ t.answer = some rye ∧
          ¬ t.Fresh ((Hall.start true).play overtaking).desk.filed := by
  have hfiled : ((Hall.start true).play overtaking).desk.filed = [rye, wheat] := rfl
  have htold : ((Hall.start true).play overtaking).desk.told =
      [⟨⟨"bread", [⟨0, rye⟩]⟩, some rye, false⟩,
        ⟨⟨"bread", [⟨0, rye⟩, ⟨1, wheat⟩]⟩, some rye, true⟩] := rfl
  refine ⟨hfiled, _, htold ▸ List.mem_cons_of_mem _ List.mem_cons_self, rfl, rfl, fun hfresh => ?_⟩
  have hrye : rye ∈ [wheat] := (hfiled ▸ hfresh.2) ⟨1, wheat⟩ (by simp) rfl
  have hdescription := congrArg (·.described.description) (List.mem_singleton.1 hrye)
  exact absurd hdescription (by decide)

end Foreman.Market
