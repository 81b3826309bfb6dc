import Foreman.Definition.Text
import Foreman.Proofs.Document.Order
/-!
# Drafts of manifests

A draft is a manifest before its entries are read: three lists of open values, of which a document
may leave out any. A draft is sifted entry by entry: what fits its record is kept, in order, and of
everything else is noted where it stood and why it does not fit.

## Main definitions

* `Foreman.Draft`, `Foreman.Draft.sift`: a draft, and what remains of it.
* `Foreman.Document.draft?`: the draft that a document holds, if it holds one.

## Main results

* `Foreman.Manifest.tolerant_eq_ok_iff`: read tolerantly, a document is its draft, sifted.
* `Foreman.Document.IsOpen.strict_eq_ok_iff`: read strictly, an open document is its draft, sifted,
  if nothing is refused.
-/

namespace Foreman

/-- What is said of an entry that was set aside is true: it stands in its place, and does not fit
for the reason given. -/
def Rejection.Explains {α : Type} (r : Rejection) (read : Document → Except Misfit α)
    (entries : List Json) : Prop :=
  ∃ v why, entries[r.index]? = some v ∧ read v.document = .error why ∧ r.why = some why

/-- A manifest before its entries are read. -/
structure Draft where
  /-- What is to be read as capabilities. -/
  capabilities : List Json
  /-- What is to be read as responsibilities. -/
  responsibilities : List Json
  /-- What is to be read as kinds of resources. -/
  resources : List Json

namespace Draft

variable {α : Type}

/-- The entries that fit, in order. -/
def accepted (read : Document → Except Misfit α) (entries : List Json) : List α :=
  entries.filterMap fun v => (read v.document).toOption

/-- The entries that do not fit, each with its place and why, in order. -/
def refused (heading : String) (read : Document → Except Misfit α) (entries : List Json) :
    List Rejection :=
  entries.zipIdx.filterMap fun e =>
    match read e.1.document with
    | .ok _ => none
    | .error why => some ⟨heading, e.2, some why⟩

/-- A draft, read entry by entry. -/
def sift (D : Draft) : Manifest where
  capabilities := accepted (Capability.read false) D.capabilities
  responsibilities := accepted Responsibility.read D.responsibilities
  resources := accepted ResourceKind.read D.resources
  rejected := refused "capabilities" (Capability.read false) D.capabilities ++
    refused "responsibilities" Responsibility.read D.responsibilities ++
    refused "resources" ResourceKind.read D.resources

/-- The number of entries. -/
def size (D : Draft) : Nat :=
  D.capabilities.length + D.responsibilities.length + D.resources.length

end Draft

/-! ### Sections -/

theorem Section.readFrom_map_document {α : Type} (name : String)
    (read : Document → Except Misfit α) (entries : List Json) (i : Nat) :
    Section.readFrom name read i (entries.map Json.document) =
      ⟨Draft.accepted read entries, (entries.zipIdx i).filterMap fun e =>
        match read e.1.document with
        | .ok _ => none
        | .error why => some ⟨name, e.2, some why⟩⟩ := by
  induction entries generalizing i with
  | nil => rfl
  | cons v rest ih =>
    rw [List.map_cons, Section.readFrom, ih (i + 1), List.zipIdx_cons, List.filterMap_cons]
    cases hread : read v.document with
    | ok a => simp [Draft.accepted, hread, Except.toOption]
    | error why => simp [Draft.accepted, hread, Except.toOption]

/-- A section keeps the entries that fit and sets the others aside. -/
theorem Section.read_map_document {α : Type} (name : String)
    (read : Document → Except Misfit α) (entries : List Json) :
    Section.read name read (entries.map Json.document) =
      ⟨Draft.accepted read entries, Draft.refused name read entries⟩ :=
  readFrom_map_document name read entries 0

namespace Document

/-- The headings of the sections of a manifest. -/
def headings : List String :=
  ["capabilities", "responsibilities", "resources"]

/-- What stands under a heading: the values of that name in a record, the item in its place in a
list. -/
def under (heading : String) (place : Nat) : Document → List Document
  | .record members => (members.filter fun m => m.1.keyText? = some heading).map (·.2)
  | .list items => items[place]?.toList
  | _ => []

/-- Whether a document may hold a manifest: a record by name, or a list of at most three
sections. -/
def isOutline : Document → Bool
  | .record members => members.all fun m => m.1.keyText?.isSome
  | .list items => items.length ≤ 3
  | _ => false

/-- The section under a heading, if nothing or one list of readable entries stands there. -/
def section? {α : Type} (read : Document → Except Misfit α) (heading : String) (place : Nat)
    (d : Document) : Option (List α) :=
  match d.under heading place with
  | [] => some []
  | [x] => (x.asList read).toOption
  | _ => none

/-- The draft that a document holds. -/
def draft? (d : Document) : Option Draft :=
  if d.isOutline then do
    let capabilities ← d.section? asOpen "capabilities" 0
    let responsibilities ← d.section? asOpen "responsibilities" 1
    let resources ← d.section? asOpen "resources" 2
    return ⟨capabilities, responsibilities, resources⟩
  else none

/-- Whether a document says what it is. Blanks, plain scalars and tagged documents leave it to their
reader. -/
def isExplicit : Document → Bool
  | .blank | .plain _ | .tagged _ _ => false
  | _ => true

end Document

namespace Form

variable {α : Type} {d : Document} {form : Form d} {shape : Shape} {name : String}
  {read : Document → Except Misfit α}

theorem toOption_eq_some_iff {x : Except Misfit α} {a : α} : x.toOption = some a ↔ x = .ok a := by
  cases x <;> simp [Except.toOption]

theorem found_eq_under (hd : d.isExplicit) (hform : of? shape false d = .ok form)
    (name : String) : form.found name = d.under name (shape.fields.idxOf name) := by
  cases d with
  | record members =>
    simp only [of?] at hform
    split at hform
    · obtain rfl := Except.ok.inj hform
      exact map_occurrences name members 0
    · cases hform
  | list items =>
    obtain rfl := Except.ok.inj hform
    rfl
  | blank | plain | tagged => cases hd
  | _ => cases hform

/-- A section is read from what stands under its heading, if that is nothing or one list of entries
that are read. -/
theorem mayList_eq_done_iff (hd : d.isExplicit) (hform : of? shape false d = .ok form)
    {as : List α} : form.may name [] (Document.asList read) = .done as ↔
      d.section? read name (shape.fields.idxOf name) = some as := by
  rw [may_eq_done_iff, found_eq_under hd hform, Document.section?]
  -- by name a section may be there twice, which is refused; in a list it has one place
  match d.under name (shape.fields.idxOf name) with
  | [] => exact ⟨fun h => congrArg some h.symm, fun h => (Option.some.inj h).symm⟩
  | [x] => exact toOption_eq_some_iff.symm
  | _ :: _ :: _ => exact iff_of_false id nofun

/-- A reading of three sections is the value of a document that may hold them. -/
theorem close_done_iff (hd : d.isExplicit) {title : String} {b : α}
    (hform : of? ⟨title, Document.headings⟩ false d = .ok form) :
    form.close (.done b) = .ok b ↔ d.isOutline := by
  cases d with
  | record members =>
    simp only [of?] at hform
    split at hform
    · next hkeys =>
      obtain rfl := Except.ok.inj hform
      simpa [close, Document.isOutline] using hkeys
    · cases hform
  | list items =>
    obtain rfl := Except.ok.inj hform
    simp only [close, Document.isOutline, decide_eq_true_eq]
    split
    · next hlen => simpa [Document.headings] using hlen
    · next hlen => simpa [Document.headings] using hlen
  | blank | plain | tagged => cases hd
  | _ => cases hform

theorem exists_of_isOutline (h : d.isOutline) (shape : Shape) :
    ∃ form, of? shape false d = .ok form := by
  cases d with
  | record members => exact ⟨_, if_pos h⟩
  | list items => exact ⟨_, rfl⟩
  | _ => exact nomatch h

/-- Three sections are read from a document that holds them. -/
theorem readSections_eq_ok_iff {β γ δ : Type} (hd : d.isExplicit) {title : String}
    {f : List α → List β → List γ → δ} {readB : Document → Except Misfit β}
    {readC : Document → Except Misfit γ} {m : δ} :
    (do
      let form ← of? ⟨title, Document.headings⟩ false d
      form.close <|
        f <$> form.may "capabilities" [] (Document.asList read)
          <*> form.may "responsibilities" [] (Document.asList readB)
          <*> form.may "resources" [] (Document.asList readC)) = .ok m ↔
      d.isOutline ∧ ∃ as bs cs, d.section? read "capabilities" 0 = some as ∧
        d.section? readB "responsibilities" 1 = some bs ∧
          d.section? readC "resources" 2 = some cs ∧ f as bs cs = m := by
  rw [Except.bind_eq_ok_iff]
  constructor
  · rintro ⟨form, hform, h⟩
    have hdone := done_of_close h
    rw [hdone] at h
    simp only [Reading.seq_eq_done_iff, Reading.map_eq_done_iff] at hdone
    obtain ⟨_, ⟨_, ⟨as, has, rfl⟩, bs, hbs, rfl⟩, cs, hcs, rfl⟩ := hdone
    exact ⟨(close_done_iff hd hform).1 h, as, bs, cs, (mayList_eq_done_iff hd hform).1 has,
      (mayList_eq_done_iff hd hform).1 hbs, (mayList_eq_done_iff hd hform).1 hcs, rfl⟩
  · rintro ⟨houtline, as, bs, cs, has, hbs, hcs, rfl⟩
    obtain ⟨form, hform⟩ := exists_of_isOutline houtline ⟨title, Document.headings⟩
    refine ⟨form, hform, ?_⟩
    rw [(mayList_eq_done_iff hd hform).2 has, (mayList_eq_done_iff hd hform).2 hbs,
      (mayList_eq_done_iff hd hform).2 hcs]
    exact (close_done_iff hd hform).2 houtline

end Form

/-! ### The two readings -/

namespace Document

variable {α : Type} {heading : String} {place : Nat}

theorem mapM_entry (ds : List Document) : ds.mapM Format.json.entry =
    (ds.mapM asOpen).map (List.map Json.document) := by
  induction ds with
  | nil => rfl
  | cons d rest ih =>
    rw [List.mapM_cons, List.mapM_cons, ih]
    change (d.asOpen.map Json.document >>= _) = _
    cases d.asOpen with
    | error why => rfl
    | ok v => cases rest.mapM asOpen <;> rfl

/-- The entries of a section, prepared to be read as records, are open values. -/
theorem section?_entry (d : Document) : d.section? Format.json.entry heading place =
    (d.section? asOpen heading place).map (List.map Json.document) := by
  have hlist (x : Document) : (x.asList Format.json.entry).toOption =
      (x.asList asOpen).toOption.map (List.map Json.document) := by
    unfold asList
    cases x.items with
    | error why => rfl
    | ok ds =>
      change (ds.mapM Format.json.entry).toOption = (ds.mapM asOpen).toOption.map _
      rw [mapM_entry]
      cases ds.mapM asOpen <;> rfl
  unfold section?
  split
  · rfl
  · exact hlist _
  · rfl

theorem draft?_eq_some_iff {d : Document} {D : Draft} : d.draft? = some D ↔ d.isOutline ∧
    d.section? asOpen "capabilities" 0 = some D.capabilities ∧
      d.section? asOpen "responsibilities" 1 = some D.responsibilities ∧
        d.section? asOpen "resources" 2 = some D.resources := by
  obtain ⟨cs, rs, ks⟩ := D
  unfold draft?
  split
  · next houtline =>
    simp only [Option.bind_eq_bind, Option.bind_eq_some_iff, Option.pure_def, Option.some.injEq,
      Draft.mk.injEq]
    constructor
    · rintro ⟨_, hcs, _, hrs, _, hks, rfl, rfl, rfl⟩
      exact ⟨houtline, hcs, hrs, hks⟩
    · rintro ⟨-, hcs, hrs, hks⟩
      exact ⟨_, hcs, _, hrs, _, hks, rfl, rfl, rfl⟩
  · next houtline => simp [houtline]

end Document

namespace Manifest

variable {d : Document} {m : Manifest}

/-- The manifest of three sections whose entries are read one by one. -/
def ofSections (s : List Document × List Document × List Document) : Manifest :=
  let capabilities := Section.read "capabilities" (Capability.read false) s.1
  let responsibilities := Section.read "responsibilities" Responsibility.read s.2.1
  let resources := Section.read "resources" ResourceKind.read s.2.2
  ⟨capabilities.kept, responsibilities.kept, resources.kept,
    capabilities.rejected ++ responsibilities.rejected ++ resources.rejected⟩

theorem ofSections_map_document (D : Draft) : ofSections (D.capabilities.map Json.document,
    D.responsibilities.map Json.document, D.resources.map Json.document) = D.sift := by
  simp only [ofSections, Section.read_map_document]
  rfl

/-- Read tolerantly, a document that holds a draft is that draft, sifted. -/
theorem tolerant_eq_ok_iff (hd : d.isExplicit) :
    tolerant Format.json.entry d = .ok m ↔ ∃ D, d.draft? = some D ∧ D.sift = m := by
  have hsections : tolerant Format.json.entry d = .ok m ↔ ∃ s, (do
      let form ← Form.of? ⟨"struct RawDefinitions", Document.headings⟩ false d
      form.close <| (fun cs rs ks => (cs, rs, ks))
        <$> form.may "capabilities" [] (Document.asList Format.json.entry)
        <*> form.may "responsibilities" [] (Document.asList Format.json.entry)
        <*> form.may "resources" [] (Document.asList Format.json.entry)) = .ok s ∧
      ofSections s = m := by
    constructor
    · intro h
      obtain ⟨form, hform, h⟩ := Except.bind_eq_ok_iff.1 h
      obtain ⟨s, hs, h⟩ := Except.bind_eq_ok_iff.1 h
      exact ⟨s, Except.bind_eq_ok_iff.2 ⟨form, hform, hs⟩, Except.ok.inj h⟩
    · rintro ⟨s, h, rfl⟩
      obtain ⟨form, hform, hs⟩ := Except.bind_eq_ok_iff.1 h
      exact Except.bind_eq_ok_iff.2 ⟨form, hform, Except.bind_eq_ok_iff.2 ⟨s, hs, rfl⟩⟩
  simp only [hsections, Form.readSections_eq_ok_iff hd, Document.section?_entry,
    Document.draft?_eq_some_iff, Option.map_eq_some_iff]
  constructor
  · rintro ⟨_, ⟨houtline, _, _, _, ⟨cs, hcs, rfl⟩, ⟨rs, hrs, rfl⟩, ⟨ks, hks, rfl⟩, rfl⟩, rfl⟩
    exact ⟨⟨cs, rs, ks⟩, ⟨houtline, hcs, hrs, hks⟩, (ofSections_map_document _).symm⟩
  · rintro ⟨D, ⟨houtline, hcs, hrs, hks⟩, rfl⟩
    exact ⟨_, ⟨houtline, _, _, _, ⟨_, hcs, rfl⟩, ⟨_, hrs, rfl⟩, ⟨_, hks, rfl⟩, rfl⟩,
      ofSections_map_document D⟩

/-! ### Reading strictly -/

/-- Read strictly, a document has to hold three sections of which every entry fits. -/
theorem strict_eq_ok_iff (hd : d.isExplicit) : strict d = .ok m ↔
    d.isOutline ∧ d.section? (Capability.read false) "capabilities" 0 = some m.capabilities ∧
      d.section? Responsibility.read "responsibilities" 1 = some m.responsibilities ∧
        d.section? ResourceKind.read "resources" 2 = some m.resources ∧ m.rejected = [] := by
  refine (Form.readSections_eq_ok_iff hd).trans (and_congr_right fun _ => ?_)
  constructor
  · rintro ⟨_, _, _, hcs, hrs, hks, rfl⟩
    exact ⟨hcs, hrs, hks, rfl⟩
  · rintro ⟨hcs, hrs, hks, hrejected⟩
    refine ⟨_, _, _, hcs, hrs, hks, ?_⟩
    rw [← hrejected]

end Manifest

namespace Draft

variable {α : Type} {read : Document → Except Misfit α}

theorem mem_refused_iff {heading : String} {entries : List Json} {r : Rejection} :
    r ∈ refused heading read entries ↔ r.heading = heading ∧ r.Explains read entries := by
  obtain ⟨h, i, w⟩ := r
  simp only [refused, List.mem_filterMap, Prod.exists, List.mem_zipIdx_iff_getElem?]
  constructor
  · rintro ⟨v, j, hv, h⟩
    split at h
    · exact nomatch h
    · next why hwhy =>
      obtain ⟨rfl, rfl, rfl⟩ := Rejection.mk.inj (Option.some.inj h)
      exact ⟨rfl, v, why, hv, hwhy, rfl⟩
  · rintro ⟨rfl, v, why, hv, hwhy, rfl⟩
    exact ⟨v, i, hv, by rw [hwhy]⟩

/-- Entries are refused in their order. -/
theorem pairwise_refused (heading : String) (entries : List Json) :
    (refused heading read entries).Pairwise fun r r' => r.index < r'.index := by
  have hplaces : entries.zipIdx.Pairwise fun e e' => e.2 < e'.2 := by
    refine List.pairwise_map.1 ?_
    rw [List.zipIdx_map_snd]
    exact List.pairwise_lt_range'
  refine List.pairwise_filterMap.2 (hplaces.imp fun {e e'} hlt r hr r' hr' => ?_)
  split at hr
  · exact nomatch hr
  · split at hr'
    · exact nomatch hr'
    · obtain rfl := Option.some.inj hr
      obtain rfl := Option.some.inj hr'
      exact hlt

/-- Every entry is either accepted or refused. -/
theorem length_accepted_add_length_refused (heading : String)
    (read : Document → Except Misfit α) (entries : List Json) :
    (accepted read entries).length + (refused heading read entries).length = entries.length := by
  have hread := Section.length_read heading read (entries.map Json.document)
  rwa [Section.read_map_document, List.length_map] at hread

theorem refused_eq_nil_iff {heading : String} {entries : List Json} :
    refused heading read entries = [] ↔ ∀ v ∈ entries, ∃ a, read v.document = .ok a := by
  rw [List.eq_nil_iff_forall_not_mem]
  constructor
  · intro h v hv
    obtain ⟨i, hi⟩ := List.getElem?_of_mem hv
    cases hread : read v.document with
    | ok a => exact ⟨a, rfl⟩
    | error why => exact absurd (mem_refused_iff.2 ⟨rfl, v, why, hi, hread, rfl⟩) (h ⟨_, i, _⟩)
  · rintro h r hr
    obtain ⟨-, v, why, hv, hwhy, -⟩ := mem_refused_iff.1 hr
    obtain ⟨a, ha⟩ := h v (List.mem_of_getElem? hv)
    exact nomatch hwhy.symm.trans ha

/-- All entries of a section are read if none is refused. -/
theorem mapM_eq_ok_iff (heading : String) {entries : List Json} {as : List α} :
    entries.mapM (fun v => read v.document) = .ok as ↔
      accepted read entries = as ∧ refused heading read entries = [] := by
  rw [refused_eq_nil_iff]
  induction entries generalizing as with
  | nil => simp [accepted, pure, Except.pure, eq_comm]
  | cons v rest ih =>
    rw [List.mapM_cons, Except.bind_eq_ok_iff]
    cases hread : read v.document with
    | error why => simp [hread]
    | ok a =>
      simp only [Except.ok.injEq, exists_eq_left', Except.bind_eq_ok_iff, ih, accepted,
        List.filterMap_cons, hread, Except.toOption, List.forall_mem_cons, pure, Except.pure]
      constructor
      · rintro ⟨_, ⟨rfl, hrest⟩, rfl⟩
        exact ⟨rfl, ⟨a, rfl⟩, hrest⟩
      · rintro ⟨rfl, -, hrest⟩
        exact ⟨_, ⟨rfl, hrest⟩, rfl⟩

end Draft

namespace Document

variable {α : Type} {read : Document → Except Misfit α} {heading : String} {place : Nat}
  {d : Document}

theorem IsOpen.of_mem_under (hd : d.IsOpen) {x : Document} (hx : x ∈ d.under heading place) :
    x.IsOpen := by
  cases d with
  | record members =>
    obtain ⟨m, hm, rfl⟩ := List.mem_map.1 hx
    exact hd.of_mem_record (List.mem_map_of_mem (List.mem_filter.1 hm).1)
  | list items => exact isOpen_list_iff.1 hd x (List.mem_of_getElem? (Option.mem_toList.1 hx))
  | _ => exact nomatch hx

/-- The items of a list of open values are these values. -/
theorem asList_asOpen {items : List Json} (h : (Json.list items).WellFormed) :
    (Json.list items).document.asList asOpen = .ok items := by
  have hback : asList asOpen (Json.list (items.map id)).document = .ok items :=
    asList_list fun w hw => (Json.wellFormed_list_iff.1 h w hw).asOpen_document
  rwa [List.map_id] at hback

/-- What is read from a list of open values is read from each of them. -/
theorem asList_eq_ok_iff {v : Json} (hv : v.WellFormed) {as : List α} :
    v.document.asList read = .ok as ↔ ∃ entries, v.document.asList asOpen = .ok entries ∧
      entries.mapM (fun w => read w.document) = .ok as := by
  cases v with
  | list items =>
    simp only [asList_asOpen hv, Except.ok.injEq, exists_eq_left']
    have hmap : (Json.list items).document.asList read =
        items.mapM (read ∘ Json.document) := by
      rw [Json.document_list, ← List.mapM_map]
      rfl
    rw [hmap]
    rfl
  | _ => exact ⟨(nomatch ·), fun ⟨_, h, _⟩ => nomatch h⟩

/-- A section of an open document is read entry by entry. -/
theorem IsOpen.section?_eq_some_iff (hd : d.IsOpen) {as : List α} :
    d.section? read heading place = some as ↔ ∃ entries,
      d.section? asOpen heading place = some entries ∧
        entries.mapM (fun w => read w.document) = .ok as := by
  unfold section?
  split
  · simp [pure, Except.pure]
  · next x hx =>
    obtain ⟨v, hv, rfl⟩ : x.IsOpen := hd.of_mem_under (hx ▸ List.mem_cons_self)
    simp only [Form.toOption_eq_some_iff]
    exact asList_eq_ok_iff hv
  · simp

theorem IsOpen.isExplicit (hd : d.IsOpen) : d.isExplicit := by
  obtain ⟨v, -, rfl⟩ := hd
  cases v <;> rfl

end Document

/-- A section of an open document is read if none of its entries is refused. -/
theorem Document.IsOpen.section?_eq_some_iff_refused {α : Type} {read : Document → Except Misfit α}
    {d : Document} (hd : d.IsOpen) {heading : String} {place : Nat} {as : List α} :
    d.section? read heading place = some as ↔ ∃ entries,
      d.section? asOpen heading place = some entries ∧ Draft.accepted read entries = as ∧
        Draft.refused heading read entries = [] :=
  hd.section?_eq_some_iff.trans
    (exists_congr fun _ => and_congr_right fun _ => Draft.mapM_eq_ok_iff heading)

/-- Read strictly, an open document is the draft it holds, sifted, if no entry is refused. -/
theorem Document.IsOpen.strict_eq_ok_iff {d : Document} (hd : d.IsOpen) {m : Manifest} :
    Manifest.strict d = .ok m ↔ ∃ D, d.draft? = some D ∧ D.sift = m ∧ m.rejected = [] := by
  refine (Manifest.strict_eq_ok_iff hd.isExplicit).trans ?_
  constructor
  · rintro ⟨houtline, hcapabilities, hresponsibilities, hresources, hrejected⟩
    obtain ⟨cs, hcs, hca, hcr⟩ := hd.section?_eq_some_iff_refused.1 hcapabilities
    obtain ⟨rs, hrs, hra, hrr⟩ := hd.section?_eq_some_iff_refused.1 hresponsibilities
    obtain ⟨ks, hks, hka, hkr⟩ := hd.section?_eq_some_iff_refused.1 hresources
    refine ⟨⟨cs, rs, ks⟩, draft?_eq_some_iff.2 ⟨houtline, hcs, hrs, hks⟩, ?_, hrejected⟩
    obtain ⟨_, _, _, rejected⟩ := m
    simp only at hca hra hka hrejected
    simp only [Draft.sift, hca, hra, hka, hcr, hrr, hkr, List.append_nil, hrejected]
  · rintro ⟨D, hD, rfl, hrejected⟩
    obtain ⟨houtline, hcs, hrs, hks⟩ := draft?_eq_some_iff.1 hD
    have hrefused := hrejected
    simp only [Draft.sift, List.append_eq_nil_iff] at hrefused
    obtain ⟨⟨hcr, hrr⟩, hkr⟩ := hrefused
    exact ⟨houtline, hd.section?_eq_some_iff_refused.2 ⟨_, hcs, rfl, hcr⟩,
      hd.section?_eq_some_iff_refused.2 ⟨_, hrs, rfl, hrr⟩,
      hd.section?_eq_some_iff_refused.2 ⟨_, hks, rfl, hkr⟩, hrejected⟩

end Foreman
