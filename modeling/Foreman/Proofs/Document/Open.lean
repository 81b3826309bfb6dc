import Foreman.Document.Form
import Mathlib
/-!
# Documents of open values

A value that an interchange text can spell has the keys of its objects in order, finite numbers, and
whole numbers of 64 bits. Its document has nothing to settle, nothing in it is unreadable, and it is
read back as an open value. All parts of such a document that a reader of records goes into are such
documents again.

## Main definitions

* `Foreman.Json.Sized`, `Foreman.Json.WellFormed`: the values that an interchange text can spell.
* `Foreman.Document.IsOpen`: the documents of such values.
* `Foreman.Form.IsOpen`: a form whose fields are such documents.

## Main results

* `Foreman.Document.IsOpen.asOpen_eq_ok_iff`: such a document is read as the value it is of.
* `Foreman.Document.IsOpen.isOpen_form`, `Foreman.Document.IsOpen.isOpen_named`: so are the fields
  of a record, given by name or in order, and what is left of it.
* `Foreman.Document.IsOpen.isOpen_untag`: and its tag, and what is beside it.
-/

namespace Foreman

namespace Json

mutual

/-- Every whole number of a value has 64 bits. -/
def Sized : Json → Prop
  | .null | .bool _ | .float _ | .text _ => True
  | .int n => -(2 ^ 63) ≤ n ∧ n < 2 ^ 64
  | .list items => SizedItems items
  | .object members => SizedMembers members

/-- Every whole number of every item has 64 bits. -/
def SizedItems : List Json → Prop
  | [] => True
  | item :: rest => item.Sized ∧ SizedItems rest

/-- Every whole number of every member has 64 bits. -/
def SizedMembers : List (String × Json) → Prop
  | [] => True
  | (_, value) :: rest => value.Sized ∧ SizedMembers rest

end

/-- A value that an interchange text can spell. -/
structure WellFormed (v : Json) : Prop where
  /-- The keys of its objects ascend strictly. -/
  canonical : v.Canonical
  /-- Its numbers are finite. -/
  finite : v.Finite
  /-- Its whole numbers have 64 bits. -/
  sized : v.Sized

@[simp] theorem finiteItems_iff (items : List Json) :
    FiniteItems items ↔ ∀ item ∈ items, item.Finite := by
  induction items with
  | nil => simp [FiniteItems]
  | cons item rest ih => simp [FiniteItems, ih]

@[simp] theorem finiteMembers_iff (members : List (String × Json)) :
    FiniteMembers members ↔ ∀ m ∈ members, m.2.Finite := by
  induction members with
  | nil => simp [FiniteMembers]
  | cons m rest ih => obtain ⟨key, value⟩ := m; simp [FiniteMembers, ih]

@[simp] theorem sizedItems_iff (items : List Json) :
    SizedItems items ↔ ∀ item ∈ items, item.Sized := by
  induction items with
  | nil => simp [SizedItems]
  | cons item rest ih => simp [SizedItems, ih]

@[simp] theorem sizedMembers_iff (members : List (String × Json)) :
    SizedMembers members ↔ ∀ m ∈ members, m.2.Sized := by
  induction members with
  | nil => simp [SizedMembers]
  | cons m rest ih => obtain ⟨key, value⟩ := m; simp [SizedMembers, ih]

theorem wellFormed_text (s : String) : WellFormed (.text s) :=
  ⟨by simp [Canonical], by simp [Finite], by simp [Sized]⟩

theorem wellFormed_list_iff {items : List Json} :
    WellFormed (.list items) ↔ ∀ item ∈ items, item.WellFormed := by
  constructor
  · rintro ⟨hc, hf, hs⟩ item hi
    simp only [Canonical, Finite, Sized, canonicalItems_iff, finiteItems_iff, sizedItems_iff]
      at hc hf hs
    exact ⟨hc item hi, hf item hi, hs item hi⟩
  · intro h
    refine ⟨?_, ?_, ?_⟩
    · simpa [Canonical] using fun item hi => (h item hi).canonical
    · simpa [Finite] using fun item hi => (h item hi).finite
    · simpa [Sized] using fun item hi => (h item hi).sized

theorem wellFormed_object_iff {members : List (String × Json)} :
    WellFormed (.object members) ↔
      (members.Pairwise fun a b => a.1 < b.1) ∧ ∀ m ∈ members, m.2.WellFormed := by
  constructor
  · rintro ⟨hc, hf, hs⟩
    simp only [Canonical, Finite, Sized, canonicalMembers_iff, finiteMembers_iff, sizedMembers_iff]
      at hc hf hs
    exact ⟨hc.1, fun m hm => ⟨hc.2 m hm, hf m hm, hs m hm⟩⟩
  · rintro ⟨hp, h⟩
    refine ⟨?_, ?_, ?_⟩
    · simp only [Canonical, canonicalMembers_iff]
      exact ⟨hp, fun m hm => (h m hm).canonical⟩
    · simp only [Finite, finiteMembers_iff]
      exact fun m hm => (h m hm).finite
    · simp only [Sized, sizedMembers_iff]
      exact fun m hm => (h m hm).sized

/-- Members of an object may be left out. -/
theorem WellFormed.filter {members : List (String × Json)} (h : (object members).WellFormed)
    (keep : String × Json → Bool) : (object (members.filter keep)).WellFormed := by
  rw [wellFormed_object_iff] at h ⊢
  exact ⟨h.1.sublist List.filter_sublist, fun m hm => h.2 m (List.mem_filter.1 hm).1⟩

/-! ### Documents of values -/

theorem documentItems_eq_map (items : List Json) : documentItems items = items.map document := by
  induction items with
  | nil => rfl
  | cons item rest ih => simp [documentItems, ih]

/-- A member of an object as a key and a value. -/
def documentMember (m : String × Json) : Document × Document :=
  (.text m.1, m.2.document)

theorem documentMembers_eq_map (members : List (String × Json)) :
    documentMembers members = members.map documentMember := by
  induction members with
  | nil => rfl
  | cons m rest ih => obtain ⟨key, value⟩ := m; simp [documentMembers, documentMember, ih]

theorem document_list (items : List Json) : (list items).document = .list (items.map document) := by
  rw [document, documentItems_eq_map]

theorem document_object (members : List (String × Json)) :
    (object members).document = .record (members.map documentMember) := by
  rw [document, documentMembers_eq_map]

theorem document_ofTable (t : Table Json) :
    (ofTable t).document = .record (t.entries.map documentMember) :=
  document_object t.entries

mutual

/-- Nothing in the document of a value is unreadable. -/
@[simp] theorem faulty_document : (v : Json) → v.document.faulty = false
  | .null | .bool _ | .int _ | .float _ | .text _ => by simp [document, Document.faulty]
  | .list items => by simp [document, Document.faulty, faultyItems_documentItems items]
  | .object members => by simp [document, Document.faulty, faultyMembers_documentMembers members]

theorem faultyItems_documentItems :
    (items : List Json) → Document.faultyItems (documentItems items) = false
  | [] => rfl
  | item :: rest => by
    simp [documentItems, Document.faultyItems, faulty_document item,
      faultyItems_documentItems rest]

theorem faultyMembers_documentMembers : (members : List (String × Json)) →
    Document.faultyMembers (documentMembers members) = false
  | [] => rfl
  | (key, value) :: rest => by
    simp [documentMembers, Document.faultyMembers, Document.faulty, faulty_document value,
      faultyMembers_documentMembers rest]

end

/-- A document of a value is set aside as it is. -/
@[simp] theorem aside_document (v : Json) : v.document.aside = .ok v.document := by
  simp [Document.aside]

/-- A value is read back from its document. -/
theorem WellFormed.asOpen_document {v : Json} (hv : v.WellFormed) : v.document.asOpen = .ok v := by
  simp [Document.asOpen, json?_document v hv.canonical hv.finite]

/-- Only the null value stands for no value where one is optional. -/
theorem isAbsent_document {v : Json} (hv : v ≠ .null) : v.document.isAbsent = false := by
  cases v <;> first | rfl | exact absurd rfl hv

theorem deniesNull_document (v : Json) : v.document.deniesNull = false := by
  cases v <;> rfl

end Json

/-! ### Open documents -/

namespace Document

/-- A document is that of a value that an interchange text can spell. -/
def IsOpen (d : Document) : Prop :=
  ∃ v : Json, v.WellFormed ∧ v.document = d

variable {d : Document}

theorem isOpen_document {v : Json} (hv : v.WellFormed) : v.document.IsOpen :=
  ⟨v, hv, rfl⟩

/-- An open document is read as the value that it is of. -/
theorem IsOpen.asOpen_eq_ok_iff (hd : d.IsOpen) {v : Json} :
    d.asOpen = .ok v ↔ v.WellFormed ∧ d = v.document := by
  obtain ⟨w, hw, rfl⟩ := hd
  rw [hw.asOpen_document]
  constructor
  · intro h
    obtain rfl : w = v := by simpa using h
    exact ⟨hw, rfl⟩
  · rintro ⟨hv, h⟩
    rw [← hw.asOpen_document, h, hv.asOpen_document]

theorem isOpen_list_iff {ds : List Document} : (list ds).IsOpen ↔ ∀ d ∈ ds, d.IsOpen := by
  constructor
  · rintro ⟨v, hv, h⟩ d hd
    cases v with
    | list items =>
      rw [Json.document_list] at h
      obtain rfl : items.map Json.document = ds := by simpa using h
      obtain ⟨item, hi, rfl⟩ := List.mem_map.1 hd
      exact isOpen_document (Json.wellFormed_list_iff.1 hv item hi)
    | _ => simp [Json.document] at h
  · intro h
    choose! f hf using h
    refine ⟨.list (ds.map f), Json.wellFormed_list_iff.2 fun item hi => ?_, ?_⟩
    · obtain ⟨d, hd, rfl⟩ := List.mem_map.1 hi
      exact (hf d hd).1
    · rw [Json.document_list, List.map_map, list.injEq]
      exact (List.map_congr_left fun d hd => (hf d hd).2).trans (List.map_id _)

/-- What an open record is made of. -/
theorem IsOpen.exists_object {ms : List (Document × Document)} (h : (record ms).IsOpen) :
    ∃ members, (Json.object members).WellFormed ∧ ms = members.map Json.documentMember := by
  obtain ⟨v, hv, h⟩ := h
  cases v with
  | object members =>
    rw [Json.document_object] at h
    exact ⟨members, hv, by simpa using h.symm⟩
  | _ => simp [Json.document] at h

/-- Members of an open record may be left out. -/
theorem IsOpen.exists_filter {ms : List (Document × Document)} (h : (record ms).IsOpen)
    (keep : Document × Document → Bool) :
    ∃ v : Json, v.WellFormed ∧ v.document = record (ms.filter keep) := by
  obtain ⟨members, hm, rfl⟩ := h.exists_object
  rw [List.filter_map]
  exact ⟨_, hm.filter _, Json.document_object _⟩

/-- What is left of an open record without some members is open, also once it is settled. -/
theorem IsOpen.settled_filter {ms : List (Document × Document)} (h : (record ms).IsOpen)
    (keep : Document × Document → Bool) : (record (ms.filter keep)).settled.IsOpen := by
  obtain ⟨v, hv, hrest⟩ := h.exists_filter keep
  exact ⟨v, hv, by rw [← hrest, v.settled_document]⟩

theorem IsOpen.of_mem_record {ms : List (Document × Document)} (h : (record ms).IsOpen)
    {x : Document} (hx : x ∈ (Fields.named ms).values) : x.IsOpen := by
  obtain ⟨members, hm, rfl⟩ := h.exists_object
  simp only [Fields.values, List.map_map, List.mem_map] at hx
  obtain ⟨m, hmem, rfl⟩ := hx
  exact isOpen_document ((Json.wellFormed_object_iff.1 hm).2 m hmem)

/-- The items of an open list are open. -/
theorem IsOpen.of_mem_items (hd : d.IsOpen) {ds : List Document} (h : d.items = .ok ds) :
    ∀ x ∈ ds, x.IsOpen := by
  obtain ⟨v, hv, rfl⟩ := hd
  cases v with
  | list items =>
    rw [Json.document_list] at h
    obtain rfl : items.map Json.document = ds := by simpa [Document.items] using h
    exact isOpen_list_iff.1 ⟨_, hv, Json.document_list items⟩
  | _ => simp [Json.document, Document.items] at h

/-- The members of an open record are texts with open values. -/
theorem IsOpen.of_mem_members (hd : d.IsOpen) {ms : List (Document × Document)}
    (h : d.members = .ok ms) : ∀ m ∈ ms, m.2.IsOpen := by
  obtain ⟨v, hv, rfl⟩ := hd
  cases v with
  | object members =>
    rw [Json.document_object] at h
    obtain rfl : members.map Json.documentMember = ms := by simpa [Document.members] using h
    exact fun m hm => IsOpen.of_mem_record ⟨_, hv, Json.document_object members⟩
      (List.mem_map.2 ⟨m, hm, rfl⟩)
  | _ => simp [Json.document, Document.members] at h

end Document

/-- The fields of a form are open. -/
def Form.IsOpen {d : Document} (form : Form d) : Prop :=
  ∀ x ∈ form.fields.values, x.IsOpen

namespace Document

variable {d : Document} {shape : Shape} {buffered : Bool}

/-- The fields of an open document are open. -/
theorem IsOpen.isOpen_form (hd : d.IsOpen) {form : Form d}
    (h : Form.of? shape buffered d = .ok form) : form.IsOpen := by
  obtain ⟨v, hv, rfl⟩ := hd
  cases v with
  | object members =>
    simp only [Json.document, Form.of?] at h
    split at h
    · obtain rfl := Except.ok.inj h
      exact fun x hx => IsOpen.of_mem_record ⟨_, hv, rfl⟩ hx
    · exact nomatch h
  | list items =>
    obtain rfl := Except.ok.inj h
    exact isOpen_list_iff.1 ⟨_, hv, rfl⟩
  | _ => exact nomatch h

/-- So are those that are given by name only, and what is left of them. -/
theorem IsOpen.isOpen_named (hd : d.IsOpen) {form : Form d} (h : Form.named? shape d = .ok form) :
    form.IsOpen ∧ form.rest.IsOpen := by
  obtain ⟨v, hv, rfl⟩ := hd
  cases v with
  | object members =>
    simp only [Json.document, Form.named?, Form.of?] at h
    split at h
    · obtain rfl := Except.ok.inj h
      have hopen : (Document.record (Json.documentMembers members)).IsOpen := ⟨_, hv, rfl⟩
      exact ⟨fun x hx => hopen.of_mem_record hx, hopen.settled_filter _⟩
    · cases h
  | _ => cases h

/-- An open document is set aside as it is. -/
theorem IsOpen.aside_eq (hd : d.IsOpen) : d.aside = .ok d := by
  obtain ⟨v, -, rfl⟩ := hd
  exact v.aside_document

/-- The tag of an open document is open, and so is the rest. -/
theorem IsOpen.isOpen_untag (hd : d.IsOpen) {tag title : String} {value rest : Document}
    (h : d.untag tag title = .ok (value, rest)) : value.IsOpen ∧ rest.IsOpen := by
  obtain ⟨v, hv, rfl⟩ := hd
  cases v with
  -- the tag of an object is the one member of that name, that of a list its first item
  | object members =>
    have hopen : (record (Json.documentMembers members)).IsOpen := ⟨_, hv, rfl⟩
    simp only [Json.document, Document.untag] at h
    split at h
    · exact nomatch h
    · next i x hocc =>
      obtain ⟨w, hw, hrest⟩ := hopen.exists_filter fun m => m.1.keyText? != some tag
      rw [← hrest, w.aside_document] at h
      obtain ⟨rfl, rfl⟩ : x = value ∧ w.document = rest := by
        simpa [bind, Except.bind, pure, Except.pure] using h
      refine ⟨hopen.of_mem_record ?_, ⟨w, hw, rfl⟩⟩
      exact Form.mem_values_of_mem_occurrences (hocc ▸ List.mem_singleton.2 rfl)
    · exact nomatch h
  | list items =>
    cases items with
    | nil => exact nomatch h
    | cons item items =>
      have hitems := Json.wellFormed_list_iff.1 hv
      have haside : (list (Json.documentItems items)).aside = .ok (Json.list items).document :=
        (Json.list items).aside_document
      obtain ⟨rfl, rfl⟩ : item.document = value ∧ (Json.list items).document = rest := by
        simpa [Json.document, Json.documentItems, Document.untag, haside, bind, Except.bind, pure,
          Except.pure] using h
      exact ⟨isOpen_document (hitems item (by simp)), isOpen_document
        (Json.wellFormed_list_iff.2 fun x hx => hitems x (by simp [hx]))⟩
  | _ => exact nomatch h

end Document

end Foreman
