import Foreman.Characteristic
import Foreman.Proofs.Document.Magnitude
import Foreman.Proofs.Document.ReadBack
/-!
# Characteristics of open values

Every open value is a characteristic. A flag, a text and a list of texts stand for themselves, a
whole number for the number nearest to it, and every other value is kept as it stands, so that what
is written of it is that value.

## Main definitions

* `Foreman.Characteristic.Shows`: which kind of characteristic an open value is, said by its form.
* `Foreman.Characteristic.Writable`, `Foreman.Characteristics.Writable`: what can be written as what
  it is.

## Main results

* `Foreman.Characteristic.read_document`: which characteristic an open value is.
* `Foreman.Characteristic.read_shows`: every open value is a characteristic of the kind its form
  says, is written as it was but for whole numbers, and is read back.
* `Foreman.Characteristic.readsBack`: a characteristic is read back.
* `Foreman.Characteristic.read_eq_other_iff`: which values are kept as they stand.
* `Foreman.Characteristic.Writable.read_json`: what can be written as what it is is read back.
-/

namespace Foreman

namespace Characteristic

/-- The texts of a list of open values, if all of them are texts. -/
def textsOf? : List Json → Option (List String)
  | [] => some []
  | .text s :: rest => (textsOf? rest).map (s :: ·)
  | _ :: _ => none

/-- The characteristic that an open value is. -/
def ofJson : Json → Characteristic
  | .bool b => flag b
  | .int n => number (Float.ofInt n)
  | .float x => number x
  | .text s => text s
  | .list items =>
    match textsOf? items with
    | some ss => list ss
    | none => other (.list items)
  | v => other v

theorem texts?_map_document (items : List Json) :
    texts? (items.map Json.document) = textsOf? items := by
  induction items with
  | nil => rfl
  | cons item rest ih =>
    cases item with
    | text s => simp [Json.document, texts?, textsOf?, ih]
    | _ => rfl

theorem textsOf?_map_text (ss : List String) : textsOf? (ss.map .text) = some ss := by
  induction ss with
  | nil => rfl
  | cons s rest ih => simp [textsOf?, ih]

theorem ofSettled?_document {v : Json} (hv : v.WellFormed) :
    ofSettled? v.document = some (ofJson v) := by
  have hjson := Json.json?_document v hv.canonical hv.finite
  cases v with
  | null => rfl
  | bool b => rfl
  | int n => rfl
  | float x => rfl
  | text s => rfl
  | list items =>
    rw [Json.document_list] at hjson ⊢
    rw [ofSettled?, texts?_map_document, ofJson]
    cases textsOf? items with
    | some ss => rfl
    | none => rw [hjson]; rfl
  | object members =>
    rw [Json.document] at hjson ⊢
    rw [ofSettled?, hjson]
    rfl
    all_goals simp

/-- An open value is read as the characteristic that it is. -/
theorem read_document {v : Json} (hv : v.WellFormed) : read v.document = .ok (ofJson v) := by
  rw [read, Json.settled_document, ofSettled?_document hv]

/-- What is written of a characteristic is again the value that it is. -/
theorem read_json_ofJson {v : Json} (hv : v.WellFormed) :
    read (ofJson v).json.document = .ok (ofJson v) := by
  -- a number that is not finite would be written as null, and so read back as that
  have number_json {x : Float} (hx : x.isFinite = true) :
      read (number x).json.document = .ok (number x) := by
    rw [json, Json.ofFloat, if_pos hx, read, Json.settled_document]
    rfl
  cases v with
  | null => exact read_document hv
  | bool b => exact read_document hv
  | int n => exact number_json (Magnitude.isFinite_ofInt (by simpa [Json.Sized] using hv.sized))
  | float x => exact number_json (by simpa [Json.Finite] using hv.finite)
  | text s => exact read_document hv
  | list items =>
    cases htexts : textsOf? items with
    | some ss =>
      have hof : ofJson (.list items) = list ss := by rw [ofJson, htexts]
      have hss : (Json.texts ss).WellFormed := Json.wellFormed_list_iff.2 fun item hi => by
        obtain ⟨s, -, rfl⟩ := List.mem_map.1 hi
        exact Json.wellFormed_text s
      rw [hof, json, read_document hss, Json.texts, ofJson, textsOf?_map_text]
    | none =>
      have hof : ofJson (.list items) = other (.list items) := by rw [ofJson, htexts]
      rw [hof, json, read_document hv, hof]
  | object members => exact read_document hv

/-- A characteristic is the one that an open value is: a flag, a number or a text for itself, a list
of texts for itself even if it is empty, and any other value as it stands. -/
inductive Shows : Characteristic → Json → Prop
  | flag (b : Bool) : Shows (flag b) (.bool b)
  | int (n : Int) : Shows (number (Float.ofInt n)) (.int n)
  | float (x : Float) : Shows (number x) (.float x)
  | text (s : String) : Shows (text s) (.text s)
  | list (items : List String) : Shows (list items) (.list (items.map .text))
  | null : Shows (other .null) .null
  | mixed {items : List Json} (h : ∃ item ∈ items, ∀ s, item ≠ .text s) :
    Shows (other (.list items)) (.list items)
  | object (members : List (String × Json)) : Shows (other (.object members)) (.object members)

theorem eq_map_of_textsOf? {items : List Json} {ss : List String} (h : textsOf? items = some ss) :
    items = ss.map .text := by
  induction items generalizing ss with
  | nil =>
    obtain rfl := Option.some.inj h
    rfl
  | cons item rest ih =>
    cases item with
    | text s =>
      obtain ⟨ts, hts, rfl⟩ := Option.map_eq_some_iff.1 h
      rw [ih hts, List.map_cons]
    | _ => cases h

theorem exists_of_textsOf?_eq_none {items : List Json} (h : textsOf? items = none) :
    ∃ item ∈ items, ∀ s, item ≠ .text s := by
  induction items with
  | nil => cases h
  | cons item rest ih =>
    cases item with
    | text s =>
      obtain ⟨item, hitem, hne⟩ := ih (Option.map_eq_none_iff.1 h)
      exact ⟨item, List.mem_cons_of_mem _ hitem, hne⟩
    | _ => exact ⟨_, List.mem_cons_self, nofun⟩

theorem shows_ofJson (v : Json) : (ofJson v).Shows v := by
  cases v with
  | null => exact .null
  | bool b => exact .flag b
  | int n => exact .int n
  | float x => exact .float x
  | text s => exact .text s
  | object members => exact .object members
  | list items =>
    rw [ofJson]
    cases htexts : textsOf? items with
    | some ss =>
      rw [eq_map_of_textsOf? htexts]
      exact .list ss
    | none => exact .mixed (exists_of_textsOf?_eq_none htexts)

/-- An open value with a number put down as one of the floating format. -/
def inFloatingFormat : Json → Json
  | .int n => .float (Float.ofInt n)
  | v => v

theorem json_ofJson {v : Json} (hv : v.WellFormed) : (ofJson v).json = inFloatingFormat v := by
  have json_number {x : Float} (hx : x.isFinite = true) : (number x).json = .float x := if_pos hx
  cases v with
  | null | bool | text | object => rfl
  | int n => exact json_number (Magnitude.isFinite_ofInt (by simpa [Json.Sized] using hv.sized))
  | float x => exact json_number (by simpa [Json.Finite] using hv.finite)
  | list items =>
    rw [ofJson]
    cases htexts : textsOf? items with
    | some ss =>
      rw [eq_map_of_textsOf? htexts]
      rfl
    | none => rfl

/-- Every open value is read as the characteristic that its form says. This is written as the value
again, a whole number as the number of the floating format that is nearest to it, and read back. -/
theorem read_shows {v : Json} (hv : v.WellFormed) :
    ∃ c, read v.document = .ok c ∧ c.Shows v ∧ c.json = inFloatingFormat v ∧
      read c.json.document = .ok c :=
  ⟨ofJson v, read_document hv, shows_ofJson v, json_ofJson hv, read_json_ofJson hv⟩

theorem read_shows_mixed_list :
    let v : Json := .list [.text "oven", .list [.text "oven", .null], .int 18446744073709551615]
    v.WellFormed ∧ ∃ c, read v.document = .ok c ∧ c.Shows v ∧ c.json = inFloatingFormat v ∧
      read c.json.document = .ok c := by
  intro v
  have hv : v.WellFormed :=
    ⟨by simp [v, Json.Canonical], by simp [v, Json.Finite], by simp [v, Json.Sized]⟩
  exact ⟨hv, read_shows hv⟩

/-- A characteristic is read back. -/
theorem readsBack : Document.ReadsBack read json := by
  rintro d c ⟨v, hv, rfl⟩ h
  obtain rfl : ofJson v = c := Except.ok.inj ((read_document hv).symm.trans h)
  exact read_json_ofJson hv

/-- A value that is no flag, number, text or list of texts is kept as it stands. -/
theorem read_eq_other_iff {v w : Json} (hv : v.WellFormed) :
    read v.document = .ok (other w) ↔ ofJson v = other v ∧ w = v := by
  rw [read_document hv, Except.ok.injEq]
  cases v with
  | list items =>
    rw [ofJson]
    cases textsOf? items with
    | some ss => simp
    | none => simp [eq_comm]
  | _ => simp [ofJson, eq_comm]

/-- A characteristic can be written as what it is: its number is finite, or the value that is kept
as it stands is none that would be read as anything else. -/
def Writable : Characteristic → Prop
  | flag _ | text _ | list _ => True
  | number x => x.isFinite = true
  | other v => v.WellFormed ∧ (other v).Shows v

theorem ofJson_of_shows {c : Characteristic} {v : Json} (h : c.Shows v) : ofJson v = c := by
  cases h with
  | list items => rw [ofJson, textsOf?_map_text]
  | @mixed items h =>
    rw [ofJson]
    cases htexts : textsOf? items with
    | none => rfl
    | some ss =>
      obtain ⟨item, hitem, hne⟩ := h
      rw [eq_map_of_textsOf? htexts] at hitem
      obtain ⟨s, -, rfl⟩ := List.mem_map.1 hitem
      exact absurd rfl (hne s)
  | _ => rfl

theorem Writable.exists_shows {c : Characteristic} (h : c.Writable) :
    ∃ v : Json, v.WellFormed ∧ c.Shows v := by
  cases c with
  | flag b => exact ⟨.bool b, ⟨trivial, trivial, trivial⟩, .flag b⟩
  | number x => exact ⟨.float x, ⟨trivial, h, trivial⟩, .float x⟩
  | text s => exact ⟨.text s, Json.wellFormed_text s, .text s⟩
  | list items =>
    refine ⟨.list (items.map .text), Json.wellFormed_list_iff.2 fun item hi => ?_, .list items⟩
    obtain ⟨s, -, rfl⟩ := List.mem_map.1 hi
    exact Json.wellFormed_text s
  | other v => exact ⟨v, h⟩

theorem Writable.read_json {c : Characteristic} (h : c.Writable) :
    read c.json.document = .ok c := by
  obtain ⟨v, hv, hshows⟩ := h.exists_shows
  rw [← ofJson_of_shows hshows]
  exact read_json_ofJson hv

end Characteristic

namespace Characteristics

/-- Characteristics are read back. -/
theorem readsBack : Document.ReadsBack read json :=
  Characteristic.readsBack.asTable

/-- All of some characteristics can be written as what they are. -/
def Writable (c : Characteristics) : Prop :=
  ∀ e ∈ c.entries, e.2.Writable

theorem Writable.read_json {c : Characteristics} (h : c.Writable) :
    read (json c).document = .ok c :=
  Document.asTable_ofTable fun e he => (h e he).read_json

end Characteristics

end Foreman
