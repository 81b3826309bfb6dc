import Foreman.Document.Plain
import Foreman.Json
/-!
# Documents

A document is what a text says before anybody has decided which record it is to be. The open values
are documents; beside them there are documents that only some formats produce: a scalar whose type
is not settled, an empty value, a list that never stands for a record, a value under a tag, and a
value that was written but cannot be read.

The members of a record are kept as they were written: in their order, with repeated keys and with
keys that are no texts.

## Main definitions

* `Foreman.Document`: documents.
* `Foreman.Json.document`: an open value as a document.
* `Foreman.Document.settled`: a document whose scalars have their types, as it is read where the
  type is not known beforehand.
* `Foreman.Document.json?`: a document as an open value.

## Main results

* `Foreman.Json.settled_document`: an open value has nothing to settle.
* `Foreman.Json.json?_document`: a canonical open value is read back from its document.
-/

namespace Foreman

/-- What a text says, before it is read as a record. -/
inductive Document where
  /-- The null value. -/
  | null
  /-- A flag. -/
  | bool (b : Bool)
  /-- A number written without point and exponent. -/
  | int (n : Int)
  /-- Any other number. -/
  | float (x : Float)
  /-- A text. -/
  | text (s : String)
  /-- A list, which may also give the fields of a record in order. -/
  | list (items : List Document)
  /-- Keys and values. -/
  | record (members : List (Document × Document))
  /-- No value: it reads as null, as an empty list and as an empty record. -/
  | blank
  /-- A list that never gives the fields of a record. -/
  | sequence (items : List Document)
  /-- A scalar written without quotes, whose type the reader decides. -/
  | plain (s : String)
  /-- A value under a tag. -/
  | tagged (tag : String) (value : Document)
  /-- A value that was written but cannot be read. -/
  | fault
  deriving Inhabited

mutual

/-- An open value as a document. -/
def Json.document : Json → Document
  | .null => .null
  | .bool b => .bool b
  | .int n => .int n
  | .float x => .float x
  | .text s => .text s
  | .list items => .list (Json.documentItems items)
  | .object members => .record (Json.documentMembers members)

/-- The items of a list as documents. -/
def Json.documentItems : List Json → List Document
  | [] => []
  | item :: rest => item.document :: Json.documentItems rest

/-- The members of an object as documents. -/
def Json.documentMembers : List (String × Json) → List (Document × Document)
  | [] => []
  | (key, value) :: rest => (.text key, value.document) :: Json.documentMembers rest

end

namespace Document

/-- The scalar that a text spells, if it is to be resolved so. -/
def ofResolved (s : String) : Plain.Resolved → Document
  | .null => .null
  | .bool b => .bool b
  | .int n => .int n
  | .float x => .float x
  | .text => .text s
  | .unreadable => .fault

mutual

/-- A document whose scalars have their types. -/
def settled : Document → Document
  | .null => .null
  | .bool b => .bool b
  | .int n => .int n
  | .float x => .float x
  | .text s => .text s
  | .list items => .list (settledItems items)
  | .record members => .record (settledMembers members)
  | .blank => .null
  | .sequence items => .list (settledItems items)
  | .plain s => ofResolved s (Plain.resolve s)
  | .tagged tag (.plain s) | .tagged tag (.text s) => ofResolved s (Plain.resolveAs tag s)
  | .tagged tag d => if Plain.isLocalTag tag then .fault else d.settled
  | .fault => .fault

/-- The items of a list, settled. -/
def settledItems : List Document → List Document
  | [] => []
  | item :: rest => item.settled :: settledItems rest

/-- Keys and values, settled. -/
def settledMembers : List (Document × Document) → List (Document × Document)
  | [] => []
  | (key, value) :: rest => (key.settled, value.settled) :: settledMembers rest

end

mutual

/-- Whether some part of a document that is not ignored cannot be read. -/
def faulty : Document → Bool
  | .null | .bool _ | .int _ | .float _ | .text _ | .blank | .plain _ => false
  | .list items | .sequence items => faultyItems items
  | .record members => faultyMembers members
  | .tagged _ _ | .fault => true

/-- Whether some item cannot be read. -/
def faultyItems : List Document → Bool
  | [] => false
  | item :: rest => item.faulty || faultyItems rest

/-- Whether some key or value cannot be read. -/
def faultyMembers : List (Document × Document) → Bool
  | [] => false
  | (key, value) :: rest => key.faulty || value.faulty || faultyMembers rest

end

mutual

/-- A document as an open value; the last of equal keys wins. Nothing where a key is no text or a
part cannot be read. -/
def json? : Document → Option Json
  | .null => some .null
  | .bool b => some (.bool b)
  | .int n => some (.int n)
  | .float x => some (Json.ofFloat x)
  | .text s => some (.text s)
  | .list items => (jsonItems? items).map .list
  | .record members => (jsonMembers? members).map fun ms => .object (Table.ofList ms).entries
  | .blank | .sequence _ | .plain _ | .tagged _ _ | .fault => none

/-- The items of a list as open values. -/
def jsonItems? : List Document → Option (List Json)
  | [] => some []
  | item :: rest => item.json?.bind fun v => (jsonItems? rest).map (v :: ·)

/-- Keys and values as members of an object. -/
def jsonMembers? : List (Document × Document) → Option (List (String × Json))
  | [] => some []
  | (.text key, value) :: rest =>
    value.json?.bind fun v => (jsonMembers? rest).map ((key, v) :: ·)
  | _ :: _ => none

end

end Document

namespace Json

/-! ### Open values as documents -/

mutual

/-- An open value has nothing to settle. -/
@[simp] theorem settled_document : (v : Json) → v.document.settled = v.document
  | .null | .bool _ | .int _ | .float _ | .text _ => by simp [document, Document.settled]
  | .list items => by simp [document, Document.settled, settledItems_documentItems items]
  | .object members => by
    simp [document, Document.settled, settledMembers_documentMembers members]

theorem settledItems_documentItems :
    (items : List Json) → Document.settledItems (documentItems items) = documentItems items
  | [] => rfl
  | item :: rest => by
    simp [documentItems, Document.settledItems, settled_document item,
      settledItems_documentItems rest]

theorem settledMembers_documentMembers : (members : List (String × Json)) →
    Document.settledMembers (documentMembers members) = documentMembers members
  | [] => rfl
  | (key, value) :: rest => by
    simp [documentMembers, Document.settledMembers, Document.settled, settled_document value,
      settledMembers_documentMembers rest]

end

mutual

/-- Every number of a value is finite. -/
def Finite : Json → Prop
  | .null | .bool _ | .int _ | .text _ => True
  | .float x => x.isFinite = true
  | .list items => FiniteItems items
  | .object members => FiniteMembers members

/-- Every number of every item is finite. -/
def FiniteItems : List Json → Prop
  | [] => True
  | item :: rest => item.Finite ∧ FiniteItems rest

/-- Every number of every member is finite. -/
def FiniteMembers : List (String × Json) → Prop
  | [] => True
  | (_, value) :: rest => value.Finite ∧ FiniteMembers rest

end

/-- A list of entries in ascending order is the list of entries of its table. -/
theorem entries_ofList_of_pairwise {entries : List (String × α)}
    (h : entries.Pairwise fun a b => a.1 < b.1) : (Table.ofList entries).entries = entries :=
  congrArg Table.entries (Table.ofList_entries ⟨entries, h⟩)

mutual

/-- A canonical value with finite numbers is read back from its document. -/
theorem json?_document : (v : Json) → v.Canonical → v.Finite → v.document.json? = some v
  | .null, _, _ | .bool _, _, _ | .int _, _, _ | .text _, _, _ => rfl
  | .float x, _, hf => by
    have : x.isFinite = true := hf
    simp [document, Document.json?, ofFloat, this]
  | .list items, hc, hf => by
    simp only [Canonical] at hc
    simp only [Finite] at hf
    simp [document, Document.json?, jsonItems?_documentItems items hc hf]
  | .object members, hc, hf => by
    simp only [Canonical] at hc
    simp only [Finite] at hf
    simp [document, Document.json?, jsonMembers?_documentMembers members hc.2 hf,
      entries_ofList_of_pairwise hc.1]

theorem jsonItems?_documentItems : (items : List Json) → CanonicalItems items →
    FiniteItems items → Document.jsonItems? (documentItems items) = some items
  | [], _, _ => rfl
  | item :: rest, hc, hf => by
    simp only [CanonicalItems] at hc
    simp only [FiniteItems] at hf
    simp [documentItems, Document.jsonItems?, json?_document item hc.1 hf.1,
      jsonItems?_documentItems rest hc.2 hf.2]

theorem jsonMembers?_documentMembers : (members : List (String × Json)) →
    CanonicalMembers members → FiniteMembers members →
    Document.jsonMembers? (documentMembers members) = some members
  | [], _, _ => rfl
  | (key, value) :: rest, hc, hf => by
    simp only [CanonicalMembers] at hc
    simp only [FiniteMembers] at hf
    simp [documentMembers, Document.jsonMembers?, json?_document value hc.1 hf.1,
      jsonMembers?_documentMembers rest hc.2 hf.2]

end

end Json

end Foreman
