import Foreman.Document.Misfit
/-!
# Reading values out of documents

The readers of the simple shapes: texts, flags, counts, numbers, lists, tables, optional values and
names out of a fixed list. Each accepts a document or says why not.

## Main definitions

* `Foreman.Document.asText`, `asFlag`, `asCount`, `asNumber`, `asOpen`: the simple values.
* `Foreman.Document.asList`, `asTable`, `asOptional`: lists, tables and optional values of anything.
* `Foreman.Document.asName`: one of a fixed list of names.
-/

namespace Foreman.Document

/-- The text of a key, if it is one. -/
def keyText? : Document → Option String
  | .text s | .plain s => some s
  | .tagged _ d => d.keyText?
  | _ => none

/-- A text. -/
def asText : Document → Except Misfit String
  | .text s | .plain s => .ok s
  | .tagged _ d => d.asText
  | d => .error (.wrongType d.found "a string")

/-- A flag. -/
def asFlag : Document → Except Misfit Bool
  | .bool b => .ok b
  | .plain s =>
    match Plain.flag? s with
    | some b => .ok b
    | none => .error (.wrongType (.text s) "a boolean")
  | .tagged _ d => d.asFlag
  | d => .error (.wrongType d.found "a boolean")

/-- A whole number from zero up to but without a bound; `kind` names the range. -/
def asCount (bound : Nat) (kind : String) : Document → Except Misfit Nat
  | .int n =>
    if 0 ≤ n ∧ n < bound then .ok n.toNat else .error (.wrongValue (.int n) kind)
  | d => .error (.wrongType d.found kind)

/-- A whole number of 32 bits. -/
def asCount32 : Document → Except Misfit Nat :=
  asCount (Nat.pow 2 32) "u32"

/-- A whole number of 64 bits. -/
def asCount64 : Document → Except Misfit Nat :=
  asCount (Nat.pow 2 64) "u64"

/-- A size. -/
def asSize : Document → Except Misfit Nat :=
  asCount (Nat.pow 2 64) "usize"

/-- A number. -/
def asNumber : Document → Except Misfit Float
  | .int n => .ok (Float.ofInt n)
  | .float x => .ok x
  | d => .error (.wrongType d.found "f64")

/-- The items of a list; an empty value is an empty list. -/
def items : Document → Except Misfit (List Document)
  | .list xs | .sequence xs => .ok xs
  | .blank => .ok []
  | .plain s => if s.isEmpty then .ok [] else .error (.wrongType (.text s) "a sequence")
  | .tagged _ d => d.items
  | d => .error (.wrongType d.found "a sequence")

/-- Every item of a list is smaller than the list. -/
theorem sizeOf_lt_of_items {xs : List Document} {x : Document} (hx : x ∈ xs) :
    (d : Document) → d.items = .ok xs → sizeOf x < sizeOf d
  | .list ys, h | .sequence ys, h => by
    obtain rfl : ys = xs := by simpa [items] using h
    have := List.sizeOf_lt_of_mem hx
    simp
    omega
  | .blank, h => by
    obtain rfl : [] = xs := by simpa [items] using h
    simp at hx
  | .plain s, h => by
    simp only [items] at h
    split at h
    · obtain rfl : [] = xs := by simpa using h
      simp at hx
    · simp at h
  | .tagged _ d, h => by
    have := sizeOf_lt_of_items hx d (by simpa [items] using h)
    simp
    omega
  | .null, h | .bool _, h | .int _, h | .float _, h | .text _, h | .record _, h | .fault, h => by
    simp [items] at h

/-- A list, each item read by a reader that may rely on the item being smaller. -/
def asListWithin (d : Document) (read : (x : Document) → sizeOf x < sizeOf d → Except Misfit α) :
    Except Misfit (List α) :=
  match h : d.items with
  | .error e => .error e
  | .ok xs => xs.attach.mapM fun x => read x.1 (sizeOf_lt_of_items x.2 d h)

/-- A list of anything. -/
def asList (read : Document → Except Misfit α) (d : Document) : Except Misfit (List α) :=
  d.items.bind fun xs => xs.mapM read

/-- Keys and values; an empty value has none. -/
def members : Document → Except Misfit (List (Document × Document))
  | .record ms => .ok ms
  | .blank => .ok []
  | .plain s => if s.isEmpty then .ok [] else .error (.wrongType (.text s) "a map")
  | .tagged _ d => d.members
  | d => .error (.wrongType d.found "a map")

/-- One member of a table. -/
def asEntry (read : Document → Except Misfit α) (m : Document × Document) :
    Except Misfit (String × α) := do
  let key ← m.1.asText
  let value ← read m.2
  return (key, value)

/-- A table of anything, the last of equal keys winning. -/
def asTable (read : Document → Except Misfit α) (d : Document) : Except Misfit (Table α) := do
  let ms ← d.members
  let entries ← ms.mapM (asEntry read)
  return Table.ofList entries

/-- An open value. -/
def asOpen (d : Document) : Except Misfit Json :=
  match d.settled.json? with
  | some v => .ok v
  | none => .error .unreadable

/-- Named open values. -/
def asBindings : Document → Except Misfit Bindings :=
  asTable asOpen

/-- Whether a document stands for no value where one is optional. -/
def isAbsent : Document → Bool
  | .null | .blank => true
  | .plain s => s.isEmpty || Plain.isNull s
  | .tagged tag (.plain s) => Plain.isNullTag tag && Plain.isNull s
  | _ => false

/-- Whether a document says that it is null and spells something else. -/
def deniesNull : Document → Bool
  | .tagged tag (.plain s) => Plain.isNullTag tag && !Plain.isNull s
  | _ => false

/-- A value that may be absent. -/
def asOptional (read : Document → Except Misfit α) (d : Document) : Except Misfit (Option α) :=
  if d.isAbsent then .ok none
  else if d.deniesNull then .error .unreadable
  else (read d).map some

/-- One of a fixed list of names, each standing for a value. A name may also be written as the key
of a null value, or as the tag of one. -/
def asName (known : List (String × α)) : Document → Except Misfit α
  | .text s | .plain s => pick s
  | .record [(key, value)] => do
    let chosen ← pick (← key.asText)
    match value with
    | .null => return chosen
    | _ => throw (.wrongType value.found "unit")
  | .record _ => .error (.wrongValue .record "map with a single key")
  | .tagged tag value =>
    if Plain.isLocalTag tag then do
      let chosen ← pick (String.ofList (tag.toList.drop 1))
      if value.isAbsent then return chosen else throw .unreadable
    else asName known value
  | d => .error (.wrongType d.found "string or map")
where
  /-- The value of a name. -/
  pick (name : String) : Except Misfit α :=
    match known.lookup name with
    | some a => .ok a
    | none => .error (.unknownName name (known.map (·.1)))

end Foreman.Document
