import Foreman.Document.Reading
/-!
# Reading records field by field

A record is given by named members in any order or, where the format allows it, by a list of its
fields in their order of declaration. Its fields are read independently of each other; if several
do not fit, the refusal is the one that comes first in the document, and a missing field is reported
only when everything that is there fits.

A record that carries the name of an alternative among its members is *tagged*: the tag is taken
out first and the rest is read as the record of that alternative.

## Main definitions

* `Foreman.Reading`: a value, or a refusal with its rank; `<*>` keeps the refusal of least rank.
* `Foreman.Shape`: what a record is called and which fields it has.
* `Foreman.Form`: the fields of a document that is to be read as a record.
* `Foreman.Form.need`, `Foreman.Form.may`, `Foreman.Form.maybe`: a field that has to be given, one
  with a default, one that may be absent.
* `Foreman.Document.untag`: the tag of a document, and the rest.

## Main results

* `Foreman.Form.small`: every field of a document is smaller than the document.
-/

namespace Foreman

/-- Where a refusal comes among the refusals of one record: members first, in the order they are
written, then missing fields, in the order of declaration. -/
structure Rank where
  /-- Whether the field is missing rather than unfit. -/
  missing : Bool
  /-- The position of the member, or of the field in the declaration. -/
  position : Nat
  deriving DecidableEq, Repr

/-- Whether one refusal is reported rather than another. -/
def Rank.before (a b : Rank) : Bool :=
  if a.missing = b.missing then a.position < b.position else b.missing

/-- The result of reading some fields of a record. -/
inductive Reading (α : Type u) where
  /-- A value. -/
  | done (value : α)
  /-- A refusal, with its rank. -/
  | unfit (rank : Rank) (why : Misfit)

namespace Reading

/-- A function applied to the value, if there is one. -/
def map (f : α → β) : Reading α → Reading β
  | .done a => .done (f a)
  | .unfit r w => .unfit r w

/-- Two readings side by side: both values, or the refusal of least rank. -/
def both : Reading (α → β) → Reading α → Reading β
  | .done f, .done a => .done (f a)
  | .done _, .unfit r w => .unfit r w
  | .unfit r w, .done _ => .unfit r w
  | .unfit r w, .unfit r' w' => if r'.before r then .unfit r' w' else .unfit r w

instance : Functor Reading where
  map := map

instance : Seq Reading where
  seq f a := both f (a ())

/-- The value, or the refusal without its rank. -/
def result : Reading α → Except Misfit α
  | .done a => .ok a
  | .unfit _ w => .error w

@[simp] theorem map_done (f : α → β) (a : α) : f <$> (Reading.done a) = .done (f a) := rfl

@[simp] theorem map_unfit (f : α → β) (r : Rank) (w : Misfit) :
    f <$> (Reading.unfit r w : Reading α) = .unfit r w := rfl

@[simp] theorem done_seq_done (f : α → β) (a : α) :
    (Reading.done f <*> Reading.done a) = .done (f a) := rfl

@[simp] theorem result_done (a : α) : (Reading.done a).result = .ok a := rfl

end Reading

/-- What a record is called and which fields it has, in order. -/
structure Shape where
  /-- What messages call it. -/
  title : String
  /-- The names of its fields, in the order of declaration. -/
  fields : List String
  deriving DecidableEq, Repr

/-- The words for a count of fields. -/
def Shape.countWords (n : Nat) : String :=
  toString n ++ (if n = 1 then " element" else " elements")

/-- Where the fields of a record come from. -/
inductive Fields where
  /-- Named members. -/
  | named (members : List (Document × Document))
  /-- The fields in order; `buffered` if they were set aside before being read. -/
  | ordered (items : List Document) (buffered : Bool)

/-- The values of the fields. -/
def Fields.values : Fields → List Document
  | .named members => members.map (·.2)
  | .ordered items _ => items

/-- The fields of a document that is to be read as a record. -/
structure Form (d : Document) where
  /-- What the record is called and which fields it has. -/
  shape : Shape
  /-- Its fields. -/
  fields : Fields
  /-- Every field is smaller than the document. -/
  small : ∀ x ∈ fields.values, sizeOf x < sizeOf d

theorem Document.sizeOf_lt_of_mem_record {members : List (Document × Document)} :
    ∀ x ∈ (Fields.named members).values, sizeOf x < sizeOf (Document.record members) := by
  intro x hx
  obtain ⟨m, hm, rfl⟩ := List.mem_map.1 hx
  have := List.sizeOf_lt_of_mem hm
  obtain ⟨k, v⟩ := m
  simp at this ⊢
  omega

theorem Document.sizeOf_lt_of_mem_list {items : List Document} {buffered : Bool} :
    ∀ x ∈ (Fields.ordered items buffered).values, sizeOf x < sizeOf (Document.list items) := by
  intro x hx
  have : sizeOf x < sizeOf items := List.sizeOf_lt_of_mem hx
  simp
  omega

theorem Document.sizeOf_lt_tagged (tag : String) (d : Document) :
    sizeOf d < sizeOf (Document.tagged tag d) := by
  rw [Document.tagged.sizeOf_spec]
  omega

namespace Form

/-- The fields of a document inside another one. -/
def within {d e : Document} (h : sizeOf d < sizeOf e) (form : Form d) : Form e :=
  ⟨form.shape, form.fields, fun x hx => Nat.lt_trans (form.small x hx) h⟩

/-- The fields of a document, by name or in order. Keys that are no texts belong to no record. -/
def of? (shape : Shape) (buffered : Bool) : (d : Document) → Except Misfit (Form d)
  | .record members =>
    if members.all fun m => m.1.keyText?.isSome then
      .ok ⟨shape, .named members, Document.sizeOf_lt_of_mem_record⟩
    else .error .unreadable
  | .list items => .ok ⟨shape, .ordered items buffered, Document.sizeOf_lt_of_mem_list⟩
  | .blank => .ok ⟨shape, .named [], by simp [Fields.values]⟩
  | .plain s =>
    if s.isEmpty then .ok ⟨shape, .named [], by simp [Fields.values]⟩
    else .error (.wrongType (.text s) shape.title)
  | .tagged _ d => (of? shape buffered d).map (within (Document.sizeOf_lt_tagged _ d))
  | d => .error (.wrongType d.found shape.title)

/-- The fields of a document, by name only. -/
def named? (shape : Shape) : (d : Document) → Except Misfit (Form d)
  | .list items => .error (.wrongType (Document.list items).found shape.title)
  | d => of? shape false d

variable {d : Document}

/-- The members with a name, with their positions, counted from a start. -/
def occurrences (name : String) : Nat → List (Document × Document) → List (Nat × Document)
  | _, [] => []
  | i, (key, value) :: rest =>
    if key.keyText? = some name then (i, value) :: occurrences name (i + 1) rest
    else occurrences name (i + 1) rest

theorem mem_values_of_mem_occurrences {name : String} {i j : Nat}
    {members : List (Document × Document)} {x : Document}
    (h : (j, x) ∈ occurrences name i members) : x ∈ (Fields.named members).values := by
  induction members generalizing i with
  | nil => simp [occurrences] at h
  | cons m rest ih =>
    obtain ⟨key, value⟩ := m
    simp only [occurrences] at h
    simp only [Fields.values, List.map_cons, List.mem_cons] at ih ⊢
    split at h
    · rcases List.mem_cons.1 h with h | h
      · exact .inl (congrArg (·.2) h)
      · exact .inr (ih h)
    · exact .inr (ih h)

/-- A field, read by a reader that may rely on the field being smaller than the document. -/
def readWithin (form : Form d) (name : String) (absent : Rank → Misfit → Reading α)
    (read : (x : Document) → sizeOf x < sizeOf d → Except Misfit α) : Reading α :=
  let place := form.shape.fields.idxOf name
  match hf : form.fields with
  | .named members =>
    match h : occurrences name 0 members with
    | [] => absent ⟨true, place⟩ (.missing name)
    | (i, x) :: more =>
      have hx : x ∈ form.fields.values := by
        rw [hf]; exact mem_values_of_mem_occurrences (h ▸ List.mem_cons_self)
      match read x (form.small x hx), more with
      | .error w, _ => .unfit ⟨false, i⟩ w
      | .ok a, [] => .done a
      | .ok _, (j, _) :: _ => .unfit ⟨false, j⟩ (.repeated name)
  | .ordered items _ =>
    match h : items[place]? with
    | none =>
      absent ⟨false, place⟩ (.wrongLength place
        (form.shape.title ++ " with " ++ Shape.countWords form.shape.fields.length))
    | some x =>
      have hx : x ∈ form.fields.values := by
        rw [hf]; exact List.mem_of_getElem? h
      match read x (form.small x hx) with
      | .error w => .unfit ⟨false, place⟩ w
      | .ok a => .done a

/-- A field that has to be given. -/
def need (form : Form d) (name : String) (read : Document → Except Misfit α) : Reading α :=
  form.readWithin name .unfit fun x _ => read x

/-- A field with a default. -/
def may (form : Form d) (name : String) (default : α) (read : Document → Except Misfit α) :
    Reading α :=
  form.readWithin name (fun _ _ => .done default) fun x _ => read x

/-- A field that may be left out among named members, and is then absent. -/
def maybe (form : Form d) (name : String) (read : Document → Except Misfit α) :
    Reading (Option α) :=
  form.readWithin name
    (fun rank why => if rank.missing then .done none else .unfit rank why)
    fun x _ => x.asOptional read

/-- The value of a reading, if the document has no more fields than the record. -/
def close (form : Form d) (reading : Reading α) : Except Misfit α :=
  match reading, form.fields with
  | .unfit _ w, _ => .error w
  | .done a, .named _ => .ok a
  | .done a, .ordered items buffered =>
    let count := form.shape.fields.length
    if items.length ≤ count then .ok a
    else if buffered then
      .error (.wrongLength items.length (Shape.countWords count ++ " in sequence"))
    else .error (.wrongLength items.length "fewer elements in array")

/-- The named members that belong to no field of the record, set aside to be read as another. -/
def rest (form : Form d) : Document :=
  match form.fields with
  | .named members =>
    (Document.record (members.filter fun m =>
      match m.1.keyText? with
      | some key => !form.shape.fields.contains key
      | none => true)).settled
  | .ordered _ _ => .record []

end Form

namespace Document

/-- A document set aside, to be read once more is known; nothing in it may be unreadable. -/
def aside (d : Document) : Except Misfit Document :=
  if d.settled.faulty then .error .unreadable else .ok d.settled

/-- The tag of a document and the rest: the tag is a member with the name given, or the first item
of a list. -/
def untag (tag title : String) : Document → Except Misfit (Document × Document)
  | .record members =>
    match Form.occurrences tag 0 members with
    | [] => .error (.missing tag)
    | [(_, value)] => do
      let rest ← aside (.record (members.filter fun m => m.1.keyText? != some tag))
      return (value, rest)
    | _ => .error (.repeated tag)
  | .list [] | .sequence [] => .error (.missing tag)
  | .list (value :: items) | .sequence (value :: items) => do
    let rest ← aside (.list items)
    return (value, rest)
  | .blank => .error (.wrongType .null title)
  | .tagged name d => if Plain.isLocalTag name then .error .unreadable else untag tag title d
  | d => .error (.wrongType d.found title)

/-- The alternative that a tag names. In a record that was set aside a tag may also be the position
of the alternative. -/
def asTag (known : List (String × α)) (buffered : Bool) : Document → Except Misfit α
  | .text s | .plain s =>
    match known.lookup s with
    | some a => .ok a
    | none => .error (.unknownName s (known.map (·.1)))
  | .int n =>
    if buffered ∧ 0 ≤ n then
      match known[n.toNat]? with
      | some (_, a) => .ok a
      | none => .error (.wrongValue (.int n)
          ("variant index 0 <= i < " ++ toString known.length))
    else .error (.wrongType (.int n) "variant identifier")
  | .tagged _ d => asTag known buffered d
  | d => .error (.wrongType d.found "variant identifier")

/-- The rest of a tagged document whose alternative carries nothing. -/
def asNothing : Document → Except Misfit Unit
  | .list (x :: xs) => .error (.wrongLength (x :: xs).length "0 elements in sequence")
  | _ => .ok ()

end Document

end Foreman
