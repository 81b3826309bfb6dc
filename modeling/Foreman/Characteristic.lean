import Foreman.Document.Reading
/-!
# Characteristics

A characteristic is what a resource says about itself under a key, or what a requirement asks for
under that key: a flag, a number, a text or a list of texts. Any other value is kept as it stands.

## Main definitions

* `Foreman.Characteristic`: one value.
* `Foreman.Characteristics`: values by key.
* `Foreman.Characteristic.read`, `Foreman.Characteristic.json`: a value from a document, and a value
  as an open value.
* `Foreman.Characteristic.display`: the text of a value.
-/

namespace Foreman

/-- What stands under one key. -/
inductive Characteristic where
  /-- A flag. -/
  | flag (b : Bool)
  /-- A number. -/
  | number (x : Float)
  /-- A text; in a requirement it may spell a condition on a number. -/
  | text (s : String)
  /-- A list of texts. -/
  | list (items : List String)
  /-- Any other value. -/
  | other (v : Json)
  deriving Inhabited

/-- Characteristics by key: what a resource offers, or what a requirement asks for. -/
abbrev Characteristics := Table Characteristic

namespace Characteristic

/-- The number, if it is one. -/
def number? : Characteristic → Option Float
  | number x => some x
  | _ => none

/-- The texts of a list of documents, if all of them are texts. -/
def texts? : List Document → Option (List String)
  | [] => some []
  | .text s :: rest => (texts? rest).map (s :: ·)
  | _ :: _ => none

/-- A characteristic of a document whose scalars have their types. -/
def ofSettled? : Document → Option Characteristic
  | .bool b => some (flag b)
  | .int n => some (number (Float.ofInt n))
  | .float x => some (number x)
  | .text s => some (text s)
  | .list items =>
    match texts? items with
    | some ss => some (list ss)
    | none => (Document.list items).json?.map other
  | d => d.json?.map other

/-- A characteristic. Every open value is one. -/
def read (d : Document) : Except Misfit Characteristic :=
  match ofSettled? d.settled with
  | some c => .ok c
  | none => .error .unreadable

/-- A characteristic as an open value. -/
def json : Characteristic → Json
  | flag b => .bool b
  | number x => .ofFloat x
  | text s => .text s
  | list items => .texts items
  | other v => v

/-- The text of a characteristic. -/
def display : Characteristic → String
  | flag true => "true"
  | flag false => "false"
  | number x => Decimal.Notation.reading.write x
  | text s => s
  | list items => "[" ++ String.intercalate ", " items ++ "]"
  | other v => v.write

end Characteristic

namespace Characteristics

/-- Characteristics by key. -/
def read (d : Document) : Except Misfit Characteristics :=
  d.asTable Characteristic.read

/-- Characteristics as an open value. -/
def json (c : Characteristics) : Json :=
  .ofTable (c.mapValues Characteristic.json)

end Characteristics

end Foreman
