import Foreman.Decimal.Notation
import Foreman.Table
/-!
# Open values

An open value is a value of the interchange format whose shape nobody fixes: what goes into a step
and comes out of it, the attributes of an instance, and whatever a characteristic holds that is no
flag, number, text or list of texts.

An object keeps its members in a list. Objects that are read or built have their members in
strictly ascending order of the keys; such a value is called *canonical*, and equal canonical values
are equal terms.

## Main definitions

* `Foreman.Json`: open values.
* `Foreman.Json.Canonical`: every object's keys ascend strictly.
* `Foreman.Json.record`: the object of named values, of which some are left out.
* `Foreman.Json.write`: the compact text of a value.
* `Foreman.Bindings`: named open values.
-/

namespace Foreman

/-- A value of the interchange format. -/
inductive Json where
  /-- The null value. -/
  | null
  /-- A flag. -/
  | bool (b : Bool)
  /-- A number written without point and exponent. -/
  | int (n : Int)
  /-- Any other number. -/
  | float (x : Float)
  /-- A text. -/
  | text (s : String)
  /-- A list of values. -/
  | list (items : List Json)
  /-- Named values. -/
  | object (members : List (String × Json))
  deriving Inhabited

namespace Json

/-- The value of a number, which is null where the number is none of the finite ones. -/
def ofFloat (x : Float) : Json :=
  if x.isFinite then .float x else .null

/-- A list of texts. -/
def texts (items : List String) : Json :=
  .list (items.map .text)

/-- The object of a table. -/
def ofTable (t : Table Json) : Json :=
  .object t.entries

/-- The object of named values, of which some are left out. -/
def record (members : List (String × Option Json)) : Json :=
  .ofTable <| .ofList <| members.filterMap fun m => m.2.map fun v => (m.1, v)

/-- An optional value, null where it is absent. -/
def ofOption (f : α → Json) : Option α → Json
  | none => .null
  | some a => f a

mutual

/-- Every object's keys ascend strictly, at every depth. -/
def Canonical : Json → Prop
  | .null | .bool _ | .int _ | .float _ | .text _ => True
  | .list items => CanonicalItems items
  | .object members =>
    (members.Pairwise fun a b => a.1 < b.1) ∧ CanonicalMembers members

/-- Every item is canonical. -/
def CanonicalItems : List Json → Prop
  | [] => True
  | item :: rest => item.Canonical ∧ CanonicalItems rest

/-- Every member is canonical. -/
def CanonicalMembers : List (String × Json) → Prop
  | [] => True
  | (_, value) :: rest => value.Canonical ∧ CanonicalMembers rest

end

/-! ### The compact text -/

/-- How one character is written inside a text: controls by a letter or by four hexadecimal digits,
the quote and the backslash behind a backslash, every other character as itself. -/
def writeChar (c : Char) : List Char :=
  if c = '"' then ['\\', '"']
  else if c = '\\' then ['\\', '\\']
  else if c = '\x08' then ['\\', 'b']
  else if c = '\x0c' then ['\\', 'f']
  else if c = '\n' then ['\\', 'n']
  else if c = '\r' then ['\\', 'r']
  else if c = '\t' then ['\\', 't']
  else if c.toNat < 0x20 then
    '\\' :: 'u' :: '0' :: '0' :: Nat.digitChar (c.toNat / 16) :: [Nat.digitChar (c.toNat % 16)]
  else [c]

/-- A text between double quotes. -/
def writeText (s : String) : String :=
  String.ofList ('"' :: s.toList.flatMap writeChar ++ ['"'])

/-- Items joined by commas. -/
def joined (items : List String) : String :=
  String.intercalate "," items

mutual

/-- The compact text of a value. -/
def write : Json → String
  | .null => "null"
  | .bool true => "true"
  | .bool false => "false"
  | .int n => toString n
  | .float x => if x.isFinite then Decimal.Notation.exchange.write x else "null"
  | .text s => writeText s
  | .list items => "[" ++ joined (writeItems items) ++ "]"
  | .object members => "\x7b" ++ joined (writeMembers members) ++ "\x7d"

/-- The texts of the items of a list. -/
def writeItems : List Json → List String
  | [] => []
  | item :: rest => write item :: writeItems rest

/-- The texts of the members of an object. -/
def writeMembers : List (String × Json) → List String
  | [] => []
  | (key, value) :: rest => (writeText key ++ ":" ++ write value) :: writeMembers rest

end

/-! ### Canonical values -/

@[simp] theorem canonicalItems_iff (items : List Json) :
    CanonicalItems items ↔ ∀ item ∈ items, item.Canonical := by
  induction items with
  | nil => simp [CanonicalItems]
  | cons item rest ih => simp [CanonicalItems, ih]

@[simp] theorem canonicalMembers_iff (members : List (String × Json)) :
    CanonicalMembers members ↔ ∀ m ∈ members, m.2.Canonical := by
  induction members with
  | nil => simp [CanonicalMembers]
  | cons m rest ih => obtain ⟨key, value⟩ := m; simp [CanonicalMembers, ih]

end Json

/-- Named open values: the inputs and outputs of a step, the attributes of an instance. -/
abbrev Bindings := Table Json

end Foreman
