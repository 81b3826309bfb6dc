import Foreman.Decimal.Numeral
/-!
# The type of an unquoted scalar

A scalar written without quotes is null, a flag, a number or a text, by its spelling alone. Numbers
may be written in base two, eight, ten and sixteen; digits with a leading zero and numerals too
large to be finite are texts. A whole number beyond 64 bits that still fits 128 bits cannot be read.

A tag may name the type of a scalar. Then its spelling has to be one of that type.

## Main definitions

* `Foreman.Plain.Resolved`: what an unquoted scalar can be.
* `Foreman.Plain.resolve`: what it is, by its spelling.
* `Foreman.Plain.resolveAs`: what a scalar under a tag is.
-/

namespace Foreman.Plain

/-- What an unquoted scalar can be. -/
inductive Resolved where
  /-- The null value. -/
  | null
  /-- A flag. -/
  | bool (b : Bool)
  /-- A whole number. -/
  | int (n : Int)
  /-- A number with a point or an exponent, or one of the named numbers. -/
  | float (x : Float)
  /-- The text itself. -/
  | text
  /-- A number out of range. -/
  | unreadable

/-- Whether a scalar spells the null value. -/
def isNull (s : String) : Bool :=
  s = "null" || s = "Null" || s = "NULL" || s = "~"

/-- The flag that a scalar spells. -/
def flag? (s : String) : Option Bool :=
  if s = "true" || s = "True" || s = "TRUE" then some true
  else if s = "false" || s = "False" || s = "FALSE" then some false
  else none

/-- The value of a digit in a base up to sixteen. -/
def digitIn? (base : Nat) (c : Char) : Option Nat :=
  let v :=
    if c.isDigit then c.toNat - 48
    else if 'a' ≤ c ∧ c ≤ 'f' then c.toNat - 87
    else if 'A' ≤ c ∧ c ≤ 'F' then c.toNat - 55
    else 16
  if v < base then some v else none

/-- The value of one or more digits in a base. -/
def natural? (base : Nat) (cs : List Char) : Option Nat :=
  if cs.isEmpty then none
  else cs.foldl (fun v c => v.bind fun n => (digitIn? base c).map (base * n + ·)) (some 0)

/-- A sign and a run of digits with a leading zero: such a scalar is no number. -/
def paddedDigits (cs : List Char) : Bool :=
  let ds := match cs with
    | '-' :: rest | '+' :: rest => rest
    | rest => rest
  match ds with
  | '0' :: d :: rest => (d :: rest).all Char.isDigit
  | _ => false

/-- The whole number that unsigned digits spell, in the base that a leading `0x`, `0o` or `0b`
names. -/
def magnitude? : List Char → Option Nat
  | '0' :: 'x' :: ds => natural? 16 ds
  | '0' :: 'o' :: ds => natural? 8 ds
  | '0' :: 'b' :: ds => natural? 2 ds
  | ds => natural? 10 ds

/-- The whole number that a scalar spells. -/
def int? (cs : List Char) : Option Int :=
  if paddedDigits cs then none
  else
    match cs with
    | '-' :: ds => (magnitude? ds).map fun n => -(n : Int)
    | '+' :: ds => (magnitude? ds).map Int.ofNat
    | ds => (magnitude? ds).map Int.ofNat

/-- The number with a point or an exponent that a scalar spells; the infinities and the undefined
number have names of their own. -/
def float? (s : String) : Option Float :=
  if s = ".inf" || s = ".Inf" || s = ".INF" || s = "+.inf" || s = "+.Inf" || s = "+.INF" then
    some (1 / 0)
  else if s = "-.inf" || s = "-.Inf" || s = "-.INF" then some (-(1 / 0))
  else if s = ".nan" || s = ".NaN" || s = ".NAN" then some (0 / 0)
  else if paddedDigits s.toList then none
  else
    match s.toList with
    | '+' :: '+' :: _ | '+' :: '-' :: _ => none
    | cs => (Decimal.read? cs).filter Float.isFinite

/-- The whole number of at most 128 bits that a scalar spells; it cannot be read if it has more than
64. -/
def wholeNumber? (s : String) : Option Resolved :=
  ((int? s.toList).filter fun n => -(Int.pow 2 127) ≤ n && n < Int.pow 2 128).map fun n =>
    if -(Int.pow 2 63) ≤ n && n < Int.pow 2 64 then .int n else .unreadable

/-- What an unquoted scalar is, by its spelling. -/
def resolve (s : String) : Resolved :=
  if s.isEmpty || isNull s then .null
  else
    match flag? s, wholeNumber? s, float? s with
    | some b, _, _ => .bool b
    | none, some n, _ => n
    | none, none, some x => .float x
    | none, none, none => .text

/-! ### Tags -/

/-- A tag that names one of several alternatives rather than a type. -/
def isLocalTag (tag : String) : Bool :=
  tag.startsWith "!"

/-- What the tags of the usual types start with. -/
def coreTag (kind : String) : String :=
  "tag:yaml.org,2002:" ++ kind

/-- Whether a tag says that a scalar is null. -/
def isNullTag (tag : String) : Bool :=
  tag = coreTag "null"

/-- What a scalar under a tag is: nothing that can be read if the tag names an alternative or a type
that the scalar does not spell, and a text if it names an unknown type. -/
def resolveAs (tag s : String) : Resolved :=
  if isLocalTag tag then .unreadable
  else if tag = coreTag "bool" then ((flag? s).map .bool).getD .unreadable
  else if tag = coreTag "int" then (wholeNumber? s).getD .unreadable
  else if tag = coreTag "float" then ((float? s).map .float).getD .unreadable
  else if isNullTag tag then if isNull s then .null else .unreadable
  else .text

end Foreman.Plain
