import Foreman.Decimal.Shortest
/-!
# How numbers are written

Two notations are in use, and both write the shortest digits that read back. A text for people is
positional whatever the size of the number. A text for exchange is positional near one only, shows
a whole number with a zero after the point, and elsewhere writes one digit before the point and an
exponent with its sign and at least two digits.

## Main definitions

* `Foreman.Decimal.Notation`: the choices of one notation.
* `Foreman.Decimal.Notation.reading`, `Foreman.Decimal.Notation.exchange`: the two in use.
* `Foreman.Decimal.Notation.write`: a number in a notation.
-/

namespace Foreman.Decimal

/-- The choices of one notation. -/
structure Notation where
  /-- The exponents of the leading digit that are written positionally; all of them if absent. -/
  positional : Option (Int × Int)
  /-- Whether a whole number shows a zero after its point. -/
  wholeZero : Bool
  /-- Which of two equally near shortest decimals is written. -/
  tie : Tie
  deriving DecidableEq, Repr

/-- The notation for people: always positional, whole numbers without a point, ties upwards. -/
def Notation.reading : Notation := ⟨none, false, .up⟩

/-- The notation for exchange: positional from `10 ^ -4` up to but without `10 ^ 16`, whole numbers
with a zero after the point, ties to the even digit. -/
def Notation.exchange : Notation := ⟨some (-4, 15), true, .even⟩

/-- The digits of a natural number. -/
def digits (n : Nat) : List Char :=
  Nat.toDigits 10 n

/-- The exponent of the leading digit of a decimal. -/
def Digits.leading (d : Digits) : Int :=
  (digits d.units).length + d.exponent - 1

/-- A decimal written positionally. -/
def writePositional (wholeZero : Bool) (d : Digits) : List Char :=
  let ds := digits d.units
  if 0 ≤ d.exponent then
    ds ++ (if d.units = 0 then [] else List.replicate d.exponent.toNat '0') ++
      (if wholeZero then ['.', '0'] else [])
  else
    let places := (-d.exponent).toNat
    if places < ds.length then ds.take (ds.length - places) ++ '.' :: ds.drop (ds.length - places)
    else '0' :: '.' :: List.replicate (places - ds.length) '0' ++ ds

/-- An exponent with its sign and at least two digits. -/
def writeExponent (e : Int) : List Char :=
  let ds := digits e.natAbs
  'e' :: (if e < 0 then '-' else '+') :: (if ds.length < 2 then '0' :: ds else ds)

/-- A decimal written with one digit before the point and an exponent. -/
def writeScientific (d : Digits) : List Char :=
  match digits d.units with
  | [] => []
  | [c] => c :: writeExponent d.leading
  | c :: rest => c :: '.' :: rest ++ writeExponent d.leading

/-- A decimal in a notation. -/
def Notation.writeDigits (n : Notation) (d : Digits) : List Char :=
  let body :=
    match n.positional with
    | none => writePositional n.wholeZero d
    | some (low, high) =>
      if d.units = 0 ∨ (low ≤ d.leading ∧ d.leading ≤ high) then writePositional n.wholeZero d
      else writeScientific d
  if d.negative then '-' :: body else body

/-- A number in a notation. -/
def Notation.write (n : Notation) (x : Float) : String :=
  match Kind.of x with
  | .finite b => String.ofList (n.writeDigits (shortest n.tie b))
  | .infinite true => "-inf"
  | .infinite false => "inf"
  | .undefined => "NaN"

end Foreman.Decimal
