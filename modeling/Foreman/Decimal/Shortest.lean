/-!
# The shortest decimal of a binary number

A finite binary number `m · 2 ^ q` stands for every real number nearer to it than to its neighbours;
the two ends of that interval belong to it exactly when `m` is even. Its shortest decimal is the one
with the fewest digits inside the interval, and of those the nearest to the number itself.

For a given count of digits only the two points of the decimal grid next to the number need a look:
if any point of the grid lies in the interval, one of those two does. All tests are made in exact
arithmetic on natural numbers.

## Main definitions

* `Foreman.Decimal.Binary`: sign, significand and exponent of a finite number, read off its bits.
* `Foreman.Decimal.Digits`: a sign, a whole number of units and the power of ten of the unit.
* `Foreman.Decimal.shortest`: the shortest decimal of a binary number.
-/

namespace Foreman.Decimal

/-- A finite binary number `± significand · 2 ^ exponent`. -/
structure Binary where
  /-- Whether the number is negative. -/
  negative : Bool
  /-- The significand. -/
  significand : Nat
  /-- The exponent of two. -/
  exponent : Int
  /-- Whether the neighbour below is half as far away as the neighbour above. -/
  closeBelow : Bool
  deriving DecidableEq, Repr

/-- A decimal `± units · 10 ^ exponent`. -/
structure Digits where
  /-- Whether the decimal is negative. -/
  negative : Bool
  /-- The count of units. -/
  units : Nat
  /-- The exponent of ten of one unit. -/
  exponent : Int
  deriving DecidableEq, Repr

/-- Which of two equally near points of a grid is taken. -/
inductive Tie where
  /-- The larger one. -/
  | up
  /-- The one with an even last digit. -/
  | even
  deriving DecidableEq, Repr

/-- What a number of the floating format is. -/
inductive Kind where
  /-- A finite number. -/
  | finite (value : Binary)
  /-- An infinity. -/
  | infinite (negative : Bool)
  /-- Not a number. -/
  | undefined
  deriving DecidableEq, Repr

/-- Sign, significand and exponent of a number, read off its 64 bits. -/
def Kind.ofBits (bits : UInt64) : Kind :=
  let n : Nat := bits.toNat
  let negative := n / Nat.pow 2 63 == 1
  let biased : Nat := n / Nat.pow 2 52 % Nat.pow 2 11
  let fraction : Nat := n % Nat.pow 2 52
  if biased = 2047 then
    if fraction = 0 then .infinite negative else .undefined
  else if biased = 0 then .finite ⟨negative, fraction, -1074, false⟩
  else
    .finite ⟨negative, Nat.pow 2 52 + fraction, (biased : Int) - 1075, fraction == 0 && biased > 1⟩

/-- What a number of the floating format is. -/
def Kind.of (x : Float) : Kind :=
  Kind.ofBits x.toBits

/-- Whether the fraction `a / b` lies between `lo / d` and `hi / d`, the ends included if asked. -/
def between (a b lo hi d : Nat) (ends : Bool) : Bool :=
  if ends then lo * b ≤ a * d && a * d ≤ hi * b else lo * b < a * d && a * d < hi * b

/-- The least `k` with `den ≤ num · 10 ^ k`, searched from a start. -/
def leadingZeros (num den : Nat) : Nat → Nat → Nat
  | 0, k => k
  | fuel + 1, k => if den ≤ num then k else leadingZeros (num * 10) den fuel (k + 1)

/-- The exponent `p` with `10 ^ (p - 1) ≤ num / den < 10 ^ p`, for a positive fraction. -/
def magnitude (num den : Nat) : Int :=
  if den ≤ num then (Nat.toDigits 10 (num / den)).length
  else 1 - (leadingZeros num den 400 0 : Int)

/-- The numerator that a fraction has in units of `10 ^ k`. -/
def unitNum (num : Nat) (k : Int) : Nat := num * Nat.pow 10 (-k).toNat

/-- The denominator that a fraction has in units of `10 ^ k`. -/
def unitDen (den : Nat) (k : Int) : Nat := den * Nat.pow 10 k.toNat

/-- The better of the two points next to a number on one decimal grid, if one lies in the interval:
the number is `num / den`, the interval from `lo / d` to `hi / d`, the unit `10 ^ k`. -/
def onGrid (tie : Tie) (num den lo hi d : Nat) (ends : Bool) (k : Int) : Option Nat :=
  let n := unitNum num k
  let e := unitDen den k
  let below := n / e
  let above := below + 1
  -- the point `c` is the fraction `c · 10 ^ k`
  let inside (c : Nat) : Bool :=
    between (c * Nat.pow 10 k.toNat) (Nat.pow 10 (-k).toNat) lo hi d ends
  match inside below && below != 0, inside above with
  | true, true =>
    if 2 * n < (2 * below + 1) * e then some below
    else if (2 * below + 1) * e < 2 * n then some above
    else if tie = .even && below % 2 == 0 then some below
    else some above
  | true, false => some below
  | false, true => some above
  | false, false => none

/-- The first grid with a hit, from a count of digits upwards. -/
def firstGrid (tie : Tie) (num den lo hi d : Nat) (ends : Bool) (p : Int) :
    Nat → Nat → Nat × Int
  | 0, _ => (0, 0)
  | fuel + 1, digits =>
    let k := p - digits
    match onGrid tie num den lo hi d ends k with
    | some units => (units, k)
    | none => firstGrid tie num den lo hi d ends p fuel (digits + 1)

/-- A count of units without the zeros it ends with, and the larger unit that goes with it. -/
def stripZeros : Nat → Nat → Int → Nat × Int
  | 0, units, k => (units, k)
  | fuel + 1, units, k =>
    if units ≠ 0 ∧ units % 10 = 0 then stripZeros fuel (units / 10) (k + 1) else (units, k)

/-- The shortest decimal of a binary number; zero is no units of size one. -/
def shortest (tie : Tie) (x : Binary) : Digits :=
  if x.significand = 0 then ⟨x.negative, 0, 0⟩
  else
    let scale := Nat.pow 2 x.exponent.toNat
    let den := Nat.pow 2 (-x.exponent).toNat
    let num := x.significand * scale
    let lo := (4 * x.significand - (if x.closeBelow then 1 else 2)) * scale
    let hi := (4 * x.significand + 2) * scale
    let (units, k) :=
      firstGrid tie num den lo hi (4 * den) (x.significand % 2 == 0) (magnitude num den) 20 1
    let (units, k) := stripZeros 400 units k
    ⟨x.negative, units, k⟩

end Foreman.Decimal
