import Foreman.Decimal.Numeral
import Foreman.Text.Blank
/-!
# Comparators

A text that starts with an order sign and goes on with a numeral is a condition on a number rather
than a text to be matched. Blanks may stand around the sign and the numeral.

## Main definitions

* `Foreman.Comparator`: the four order signs.
* `Foreman.Comparator.holds`: what each sign says of two numbers.
* `Foreman.Comparator.parse?`: the sign and the threshold that a text spells.
-/

namespace Foreman

/-- An order sign. -/
inductive Comparator where
  /-- The sign `>`. -/
  | greater
  /-- The sign `>=`. -/
  | greaterOrEqual
  /-- The sign `<`. -/
  | less
  /-- The sign `<=`. -/
  | lessOrEqual
  deriving DecidableEq, Repr

namespace Comparator

/-- Whether a number stands in the order to a threshold. An undefined number stands in none. -/
def holds (c : Comparator) (actual threshold : Float) : Bool :=
  match c with
  | greater => threshold < actual
  | greaterOrEqual => threshold ≤ actual
  | less => actual < threshold
  | lessOrEqual => actual ≤ threshold

/-- The characters of an order sign. -/
def spelling : Comparator → List Char
  | greater => ['>']
  | greaterOrEqual => ['>', '=']
  | less => ['<']
  | lessOrEqual => ['<', '=']

/-- The order sign that a text starts with, the longer one where there are two, and the rest. -/
def sign? : List Char → Option (Comparator × List Char)
  | '>' :: '=' :: rest => some (greaterOrEqual, rest)
  | '<' :: '=' :: rest => some (lessOrEqual, rest)
  | '>' :: rest => some (greater, rest)
  | '<' :: rest => some (less, rest)
  | _ => none

/-- The order sign and the threshold that a text spells. -/
def parse? (s : String) : Option (Comparator × Float) :=
  (sign? (Text.trimChars s.toList)).bind fun (c, rest) =>
    (Decimal.read? (Text.trimChars rest)).map fun threshold => (c, threshold)

end Comparator

end Foreman
