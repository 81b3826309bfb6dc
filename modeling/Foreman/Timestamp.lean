import Foreman.Calendar
import Foreman.Decimal.Numeral
import Foreman.Document.Reading
import Foreman.Text.Blank
/-!
# Timestamps

A timestamp is a point in time, kept as seconds since the start of 1970 and nanoseconds. It is
written as date and time of day in universal time, with as many decimals of a second as it needs, in
threes. In a text the time of day may stand in any zone, given by its distance from universal time.

A second that the calendar inserts is kept as the second before it with more than a thousand million
nanoseconds.

## Main definitions

* `Foreman.Timestamp`: a point in time.
* `Foreman.Timestamp.parse`, `Foreman.Timestamp.write`: the point in time that a text spells, and
  its text.
-/

namespace Foreman

/-- A point in time. -/
structure Timestamp where
  /-- Seconds since the start of 1970. -/
  seconds : Int
  /-- Nanoseconds of the second. -/
  nanos : Nat
  deriving DecidableEq, Repr, Inhabited

namespace Timestamp

/-- The point in time so many milliseconds after the start of 1970. -/
def ofMillis (ms : Nat) : Timestamp :=
  ⟨ms / 1000, ms % 1000 * 1000000⟩

/-! ### Writing -/

/-- A number in decimal digits, with zeros in front up to a width. -/
def padded (width n : Nat) : String :=
  let ds := (Nat.toDigits 10 n)
  String.ofList (List.replicate (width - ds.length) '0' ++ ds)

/-- The decimals of a second: none, or three, six or nine. -/
def writeNanos (n : Nat) : String :=
  if n = 0 then ""
  else if n % 1000000 = 0 then "." ++ padded 3 (n / 1000000)
  else if n % 1000 = 0 then "." ++ padded 6 (n / 1000)
  else "." ++ padded 9 n

/-- A year: four digits or, beyond them, a sign and at least four. -/
def writeYear (year : Int) : String :=
  if 0 ≤ year ∧ year ≤ 9999 then padded 4 year.toNat
  else if year < 0 then "-" ++ padded 4 year.natAbs
  else "+" ++ padded 4 year.toNat

/-- The text of a point in time, in universal time. -/
def write (t : Timestamp) : String :=
  let (year, month, day) := Calendar.ofDayNumber (t.seconds / 86400)
  let ofDay := (t.seconds % 86400).toNat
  let second := ofDay % 60 + t.nanos / 1000000000
  writeYear year ++ "-" ++ padded 2 month ++ "-" ++ padded 2 day ++ "T" ++
    padded 2 (ofDay / 3600) ++ ":" ++ padded 2 (ofDay / 60 % 60) ++ ":" ++ padded 2 second ++
    writeNanos (t.nanos % 1000000000) ++ "Z"

/-! ### Reading -/

/-- Why a text spells no point in time. -/
inductive Complaint where
  /-- A field out of range. -/
  | outOfRange
  /-- A character that does not belong there. -/
  | invalid
  /-- The text ends too early. -/
  | tooShort
  /-- The text goes on. -/
  | tooLong
  /-- The calendar does not reach the day in universal time. -/
  | impossible
  deriving DecidableEq, Repr

/-- The wording of a complaint. -/
def Complaint.message : Complaint → String
  | outOfRange => "input is out of range"
  | invalid => "input contains invalid characters"
  | tooShort => "premature end of input"
  | tooLong => "trailing input"
  | impossible => "no possible date and time matching input"

/-- A number of at most so many digits, and the rest. -/
def number (width : Nat) (cs : List Char) : Except Complaint (Nat × List Char) :=
  let ds := Decimal.leadingDigits (cs.take width)
  if cs.isEmpty then .error .tooShort
  else if ds.isEmpty then .error .invalid
  else .ok (Decimal.valueOf ds, cs.drop ds.length)

/-- A number of any length, and the rest. -/
def longNumber (cs : List Char) : Except Complaint (Nat × List Char) :=
  number cs.length cs

/-- A number of at most two digits within bounds, after blanks. -/
def field (low high : Nat) (cs : List Char) : Except Complaint (Nat × List Char) := do
  let (n, rest) ← number 2 (Text.trimStart cs)
  if low ≤ n ∧ n ≤ high then return (n, rest) else throw .outOfRange

/-- A whole number: four digits at most or, after a sign, any number of them. -/
def signedYear (cs : List Char) : Except Complaint (Int × List Char) :=
  match Text.trimStart cs with
  | '-' :: rest => (longNumber rest).map fun (n, rest) => (-(n : Int), rest)
  | '+' :: rest => (longNumber rest).map fun (n, rest) => ((n : Int), rest)
  | rest => (number 4 rest).map fun (n, rest) => ((n : Int), rest)

/-- A year of 32 bits. -/
def yearField (cs : List Char) : Except Complaint (Int × List Char) := do
  let (year, rest) ← signedYear cs
  if -(Int.pow 2 31) ≤ year ∧ year < Int.pow 2 31 then return (year, rest) else throw .outOfRange

/-- What follows a mark, which blanks may precede. -/
def afterMark (mark : Char) (cs : List Char) : Except Complaint (List Char) :=
  match Text.trimStart cs with
  | [] => .error .tooShort
  | c :: rest => if c = mark then .ok rest else .error .invalid

/-- The decimals of a second, of which nine count. -/
def decimals (cs : List Char) : Except Complaint (Nat × List Char) :=
  match cs with
  | '.' :: rest => do
    let (n, after) ← number 9 rest
    let count := rest.length - after.length
    return (n * Nat.pow 10 (9 - count), Decimal.afterDigits after)
  | _ => .ok (0, cs)

/-- The distance from universal time in seconds: a letter, three letters, or a sign with hours and
minutes. -/
def zone (cs : List Char) : Except Complaint (Int × List Char) :=
  match cs with
  | u :: t :: c :: rest =>
    if (u = 'U' ∨ u = 'u') ∧ (t = 'T' ∨ t = 't') ∧ (c = 'C' ∨ c = 'c') then .ok (0, rest)
    else offset cs
  | _ => offset cs
where
  /-- A letter, or a sign with hours and minutes. -/
  offset : List Char → Except Complaint (Int × List Char)
    | [] => .error .tooShort
    | 'Z' :: rest | 'z' :: rest => .ok (0, rest)
    | '+' :: rest => amount rest
    | '-' :: rest | '−' :: rest => (amount rest).map fun (n, rest) => (-n, rest)
    | _ => .error .invalid
  /-- Hours and minutes, which colons and blanks may separate. -/
  amount : List Char → Except Complaint (Int × List Char)
    | h :: h' :: rest =>
      if h.isDigit ∧ h'.isDigit then
        match rest.dropWhile fun c => c = ':' || Text.isBlank c with
        | m :: m' :: rest =>
          if m.isDigit ∧ m'.isDigit then
            if m ≤ '5' then
              .ok (((Decimal.valueOf [h, h'] * 3600 + Decimal.valueOf [m, m'] * 60 : Nat) : Int),
                rest)
            else .error .outOfRange
          else .error .invalid
        | _ => .error .tooShort
      else .error .invalid
    | _ => .error .tooShort

/-- Whether the calendar reaches a year. -/
def reaches (year : Int) : Bool :=
  -262143 ≤ year ∧ year ≤ 262142

/-- The point in time that a text spells. -/
def parse (s : String) : Except Complaint Timestamp := do
  let (year, cs) ← yearField s.toList
  let (month, cs) ← field 1 12 (← afterMark '-' cs)
  let (day, cs) ← field 1 31 (← afterMark '-' cs)
  let cs ← match cs with
    | [] => throw .tooShort
    | c :: rest => if c = 'T' ∨ c = 't' ∨ c = ' ' then pure rest else throw .invalid
  let (hour, cs) ← field 0 23 cs
  let (minute, cs) ← field 0 59 (← afterMark ':' cs)
  let (second, cs) ← field 0 60 (← afterMark ':' cs)
  let (nanos, cs) ← decimals cs
  let (offset, cs) ← zone (Text.trimStart cs)
  if !(Text.trimStart cs).isEmpty then throw .tooLong
  if day > Calendar.daysIn year month ∨ !reaches year ∨ offset.natAbs ≥ 86400 then
    throw .outOfRange
  let inserted : Nat := if second = 60 then 1 else 0
  let ofDay : Int := hour * 3600 + minute * 60 + second - inserted
  let seconds := Calendar.dayNumber year month day * 86400 + ofDay - offset
  if !reaches (Calendar.ofDayNumber (seconds / 86400)).1 then throw .impossible
  return ⟨seconds, nanos + inserted * 1000000000⟩

/-- A point in time, given by its text. -/
def read (d : Document) : Except Misfit Timestamp :=
  match d with
  | .text s | .plain s =>
    match parse s with
    | .ok t => .ok t
    | .error c => .error (.noTime c.message)
  | d => .error (.wrongType d.found "an RFC 3339 formatted date and time string")

/-- A point in time as an open value. -/
def json (t : Timestamp) : Json :=
  .text t.write

end Timestamp

end Foreman
