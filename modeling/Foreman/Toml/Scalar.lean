import Foreman.Calendar
import Foreman.Decimal.Numeral
import Foreman.Document
/-!
# Scalars of sectioned texts

The strings, numbers and dates that may stand in a text of sections. A string stands between quotes,
in which escapes are resolved, or between apostrophes, in which nothing is; three of either let it
go over several lines. Numbers may be grouped by underscores and written in base two, eight and
sixteen. Dates and times of day are kept as texts in a normal form.

Every reader gives back what it has read and what follows it.

## Main definitions

* `Foreman.Toml.string?`: a string.
* `Foreman.Toml.integer?`, `Foreman.Toml.float?`: numbers.
* `Foreman.Toml.moment?`: a date, a time of day, or both.
-/

namespace Foreman.Toml

/-- What follows some characters, if they come first. -/
def after? : List Char → List Char → Option (List Char)
  | [], cs => some cs
  | _ :: _, [] => none
  | w :: ws, c :: cs => if w = c then after? ws cs else none

/-- Blanks within a line. -/
def isBlank (c : Char) : Bool :=
  c = ' ' || c = '\t'

/-- A text without the blanks it starts with. -/
def skipBlanks (cs : List Char) : List Char :=
  cs.dropWhile isBlank

/-- What follows the end of a line. -/
def afterLineEnd? : List Char → Option (List Char)
  | '\n' :: rest | '\r' :: '\n' :: rest => some rest
  | _ => none

/-- Characters that may stand in a comment, and in a string between apostrophes if they are none. -/
def isPrintable (c : Char) : Bool :=
  c = '\t' || (0x20 ≤ c.toNat && c.toNat ≠ 0x7F)

/-! ### Strings -/

/-- The character of a number, if there is one. -/
def scalar? (n : Nat) : Option Char :=
  if h : n.isValidChar then some (Char.ofNatAux n h) else none

/-- The number that some hexadecimal digits spell. -/
def hex? (ds : List Char) : Option Nat :=
  Plain.natural? 16 ds

/-- The character of an escape after its backslash. -/
def escape? : List Char → Option (Char × List Char)
  | 'b' :: rest => some ('\x08', rest)
  | 't' :: rest => some ('\t', rest)
  | 'n' :: rest => some ('\n', rest)
  | 'f' :: rest => some ('\x0c', rest)
  | 'r' :: rest => some ('\r', rest)
  | '"' :: rest => some ('"', rest)
  | '\\' :: rest => some ('\\', rest)
  | 'u' :: rest => numbered 4 rest
  | 'U' :: rest => numbered 8 rest
  | _ => none
where
  /-- A character given by so many hexadecimal digits. -/
  numbered (width : Nat) (cs : List Char) : Option (Char × List Char) :=
    if (cs.take width).length = width then do
      let c ← scalar? (← hex? (cs.take width))
      return (c, cs.drop width)
    else none

/-- The rest of a string on one line after its opening quote; `acc` is what was read, newest
first. -/
def basic? : Nat → List Char → List Char → Option (String × List Char)
  | 0, _, _ => none
  | fuel + 1, acc, cs =>
    match cs with
    | '"' :: rest => some (String.ofList acc.reverse, rest)
    | '\\' :: rest => do
      let (c, rest) ← escape? rest
      basic? fuel (c :: acc) rest
    | c :: rest => if isPrintable c then basic? fuel (c :: acc) rest else none
    | [] => none

/-- Whether a backslash ends its line, and what follows the blanks and line ends after it. -/
def continued? (cs : List Char) : Option (List Char) :=
  (afterLineEnd? (skipBlanks cs)).map skip
where
  /-- A text without the blanks and line ends it starts with. -/
  skip : List Char → List Char
    | ' ' :: rest | '\t' :: rest | '\n' :: rest | '\r' :: '\n' :: rest => skip rest
    | rest => rest

/-- The end of a string over several lines: the quotes that belong to it, and what follows. A run of
three to five quotes ends it, and all but three of them belong to it. -/
def closing? (quote : Char) (cs : List Char) : Option (List Char × List Char) :=
  let run := (cs.take 5).takeWhile (· = quote)
  if 3 ≤ run.length then some (run.drop 3, cs.drop run.length) else none

/-- The rest of a string over several lines after its opening quotes; `acc` is what was read, newest
first. -/
def manyLines? (quote : Char) : Nat → List Char → List Char → Option (String × List Char)
  | 0, _, _ => none
  | fuel + 1, acc, cs =>
    match closing? quote cs with
    | some (quotes, rest) => some (String.ofList (acc.reverse ++ quotes), rest)
    | none =>
      match afterLineEnd? cs, cs with
      | some rest, _ => manyLines? quote fuel ('\n' :: acc) rest
      | none, [] => none
      | none, c :: rest =>
        if c = '\\' ∧ quote = '"' then
          match continued? rest with
          | some rest => manyLines? quote fuel acc rest
          | none => do
            let (c, rest) ← escape? rest
            manyLines? quote fuel (c :: acc) rest
        else if isPrintable c then manyLines? quote fuel (c :: acc) rest
        else none

/-- A string between single apostrophes, after the first. -/
def literal? (cs : List Char) : Option (String × List Char) :=
  let body := cs.takeWhile fun c => isPrintable c && c ≠ '\''
  (after? ['\''] (cs.drop body.length)).map fun rest => (String.ofList body, rest)

/-- A string on one line. -/
def lineString? : List Char → Option (String × List Char)
  | '"' :: rest => basic? (rest.length + 1) [] rest
  | '\'' :: rest => literal? rest
  | _ => none

/-- A string. -/
def string? : List Char → Option (String × List Char)
  | '"' :: '"' :: '"' :: rest => body '"' rest
  | '\'' :: '\'' :: '\'' :: rest => body '\'' rest
  | cs => lineString? cs
where
  /-- A string over several lines; a line end right after the opening quotes does not belong to
  it. -/
  body (quote : Char) (cs : List Char) : Option (String × List Char) :=
    manyLines? quote (cs.length + 1) [] ((afterLineEnd? cs).getD cs)

/-! ### Numbers -/

/-- Digits that may be grouped by single underscores between them, and what follows; `ok` says what
is a digit. -/
def grouped (ok : Char → Bool) : List Char → List Char × List Char
  | [] => ([], [])
  | c :: '_' :: d :: rest =>
    if ok c && ok d then
      let (ds, after) := grouped ok (d :: rest)
      (c :: ds, after)
    else if ok c then ([c], '_' :: d :: rest)
    else ([], c :: '_' :: d :: rest)
  | c :: rest =>
    if ok c then
      let (ds, after) := grouped ok rest
      (c :: ds, after)
    else ([], c :: rest)
termination_by cs => cs.length

/-- A sign, if there is one: whether it is a minus. -/
def signed : List Char → Bool × List Char
  | '-' :: rest => (true, rest)
  | '+' :: rest => (false, rest)
  | rest => (false, rest)

/-- The digits of a whole number in base ten: a zero alone, or digits that do not start with one. -/
def wholeDigits : List Char → List Char × List Char
  | '0' :: rest => (['0'], rest)
  | cs => grouped Char.isDigit cs

/-- A whole number of 64 bits. -/
def inRange (n : Int) : Option Document :=
  if -(Int.pow 2 63) ≤ n ∧ n < Int.pow 2 63 then some (.int n) else none

/-- A whole number in a base that its first two characters name. -/
def based? (base : Nat) (cs : List Char) : Option (Document × List Char) := do
  let (ds, rest) := grouped (fun c => (Plain.digitIn? base c).isSome) cs
  let d ← inRange (← Plain.natural? base ds)
  return (d, rest)

/-- A whole number. -/
def integer? (cs : List Char) : Option (Document × List Char) :=
  match cs with
  | '0' :: 'x' :: rest => based? 16 rest
  | '0' :: 'o' :: rest => based? 8 rest
  | '0' :: 'b' :: rest => based? 2 rest
  | cs => do
    let (negative, cs) := signed cs
    let (ds, rest) := wholeDigits cs
    if ds.isEmpty then none
    else
      let n : Int := Decimal.valueOf ds
      let d ← inRange (if negative then -n else n)
      return (d, rest)

/-- The characters of an exponent, if there is one; nothing if it has no digits. -/
def exponent? : List Char → Option (List Char × List Char)
  | c :: rest =>
    if c = 'e' ∨ c = 'E' then
      let (negative, rest) := signed rest
      let (ds, after) := grouped Char.isDigit rest
      if ds.isEmpty then none
      else some ('e' :: (if negative then ['-'] else []) ++ ds, after)
    else some ([], c :: rest)
  | [] => some ([], [])

/-- The infinities and the undefined number. -/
def namedFloat? (cs : List Char) : Option (Document × List Char) :=
  let (negative, cs) := signed cs
  let signedFloat (x : Float) : Document := .float (if negative then -x else x)
  match after? ['i', 'n', 'f'] cs with
  | some rest => some (signedFloat (1 / 0), rest)
  | none => (after? ['n', 'a', 'n'] cs).map fun rest => (signedFloat (0 / 0), rest)

/-- A number with a point or an exponent. -/
def float? (cs : List Char) : Option (Document × List Char) :=
  let (negative, digits) := signed cs
  let (whole, cs') := wholeDigits digits
  if whole.isEmpty then namedFloat? cs
  else do
    let (fraction, cs') ← match cs' with
      | '.' :: rest =>
        let (ds, after) := grouped Char.isDigit rest
        if ds.isEmpty then none else some ('.' :: ds, after)
      | rest => some ([], rest)
    let (exponent, rest) ← exponent? cs'
    if fraction.isEmpty && exponent.isEmpty then none
    else
      let x ← Decimal.read? (whole ++ fraction ++ exponent)
      if negative then return (.float (-x), rest)
      else if x.isFinite then return (.float x, rest)
      else none

/-! ### Dates and times of day -/

/-- Exactly so many digits, as a number within bounds, and as characters. -/
def field? (width low high : Nat) (cs : List Char) : Option (List Char × List Char) :=
  let ds := Decimal.leadingDigits (cs.take width)
  if ds.length = width ∧ low ≤ Decimal.valueOf ds ∧ Decimal.valueOf ds ≤ high then
    some (ds, cs.drop width)
  else none

/-- A date. -/
def date? (cs : List Char) : Option (List Char × List Char) := do
  let (year, cs) ← field? 4 0 9999 cs
  let (month, cs) ← field? 2 1 12 (← after? ['-'] cs)
  let days := Calendar.daysIn (Decimal.valueOf year) (Decimal.valueOf month)
  let (day, cs) ← field? 2 1 days (← after? ['-'] cs)
  return (year ++ '-' :: month ++ '-' :: day, cs)

/-- The decimals of a second, nine of which count and which do not end in zeros. -/
def decimals? : List Char → Option (List Char × List Char)
  | '.' :: rest =>
    let ds := Decimal.leadingDigits rest
    let kept := ((ds.take 9).reverse.dropWhile (· = '0')).reverse
    if ds.isEmpty then none
    else some (if kept.isEmpty then [] else '.' :: kept, Decimal.afterDigits rest)
  | rest => some ([], rest)

/-- A time of day. -/
def time? (cs : List Char) : Option (List Char × List Char) := do
  let (hour, cs) ← field? 2 0 23 cs
  let (minute, cs) ← field? 2 0 59 (← after? [':'] cs)
  let (second, cs) ← field? 2 0 60 (← after? [':'] cs)
  let (fraction, cs) ← decimals? cs
  return (hour ++ ':' :: minute ++ ':' :: second ++ fraction, cs)

/-- A distance from universal time. -/
def zone? : List Char → Option (List Char × List Char)
  | 'Z' :: rest | 'z' :: rest => some (['Z'], rest)
  | c :: rest =>
    if c = '+' ∨ c = '-' then do
      let (hour, cs) ← field? 2 0 23 rest
      let (minute, cs) ← field? 2 0 59 (← after? [':'] cs)
      let isZero := Decimal.valueOf (hour ++ minute) = 0
      return ((if isZero then '+' else c) :: hour ++ ':' :: minute, cs)
    else none
  | [] => none

/-- A time of day after the mark that sets it off from a date, with its distance from universal
time if there is one. -/
def timeAfterDate? : List Char → Option (List Char × List Char)
  | c :: rest =>
    if c = 'T' ∨ c = 't' ∨ c = ' ' then do
      let (time, cs) ← time? rest
      match zone? cs with
      | some (zone, cs) => return ('T' :: time ++ zone, cs)
      | none => return ('T' :: time, cs)
    else none
  | [] => none

/-- A date, a time of day, or both. -/
def moment? (cs : List Char) : Option (Document × List Char) :=
  match date? cs with
  | some (date, rest) =>
    match timeAfterDate? rest with
    | some (time, rest) => some (.text (String.ofList (date ++ time)), rest)
    | none => some (.text (String.ofList date), rest)
  | none => (time? cs).map fun (time, rest) => (.text (String.ofList time), rest)

end Foreman.Toml
