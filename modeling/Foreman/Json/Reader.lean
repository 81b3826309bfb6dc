import Foreman.Document
/-!
# Reading interchange texts

A text is read into a document: members stay in the order they are written, with repeated keys. A
number out of range, an escape that is no character and a list or object nested too deeply are
faults: the text around them is read on, and they matter only to someone who reads them.

Numbers without point and exponent that fit 64 bits, signed or not, are whole. Of any other number
the leading digits that fit 64 bits are scaled by a power of ten.

## Main definitions

* `Foreman.Json.readDocument?`: the document that a text spells.
* `Foreman.Json.parse?`: the open value that a text spells.
-/

namespace Foreman.Json

/-- How many lists and objects may stand around a value. -/
def depthLimit : Nat := 127

/-- The blanks between tokens. -/
def skipBlanks (cs : List Char) : List Char :=
  cs.dropWhile fun c => c = ' ' || c = '\n' || c = '\t' || c = '\r'

/-! ### Numbers -/

/-- Digits gathered into a significand of 64 bits. -/
structure Gathered where
  /-- The significand so far. -/
  significand : Nat
  /-- The digits of it, by count. -/
  taken : Nat
  /-- The digits after it, which no longer fit. -/
  dropped : Nat

/-- Digits gathered into a significand while it fits 64 bits; none after the first that does not. -/
def gather (start : Nat) (ds : List Char) : Gathered :=
  ds.foldl (fun g c =>
    let next := g.significand * 10 + Decimal.digitValue c
    if g.dropped = 0 ∧ next < Nat.pow 2 64 then ⟨next, g.taken + 1, 0⟩
    else ⟨g.significand, g.taken, g.dropped + 1⟩) ⟨start, 0, 0⟩

/-- The parts of a number: the digits before the point, those after it if there is one, and the
exponent if there is one. -/
structure NumberText where
  /-- Whether a minus stands in front. -/
  negative : Bool
  /-- The digits before the point. -/
  whole : List Char
  /-- The digits after the point. -/
  fraction : Option (List Char)
  /-- The exponent. -/
  exponent : Option Int

/-- The number that its parts spell. -/
def NumberText.document (t : NumberText) : Document :=
  let whole := gather 0 t.whole
  let signed (x : Option Float) : Document :=
    match x with
    | none => .fault
    | some x => .float (if t.negative then -x else x)
  match t.fraction, t.exponent with
  | none, none =>
    if whole.dropped = 0 then
      if t.negative then
        if whole.significand = 0 ∨ Nat.pow 2 63 < whole.significand then
          .float (-(whole.significand.toUInt64.toFloat))
        else .int (-(whole.significand : Int))
      else .int whole.significand
    else signed (Decimal.scaled? whole.significand.toUInt64 whole.dropped)
  | fraction, exponent =>
    let tail := gather whole.significand (fraction.getD [])
    let shift : Int := whole.dropped - tail.taken + exponent.getD 0
    signed (Decimal.scaled? tail.significand.toUInt64 shift)

/-- An exponent, if a letter announces one. -/
def exponentText? : List Char → Option (Option Int × List Char)
  | c :: rest =>
    if c = 'e' ∨ c = 'E' then
      let (negative, rest) := Decimal.splitSign rest
      let ds := Decimal.leadingDigits rest
      if ds.isEmpty then none
      else
        let e : Int := Decimal.valueOf ds
        some (some (if negative then -e else e), Decimal.afterDigits rest)
    else some (none, c :: rest)
  | [] => some (none, [])

/-- A number, and what follows it. -/
def number? (cs : List Char) : Option (Document × List Char) := do
  let (negative, cs) := match cs with
    | '-' :: rest => (true, rest)
    | rest => (false, rest)
  let whole := Decimal.leadingDigits cs
  let cs := Decimal.afterDigits cs
  if whole.isEmpty || (whole.head? = some '0' && whole.length != 1) then none
  else
    let (fraction, cs) ← match cs with
      | '.' :: rest =>
        let ds := Decimal.leadingDigits rest
        if ds.isEmpty then none else some (some ds, Decimal.afterDigits rest)
      | rest => some (none, rest)
    let (exponent, cs) ← exponentText? cs
    return ((NumberText.mk negative whole fraction exponent).document, cs)

/-! ### Texts -/

/-- The value of a hexadecimal digit. -/
def hexValue? (c : Char) : Option Nat :=
  Plain.digitIn? 16 c

/-- Four hexadecimal digits. -/
def hex4? : List Char → Option (Nat × List Char)
  | a :: b :: c :: d :: rest => do
    let a ← hexValue? a
    let b ← hexValue? b
    let c ← hexValue? c
    let d ← hexValue? d
    return (((a * 16 + b) * 16 + c) * 16 + d, rest)
  | _ => none

/-- What an escape stands for. -/
inductive Escape where
  /-- A character. -/
  | char (c : Char)
  /-- Half of a pair without its other half. -/
  | broken

/-- An escape after its backslash. -/
def escape? : List Char → Option (Escape × List Char)
  | '"' :: rest => some (.char '"', rest)
  | '\\' :: rest => some (.char '\\', rest)
  | '/' :: rest => some (.char '/', rest)
  | 'b' :: rest => some (.char '\x08', rest)
  | 'f' :: rest => some (.char '\x0c', rest)
  | 'n' :: rest => some (.char '\n', rest)
  | 'r' :: rest => some (.char '\r', rest)
  | 't' :: rest => some (.char '\t', rest)
  | 'u' :: rest => do
    let (high, rest) ← hex4? rest
    if 0xDC00 ≤ high ∧ high ≤ 0xDFFF then return (.broken, rest)
    else if 0xD800 ≤ high ∧ high ≤ 0xDBFF then
      match rest with
      | '\\' :: 'u' :: more =>
        let (low, after) ← hex4? more
        if 0xDC00 ≤ low ∧ low ≤ 0xDFFF then
          return (.char (Char.ofNat (0x10000 + (high - 0xD800) * 0x400 + (low - 0xDC00))), after)
        else return (.broken, rest)
      | _ => return (.broken, rest)
    else return (.char (Char.ofNat high), rest)
  | _ => none

/-- The characters of a text after its opening quote, newest first; nothing in place of the text if
one of its escapes is broken. -/
def textBody? : Nat → List Char → Option (List Char) → Option (Option String × List Char)
  | 0, _, _ => none
  | fuel + 1, cs, acc =>
    match cs with
    | [] => none
    | '"' :: rest => some (acc.map fun r => String.ofList r.reverse, rest)
    | '\\' :: rest => do
      let (e, rest) ← escape? rest
      match e with
      | .char c => textBody? fuel rest (acc.map (c :: ·))
      | .broken => textBody? fuel rest none
    | c :: rest => if c.toNat < 0x20 then none else textBody? fuel rest (acc.map (c :: ·))

/-- A text after its opening quote; the first number bounds its length. -/
def text? (fuel : Nat) (cs : List Char) : Option (Document × List Char) :=
  (textBody? fuel cs (some [])).map fun (s, rest) =>
    (s.elim .fault Document.text, rest)

/-! ### Values -/

/-- What follows the characters of a word, if they come first. -/
def afterWord? : List Char → List Char → Option (List Char)
  | [], cs => some cs
  | _ :: _, [] => none
  | w :: ws, c :: cs => if w = c then afterWord? ws cs else none

/-- What follows a word, if it comes first. -/
def word? (word : String) (cs : List Char) : Option (List Char) :=
  afterWord? word.toList cs

mutual

/-- A value, under a count of lists and objects around it. -/
def value? : Nat → Nat → List Char → Option (Document × List Char)
  | 0, _, _ => none
  | fuel + 1, depth, cs =>
    match skipBlanks cs with
    | 'n' :: rest => (word? "ull" rest).map (Document.null, ·)
    | 't' :: rest => (word? "rue" rest).map (Document.bool true, ·)
    | 'f' :: rest => (word? "alse" rest).map (Document.bool false, ·)
    | '"' :: rest => text? fuel rest
    | '[' :: rest => do
      let (items, rest) ← match skipBlanks rest with
        | ']' :: after => some ([], after)
        | more => items? fuel (depth + 1) more
      return (if depth < depthLimit then .list items else .fault, rest)
    | c :: rest =>
      if c.toNat = 0x7B then do
        let (members, rest) ← match skipBlanks rest with
          | c :: after =>
            if c.toNat = 0x7D then some ([], after) else members? fuel (depth + 1) (c :: after)
          | [] => none
        return (if depth < depthLimit then .record members else .fault, rest)
      else number? (c :: rest)
    | [] => none

/-- One or more items up to the closing bracket. -/
def items? : Nat → Nat → List Char → Option (List Document × List Char)
  | 0, _, _ => none
  | fuel + 1, depth, cs => do
    let (item, rest) ← value? fuel depth cs
    match skipBlanks rest with
    | ']' :: after => return ([item], after)
    | ',' :: more =>
      let (items, after) ← items? fuel depth more
      return (item :: items, after)
    | _ => none

/-- One or more members up to the closing brace. -/
def members? : Nat → Nat → List Char → Option (List (Document × Document) × List Char)
  | 0, _, _ => none
  | fuel + 1, depth, cs => do
    let rest ← word? "\"" (skipBlanks cs)
    let (key, rest) ← text? fuel rest
    let rest ← word? ":" (skipBlanks rest)
    let (value, rest) ← value? fuel depth rest
    match skipBlanks rest with
    | ',' :: more =>
      let (members, after) ← members? fuel depth more
      return ((key, value) :: members, after)
    | c :: after => if c.toNat = 0x7D then return ([(key, value)], after) else none
    | [] => none

end

/-- The document that a text spells. -/
def readDocument? (s : String) : Option Document := do
  let cs := s.toList
  let (d, rest) ← value? (2 * cs.length + 4) 0 cs
  if (skipBlanks rest).isEmpty then return d else none

/-- The open value that a text spells. -/
def parse? (s : String) : Option Json :=
  (readDocument? s).bind Document.json?

end Foreman.Json
