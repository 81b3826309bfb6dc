import Foreman.Toml.Scalar
import Foreman.Toml.Tree
/-!
# Sectioned texts

A sectioned text is a list of lines: a key and a value, a heading in brackets, or nothing. A key may
be dotted. Values are scalars, lists, which may go over several lines, and tables in braces, which
may not.

## Main definitions

* `Foreman.Toml.value?`: a value.
* `Foreman.Toml.lines?`: the lines of a text, gathered under their headings.
* `Foreman.Toml.readDocument?`: the document that a text spells.
-/

namespace Foreman.Toml

/-! ### Keys -/

/-- Characters of a key without quotes. -/
def isKeyChar (c : Char) : Bool :=
  c.isAlphanum || c = '_' || c = '-'

/-- A key without dots. -/
def simpleKey? (cs : List Char) : Option (String × List Char) :=
  let bare := cs.takeWhile isKeyChar
  if bare.isEmpty then lineString? cs else some (String.ofList bare, cs.drop bare.length)

/-- A key with the path to it. -/
structure Key where
  /-- The path. -/
  path : List String
  /-- The key itself. -/
  last : String

/-- A key that may be dotted, with blanks around its parts. -/
def key? : Nat → List Char → Option (Key × List Char)
  | 0, _ => none
  | fuel + 1, cs => do
    let (first, rest) ← simpleKey? (skipBlanks cs)
    match skipBlanks rest with
    | '.' :: rest => do
      let (k, rest) ← key? fuel rest
      return (⟨first :: k.path, k.last⟩, rest)
    | rest => return (⟨[], first⟩, rest)

/-! ### Values -/

/-- What follows a comment. -/
def afterComment : List Char → List Char
  | '#' :: rest => rest.dropWhile isPrintable
  | rest => rest

/-- A text without the blanks, comments and line ends it starts with. -/
def skipFiller : Nat → List Char → List Char
  | 0, cs => cs
  | fuel + 1, cs =>
    match skipBlanks cs with
    | '#' :: rest =>
      match afterLineEnd? (afterComment ('#' :: rest)) with
      | some rest => skipFiller fuel rest
      | none => '#' :: rest
    | cs =>
      match afterLineEnd? cs with
      | some rest => skipFiller fuel rest
      | none => cs

/-- A text without all the blanks, comments and line ends it starts with. -/
def skipAllFiller (cs : List Char) : List Char :=
  skipFiller (cs.length + 1) cs

/-- How many lists and tables may stand inside each other. -/
def depthLimit : Nat := 79

/-- What follows an opening brace. -/
def afterOpenBrace? (cs : List Char) : Option (List Char) :=
  after? [Char.ofNat 0x7B] cs

/-- What follows a closing brace. -/
def afterCloseBrace? (cs : List Char) : Option (List Char) :=
  after? [Char.ofNat 0x7D] cs

/-- A value that is neither a list nor a table. -/
def scalarValue? (cs : List Char) : Option (Document × List Char) :=
  match cs with
  | '"' :: _ | '\'' :: _ => (string? cs).map fun (s, rest) => (.text s, rest)
  | 't' :: _ => (after? ['t', 'r', 'u', 'e'] cs).map (.bool true, ·)
  | 'f' :: _ => (after? ['f', 'a', 'l', 's', 'e'] cs).map (.bool false, ·)
  | _ => ((moment? cs).or (float? cs)).or (integer? cs)

mutual

/-- A value inside so many lists and tables. -/
def value? : Nat → Nat → List Char → Option (Document × List Char)
  | 0, _, _ => none
  | fuel + 1, depth, cs =>
    match after? ['['] cs, afterOpenBrace? cs with
    | some rest, _ =>
      if depth < depthLimit then
        (items? fuel (depth + 1) (skipAllFiller rest)).map fun (ds, rest) => (.list ds, rest)
      else none
    | none, some rest =>
      if depth < depthLimit then do
        let (keys, rest) ← match afterCloseBrace? (skipBlanks rest) with
          | some after => some ([], after)
          | none => pairs? fuel (depth + 1) rest
        let members ← addKeys? [] keys
        return (Members.document members, rest)
      else none
    | none, none => scalarValue? cs

/-- The values of a list up to its closing bracket, a comma after the last of which may stand. -/
def items? : Nat → Nat → List Char → Option (List Document × List Char)
  | 0, _, _ => none
  | fuel + 1, depth, cs =>
    match cs with
    | ']' :: rest => some ([], rest)
    | cs => do
      let (d, rest) ← value? fuel depth cs
      match skipAllFiller rest with
      | ']' :: rest => return ([d], rest)
      | ',' :: rest =>
        let (ds, rest) ← items? fuel depth (skipAllFiller rest)
        return (d :: ds, rest)
      | _ => none

/-- The keys and values of a table in braces up to the closing one. -/
def pairs? : Nat → Nat → List Char → Option (List Assignment × List Char)
  | 0, _, _ => none
  | fuel + 1, depth, cs => do
    let (k, rest) ← key? (cs.length + 1) cs
    let rest ← after? ['='] rest
    let (d, rest) ← value? fuel depth (skipBlanks rest)
    let pair : Assignment := ⟨k.path, k.last, d⟩
    match skipBlanks rest with
    | ',' :: rest =>
      let (pairs, rest) ← pairs? fuel depth rest
      return (pair :: pairs, rest)
    | rest =>
      let rest ← afterCloseBrace? rest
      return ([pair], rest)

end

/-! ### Lines -/

/-- A heading with the keys below it, or the keys above all headings. -/
structure Block where
  /-- The heading, if there is one: whether it is in double brackets, and its key. -/
  heading : Option (Bool × Key)
  /-- The keys below it. -/
  keys : List Assignment

/-- What follows the rest of a line on which nothing but a comment may still stand. -/
def lineRest? (cs : List Char) : Option (List Char) :=
  match afterComment (skipBlanks cs) with
  | [] => some []
  | cs => afterLineEnd? cs

/-- A heading: whether it is in double brackets, and its key. -/
def heading? (cs : List Char) : Option ((Bool × Key) × List Char) :=
  match cs with
  | '[' :: '[' :: rest => do
    let (k, rest) ← key? (rest.length + 1) rest
    let rest ← after? [']', ']'] rest
    return ((true, k), rest)
  | '[' :: rest => do
    let (k, rest) ← key? (rest.length + 1) rest
    let rest ← after? [']'] rest
    return ((false, k), rest)
  | _ => none

/-- The lines of a text, gathered under their headings, starting with keys without a heading. -/
def lines? : Nat → List Char → Option (List Assignment × List Block)
  | 0, _ => none
  | fuel + 1, cs =>
    match skipAllFiller cs with
    | [] => some ([], [])
    | '#' :: rest => if (rest.dropWhile isPrintable).isEmpty then some ([], []) else none
    | '[' :: rest => do
      let (h, rest) ← heading? ('[' :: rest)
      let (keys, blocks) ← lines? fuel (← lineRest? rest)
      return ([], ⟨some h, keys⟩ :: blocks)
    | cs => do
      let (k, rest) ← key? (cs.length + 1) cs
      let rest ← after? ['='] rest
      let (d, rest) ← value? (2 * rest.length + 2) 0 (skipBlanks rest)
      let (keys, blocks) ← lines? fuel (← lineRest? rest)
      return (⟨k.path, k.last, d⟩ :: keys, blocks)

/-- One more block of the tree. -/
def addBlock? (members : Members) (b : Block) : Option Members :=
  match b.heading with
  | none => addKeys? members b.keys
  | some (repeated, k) => addSection? repeated k.path k.last b.keys members

/-- The mark that may stand at the start of a text. -/
def byteOrderMark : Char := Char.ofNat 0xFEFF

/-- The document that a text spells. -/
def readDocument? (s : String) : Option Document := do
  let cs := match s.toList with
    | c :: rest => if c = byteOrderMark then rest else c :: rest
    | [] => []
  let (keys, blocks) ← lines? (cs.length + 1) cs
  let members ← (⟨none, keys⟩ :: blocks).foldlM addBlock? []
  return members.document

end Foreman.Toml
