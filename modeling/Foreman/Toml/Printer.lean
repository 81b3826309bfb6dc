import Foreman.Toml.Scalar
/-!
# Writing sectioned texts

A tree of values is written as a text of sections. A table with members of its own stands under a
heading; its flags, numbers, texts and lists come first and its tables after them, with an empty
line in between. A list of two items or more goes over several lines.

A text with line ends goes over several lines. A text with quotes or backslashes stands between
apostrophes, where it can. Every other text stands between quotes. Whole numbers of more than 64
bits, the sign included, cannot be written.

## Main definitions

* `Foreman.Toml.Item`: what can be written.
* `Foreman.Toml.write?`: the text of a table.
* `Foreman.Toml.Item.document`: what is written, as a document.
-/

namespace Foreman.Toml

/-- What can be written. -/
inductive Item where
  /-- A flag. -/
  | flag (b : Bool)
  /-- A whole number. -/
  | int (n : Int)
  /-- A text. -/
  | text (s : String)
  /-- A list of texts. -/
  | texts (items : List String)
  /-- A table. -/
  | table (members : List (String × Item))
  deriving Inhabited

mutual

/-- What is written, as a document. -/
def Item.document : Item → Document
  | .flag b => .bool b
  | .int n => .int n
  | .text s => .text s
  | .texts items => .list (items.map .text)
  | .table members => .record (memberDocuments members)

/-- The members of a table as the members of a record. -/
def memberDocuments : List (String × Item) → List (Document × Document)
  | [] => []
  | (key, item) :: rest => (.text key, item.document) :: memberDocuments rest

end

/-! ### Texts -/

/-- A character between quotes; `open'` if line ends may stand there. -/
def writeChar (manyLines : Bool) (c : Char) : List Char :=
  if c = '\x08' then ['\\', 'b']
  else if c = '\t' then ['\\', 't']
  else if c = '\n' then (if manyLines then ['\n'] else ['\\', 'n'])
  else if c = '\x0c' then ['\\', 'f']
  else if c = '\r' then ['\\', 'r']
  else if c = '"' then ['\\', '"']
  else if c = '\\' then ['\\', '\\']
  else if c.toNat < 0x20 ∨ c.toNat = 0x7F then
    ['\\', 'u', '0', '0', (Nat.digitChar (c.toNat / 16)).toUpper,
      (Nat.digitChar (c.toNat % 16)).toUpper]
  else [c]

/-- Whether a text is best written between apostrophes. -/
def suitsApostrophes (cs : List Char) : Bool :=
  (cs.contains '"' || cs.contains '\\') && cs.all fun c => isPrintable c && c ≠ '\''

/-- How a text is written. -/
def writeText (s : String) : String :=
  let cs := s.toList
  String.ofList <|
    if cs.contains '\n' then
      ['"', '"', '"', '\n'] ++ cs.flatMap (writeChar true) ++ ['"', '"', '"']
    else if suitsApostrophes cs then '\'' :: cs ++ ['\'']
    else '"' :: cs.flatMap (writeChar false) ++ ['"']

/-- Whether a key needs no quotes. -/
def isBareKey (s : String) : Bool :=
  !s.isEmpty && s.toList.all fun c => c.isAlphanum || c = '_' || c = '-'

/-- How a key is written. -/
def writeKey (s : String) : String :=
  if isBareKey s then s else writeText s

/-- How a list of texts is written. -/
def writeTexts : List String → String
  | [] => "[]"
  | [s] => "[" ++ writeText s ++ "]"
  | items => "[\n" ++ String.join (items.map fun s => "    " ++ writeText s ++ ",\n") ++ "]"

/-! ### Tables -/

/-- How the value of a key is written, if it is no table; nothing if it cannot be written. -/
def writeValue? : Item → Option String
  | .flag true => some "true"
  | .flag false => some "false"
  | .int n => if -(Int.pow 2 63) ≤ n ∧ n < Int.pow 2 63 then some (toString n) else none
  | .text s => some (writeText s)
  | .texts items => some (writeTexts items)
  | .table _ => none

/-- The lines of the members of a table that are no tables. -/
def writeOwn? : List (String × Item) → Option String
  | [] => some ""
  | (_, .table _) :: rest => writeOwn? rest
  | (key, item) :: rest => do
    let value ← writeValue? item
    let more ← writeOwn? rest
    return writeKey key ++ " = " ++ value ++ "\n" ++ more

mutual

/-- The sections of a table: its own members under a heading that gives the path to it, unless it
has none but tables, and then the sections of its tables. -/
def sections? (path : List String) : Item → Option (List String)
  | .table members => do
    let own ← writeOwn? members
    let inner ← innerSections? path members
    let heading := "[" ++ String.intercalate "." (path.map writeKey) ++ "]\n"
    if path.isEmpty then return (if own.isEmpty then inner else own :: inner)
    else if own.isEmpty && !inner.isEmpty then return inner
    else return (heading ++ own) :: inner
  | _ => some []

/-- The sections of the tables in a table. -/
def innerSections? (path : List String) : List (String × Item) → Option (List String)
  | [] => some []
  | (key, item) :: rest => do
    let these ← sections? (path ++ [key]) item
    let those ← innerSections? path rest
    return these ++ those

end

/-- The text of a table; nothing if something in it cannot be written. -/
def write? (i : Item) : Option String :=
  (sections? [] i).map fun sections => String.intercalate "\n" sections

end Foreman.Toml
