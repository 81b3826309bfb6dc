import Foreman.Yaml.Scalar
/-!
# Tokens of nested blocks

The parts that a text of nested blocks is made of. Indentation is made explicit: a block that starts
because a line is indented further has a token of its own, and so has its end.

## Main definitions

* `Foreman.Yaml.Token`: the tokens.
* `Foreman.Yaml.Place.directive?`, `anchor?`, `tag?`: the tokens that carry names.
-/

namespace Foreman.Yaml

/-- A part of a text. -/
inductive Token where
  /-- The version of the format. -/
  | version (major minor : Nat)
  /-- The beginning that the tags with a handle share. -/
  | shorthand (handle start : String)
  /-- The sign for the start of a document. -/
  | documentStart
  /-- The sign for the end of a document. -/
  | documentEnd
  /-- The start of a list whose items stand in lines of their own. -/
  | openLines
  /-- The start of a record whose members stand in lines of their own. -/
  | openMembers
  /-- The end of such a list or record. -/
  | closeBlock
  /-- An opening bracket. -/
  | openBracket
  /-- A closing bracket. -/
  | closeBracket
  /-- An opening brace. -/
  | openBrace
  /-- A closing brace. -/
  | closeBrace
  /-- A comma. -/
  | comma
  /-- The sign for an item. -/
  | item
  /-- The sign for a key, written or understood. -/
  | key
  /-- The sign for a value. -/
  | value
  /-- The name of a node that was written before. -/
  | alias (name : String)
  /-- The name of the node that follows. -/
  | anchor (name : String)
  /-- The tag of the node that follows. -/
  | tag (handle rest : String)
  /-- A scalar. -/
  | scalar (quoted : Bool) (text : String)

namespace Place

/-! ### Anchors -/

/-- The name of an anchor, after its sign. -/
def anchor? (p : Place) : Option (String × Place) :=
  let (name, p) := p.span isNameChar
  let ends := endsWord p.rest || p.rest.head?.any fun c =>
    c = '?' || c = ':' || c = ',' || c = ']' || c = Char.ofNat 0x7D || c = '%' || c = '@' || c = '`'
  if name.isEmpty || !ends then none else some (String.ofList name, p)

/-! ### Tags -/

/-- Characters of a tag. Inside angle brackets a few more are allowed. -/
def isTagChar (verbatim : Bool) (c : Char) : Bool :=
  isNameChar c || ";/?:@&=+$.%!~*'()".toList.contains c ||
    (verbatim && (c = ',' || c = '[' || c = ']'))

/-- An octet given by two hexadecimal digits after a percent sign. -/
def octet? : List Char → Option (Nat × List Char)
  | '%' :: a :: b :: rest => (Plain.natural? 16 [a, b]).map (·, rest)
  | _ => none

/-- So many octets that continue a character. -/
def continuation? : Nat → Nat → List Char → Option (Nat × List Char)
  | 0, value, cs => some (value, cs)
  | n + 1, value, cs => do
    let (o, rest) ← octet? cs
    if o / 64 = 2 then continuation? n (value * 64 + o % 64) rest else none

/-- A character given by its octets. -/
def escaped? (cs : List Char) : Option (Char × List Char) := do
  let (o, rest) ← octet? cs
  let (value, rest) ←
    if o < 0x80 then some (o, rest)
    else if o / 32 = 6 then continuation? 1 (o % 32) rest
    else if o / 16 = 14 then continuation? 2 (o % 16) rest
    else if o / 8 = 30 then continuation? 3 (o % 8) rest
    else none
  return (← codePoint? value, rest)

/-- The characters of a tag, with escapes resolved, and what follows. -/
def tagText? (verbatim : Bool) : Nat → List Char → Option (List Char × List Char)
  | 0, cs => some ([], cs)
  | fuel + 1, cs =>
    match cs with
    | [] => some ([], [])
    | c :: rest =>
      if c = '%' then do
        let (d, rest) ← escaped? cs
        let (ds, rest) ← tagText? verbatim fuel rest
        return (d :: ds, rest)
      else if isTagChar verbatim c then do
        let (ds, rest) ← tagText? verbatim fuel rest
        return (c :: ds, rest)
      else some ([], cs)

/-- The characters of a tag, and the place after them. -/
def tagSpan? (verbatim : Bool) (p : Place) : Option (List Char × Place) := do
  let (cs, rest) ← tagText? verbatim p.left p.rest
  return (cs, p.advance (p.rest.length - rest.length))

/-- The handle of a tag: an exclamation mark, a name, and another mark unless the
last is missing. -/
def handle? (p : Place) : Option (List Char × Place) :=
  match p.rest with
  | '!' :: _ =>
    let (name, p) := (p.advance 1).span isNameChar
    match p.rest with
    | '!' :: _ => some ('!' :: name ++ ['!'], p.advance 1)
    | _ => some ('!' :: name, p)
  | _ => none

/-- A tag in angle brackets, after the mark and the first bracket. -/
def verbatimTag? (p : Place) : Option (Token × Place) := do
  let (cs, p) ← p.tagSpan? true
  if cs.isEmpty || p.rest.head? ≠ some '>' then none
  return (.tag "" (String.ofList cs), p.advance 1)

/-- A tag with a handle, or without one. An exclamation mark alone is a tag of its own. -/
def shortTag? (p : Place) : Option (Token × Place) := do
  let (handle, q) ← p.handle?
  if 2 ≤ handle.length && handle.getLast? = some '!' then
    let (cs, q) ← q.tagSpan? false
    if cs.isEmpty then none
    return (.tag (String.ofList handle) (String.ofList cs), q)
  else
    let (cs, q) ← q.tagSpan? false
    let cs := handle.drop 1 ++ cs
    if cs.isEmpty then return (.tag "" "!", q)
    else return (.tag "!" (String.ofList cs), q)

/-- A tag. A blank or the end of the line follows it, or inside brackets a comma. -/
def tag? (flow : Bool) (p : Place) : Option (Token × Place) := do
  let (t, q) ← match p.rest with
    | '!' :: '<' :: _ => (p.advance 2).verbatimTag?
    | _ => p.shortTag?
  if endsWord q.rest || (flow && q.rest.head? = some ',') then return (t, q) else none

/-! ### Directives -/

/-- A number of at most nine digits. -/
def versionNumber? (p : Place) : Option (Nat × Place) :=
  let (ds, p) := p.span Char.isDigit
  if ds.isEmpty || 9 < ds.length then none
  else (Plain.natural? 10 ds).map (·, p)

/-- What a directive says, after its name. -/
def directiveBody? (name : List Char) (p : Place) : Option (Token × Place) :=
  let p := p.skipBlanks
  if name = ['Y', 'A', 'M', 'L'] then do
    let (major, p) ← p.versionNumber?
    if p.rest.head? ≠ some '.' then none
    let (minor, p) ← (p.advance 1).versionNumber?
    return (.version major minor, p)
  else if name = ['T', 'A', 'G'] then do
    let (handle, p) ← p.handle?
    if handle.length ≠ 1 && handle.getLast? ≠ some '!' then none
    if !p.rest.head?.any isBlank then none
    let (start, p) ← p.skipBlanks.tagSpan? true
    if start.isEmpty || !endsWord p.rest then none
    return (.shorthand (String.ofList handle) (String.ofList start), p)
  else none

/-- A directive, after its sign. It takes the whole line. -/
def directive? (p : Place) : Option (Token × Place) := do
  let (name, p) := p.span isNameChar
  if name.isEmpty || !endsWord p.rest then none
  let (t, p) ← p.directiveBody? name
  let p := p.skipComment
  if !endsLine p.rest then none
  match p.lineBreak? with
  | some (_, next) => return (t, next)
  | none => return (t, p)

end Place

end Foreman.Yaml
