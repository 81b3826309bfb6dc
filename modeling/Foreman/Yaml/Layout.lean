import Foreman.Yaml.Token
/-!
# The layout of nested blocks

A text is cut into tokens from left to right. Outside brackets a block starts where a line is
indented further than what surrounds it, and ends before the first line that is not indented as
far. A key need not be announced: whether something was a key shows only when a colon follows it, on
the same line and within 1024 characters, and the sign for the key is put before it afterwards.

## Main definitions

* `Foreman.Yaml.Layout`: what was cut off a text so far.
* `Foreman.Yaml.Layout.step?`: one token more, with the blocks that start and end there.
* `Foreman.Yaml.tokens?`: the tokens of a text.
-/

namespace Foreman.Yaml

/-- Something that is a key if a colon follows. -/
structure Candidate where
  /-- Whether it can only be a key. -/
  required : Bool
  /-- How many tokens stand before it. -/
  position : Nat
  /-- Where it starts. -/
  place : Place

/-- What was cut off a text so far. -/
structure Layout where
  /-- The place reached. -/
  place : Place
  /-- The tokens, the newest first. -/
  tokens : List Token := []
  /-- How many tokens there are. -/
  count : Nat := 0
  /-- How far the innermost block is indented; less than nothing outside all blocks. -/
  margin : Int := -1
  /-- The same for the blocks around it. -/
  margins : List Int := []
  /-- Whether a key may start here. -/
  keyAllowed : Bool := true
  /-- What may turn out to be a key inside the innermost brackets. -/
  candidate : Option Candidate := none
  /-- The same for the brackets around them; as many as there are brackets open. -/
  candidates : List (Option Candidate) := []

namespace Layout

/-- Whether some brackets are open. -/
def inBrackets (s : Layout) : Bool :=
  !s.candidates.isEmpty

/-- One more token. -/
def push (s : Layout) (t : Token) : Layout :=
  { s with tokens := t :: s.tokens, count := s.count + 1 }

/-- One more token, with so many tokens before it. -/
def insertBefore (s : Layout) (position : Nat) (t : Token) : Layout :=
  { s with tokens := s.tokens.insertIdx (s.count - position) t, count := s.count + 1 }

/-- The place so many characters further. -/
def advance (s : Layout) (n : Nat) : Layout :=
  { s with place := s.place.advance n }

/-- The next place. -/
def moveTo (s : Layout) (p : Place) : Layout :=
  { s with place := p }

/-! ### Blocks -/

/-- A block that starts in a column, if it is indented further than the one around it; so many
tokens stand before it. -/
def openBlock (s : Layout) (column position : Nat) (t : Token) : Layout :=
  if s.inBrackets then s
  else if s.margin < column then
    { s.insertBefore position t with margin := column, margins := s.margin :: s.margins }
  else s

/-- The tokens of the blocks that end before a column, with the margin and the margins that stay. -/
def closing (column : Int) : Int → List Int → Nat × Int × List Int
  | margin, [] => (0, margin, [])
  | margin, m :: ms =>
    if column < margin then
      let (n, margin, margins) := closing column m ms
      (n + 1, margin, margins)
    else (0, margin, m :: ms)

/-- The end of the blocks that end before a column. -/
def closeBlocks (s : Layout) (column : Int) : Layout :=
  if s.inBrackets then s
  else
    let (n, margin, margins) := closing column s.margin s.margins
    { s with
      tokens := List.replicate n .closeBlock ++ s.tokens
      count := s.count + n
      margin := margin
      margins := margins }

/-! ### Keys -/

/-- Nothing read before can still turn out to be a key; refused if it can only be one. -/
def dropCandidate? (s : Layout) : Option Layout :=
  if s.candidate.any (·.required) then none else some { s with candidate := none }

/-- What starts here may turn out to be a key, if a key may start here. -/
def noteCandidate? (s : Layout) : Option Layout :=
  if s.keyAllowed then
    s.dropCandidate?.map fun s =>
      let required := !s.inBrackets && s.margin = s.place.column
      { s with candidate := some ⟨required, s.count, s.place⟩ }
  else some s

/-- Whether something is too far back to turn out to be a key. -/
def isStale (p : Place) (c : Candidate) : Bool :=
  c.place.line < p.line || c.place.index + 1024 < p.index

/-- Candidates too far back are dropped; refused if one of them can only be a key. -/
def dropStale? (s : Layout) : Option Layout :=
  let all := s.candidate :: s.candidates
  if all.any (Option.any fun c => isStale s.place c && c.required) then none
  else
    some { s with
      candidate := s.candidate.filter fun c => !isStale s.place c
      candidates := s.candidates.map (Option.filter fun c => !isStale s.place c) }

/-! ### Between tokens -/

/-- The place of the next token, after blanks, comments and ends of lines. Where a key may start
outside brackets no tab is skipped. -/
def skipFiller : Nat → Layout → Layout
  | 0, s => s
  | fuel + 1, s =>
    let p := match s.place.rest with
      | '\uFEFF' :: _ => if s.place.column = 0 then s.place.advance 1 else s.place
      | _ => s.place
    let tabs := s.inBrackets || !s.keyAllowed
    let p := (p.span fun c => c = ' ' || (tabs && c = '\t')).2
    let p := match p.rest with
      | '#' :: _ => p.skipLine
      | _ => p
    match p.lineBreak? with
    | some (_, next) =>
      skipFiller fuel { s with place := next, keyAllowed := s.keyAllowed || !s.inBrackets }
    | none => s.moveTo p

/-! ### Tokens -/

/-- The end of the text. -/
def finish? (s : Layout) : Option Layout :=
  (s.closeBlocks (-1)).dropCandidate?

/-- A line that starts at the margin of the whole text: no block and no key is open there. -/
def outermost? (s : Layout) : Option Layout :=
  (s.closeBlocks (-1)).dropCandidate?.map fun s => { s with keyAllowed := false }

/-- A directive. -/
def directive? (s : Layout) : Option Layout := do
  let s ← s.outermost?
  let (t, p) ← (s.place.advance 1).directive?
  return (s.push t).moveTo p

/-- A sign that sets documents apart. -/
def marker? (s : Layout) (t : Token) : Option Layout := do
  let s ← s.outermost?
  return (s.push t).advance 3

/-- An opening bracket or brace. -/
def openBrackets? (s : Layout) (t : Token) : Option Layout := do
  let s ← s.noteCandidate?
  return { (s.push t).advance 1 with
    keyAllowed := true
    candidate := none
    candidates := s.candidate :: s.candidates }

/-- A closing bracket or brace. -/
def closeBrackets? (s : Layout) (t : Token) : Option Layout := do
  let s ← s.dropCandidate?
  let s := { (s.push t).advance 1 with keyAllowed := false }
  match s.candidates with
  | c :: cs => return { s with candidate := c, candidates := cs }
  | [] => return s

/-- A comma. -/
def comma? (s : Layout) : Option Layout := do
  let s ← s.dropCandidate?
  return { (s.push .comma).advance 1 with keyAllowed := true }

/-- The sign for an item, which starts a list if it is indented further. -/
def item? (s : Layout) : Option Layout := do
  if !s.inBrackets && !s.keyAllowed then none
  let s ← (s.openBlock s.place.column s.count .openLines).dropCandidate?
  return { (s.push .item).advance 1 with keyAllowed := true }

/-- The written sign for a key, which starts a record if it is indented further. -/
def key? (s : Layout) : Option Layout := do
  if !s.inBrackets && !s.keyAllowed then none
  let s ← (s.openBlock s.place.column s.count .openMembers).dropCandidate?
  return { (s.push .key).advance 1 with keyAllowed := !s.inBrackets }

/-- The sign for a value. What may be a key, if there is such a thing, now is one. -/
def value? (s : Layout) : Option Layout :=
  match s.candidate with
  | some c =>
    let s := (s.insertBefore c.position .key).openBlock c.place.column c.position .openMembers
    some { (s.push .value).advance 1 with candidate := none, keyAllowed := false }
  | none =>
    if !s.inBrackets && !s.keyAllowed then none
    else
      let s := s.openBlock s.place.column s.count .openMembers
      some { (s.push .value).advance 1 with keyAllowed := !s.inBrackets }

/-- Something that may turn out to be a key, after which none may start. -/
def mayBeKey? (s : Layout) (read : Place → Option (Token × Place)) : Option Layout := do
  let s ← s.noteCandidate?
  let (t, p) ← read s.place
  return { (s.push t).moveTo p with keyAllowed := false }

/-- A scalar without quotes. If its line is ended after it a key may start again. -/
def plainScalar? (s : Layout) : Option Layout := do
  let s ← s.noteCandidate?
  let r ← plain? s.inBrackets (s.margin + 1) s.place
  return { (s.push (.scalar false (String.ofList r.text))).moveTo r.after with
    keyAllowed := r.broken }

/-- A scalar between quotes. -/
def quotedScalar? (s : Layout) (quote : Char) : Option Layout :=
  s.mayBeKey? fun p =>
    (quoted? quote (p.advance 1)).map fun r => (.scalar true (String.ofList r.text), r.after)

/-- A block of lines. -/
def blockScalar? (s : Layout) (literal : Bool) : Option Layout := do
  let s ← s.dropCandidate?
  let r ← block? literal s.margin (s.place.advance 1)
  return { (s.push (.scalar true (String.ofList r.text))).moveTo r.after with keyAllowed := true }

/-- Whether a scalar without quotes may start with a character; `next` is what follows it. -/
def startsPlain (inBrackets : Bool) (c : Char) (next : List Char) : Bool :=
  if c = '-' then !next.head?.any isBlank
  else if c = '?' || c = ':' then !inBrackets && !endsWord next
  else
    !(isBlank c || isBreak c || isFlowSign c || c = '#' || c = '&' || c = '*' || c = '!' ||
      c = '|' || c = '>' || c = '\'' || c = '"' || c = '%' || c = '@' || c = '`')

/-- The token that starts with a character; `next` is what follows it. -/
def token? (s : Layout) (c : Char) (next : List Char) : Option Layout :=
  if s.place.column = 0 && c = '%' then s.directive?
  else if s.place.atMarker then s.marker? (if c = '-' then .documentStart else .documentEnd)
  else if c = '[' then s.openBrackets? .openBracket
  else if c = Char.ofNat 0x7B then s.openBrackets? .openBrace
  else if c = ']' then s.closeBrackets? .closeBracket
  else if c = Char.ofNat 0x7D then s.closeBrackets? .closeBrace
  else if c = ',' then s.comma?
  else if c = '-' && endsWord next then s.item?
  else if c = '?' && (s.inBrackets || endsWord next) then s.key?
  else if c = ':' && (s.inBrackets || endsWord next) then s.value?
  else if c = '*' then s.mayBeKey? fun p => (p.advance 1).anchor?.map fun (n, p) => (.alias n, p)
  else if c = '&' then s.mayBeKey? fun p => (p.advance 1).anchor?.map fun (n, p) => (.anchor n, p)
  else if c = '!' then s.mayBeKey? (Place.tag? s.inBrackets)
  else if c = '|' && !s.inBrackets then s.blockScalar? true
  else if c = '>' && !s.inBrackets then s.blockScalar? false
  else if c = '\'' || c = '"' then s.quotedScalar? c
  else if startsPlain s.inBrackets c next then s.plainScalar?
  else none

/-- One token more, with the blocks that end before it; nothing else is left at the end of the
text. -/
def step? (s : Layout) : Option (Layout × Bool) := do
  let s := s.skipFiller (s.place.left + 1)
  let s ← s.dropStale?
  let s := s.closeBlocks s.place.column
  match s.place.rest with
  | [] => return (← s.finish?, true)
  | c :: next => return (← s.token? c next, false)

/-- The tokens of the rest of a text, the newest first. -/
def run? : Nat → Layout → Option (List Token)
  | 0, _ => none
  | fuel + 1, s => do
    let (s, done) ← s.step?
    if done then return s.tokens else run? fuel s

end Layout

/-- The tokens of a text. -/
def tokens? (text : String) : Option (List Token) :=
  let cs := text.toList
  if cs.all isAllowed then
    (Layout.run? (cs.length + 1) { place := .start cs }).map List.reverse
  else none

end Foreman.Yaml
