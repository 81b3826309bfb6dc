import Foreman.Document.Plain
import Foreman.Yaml.Place
/-!
# Scalars of nested blocks

A scalar is written plainly, between quotes or apostrophes, or as a block of lines. The first three
may go over several lines, which are then joined. In a block the ends of lines are kept, or joined
where neither line starts with a blank; a sign after its heading says whether the last ends of lines
are dropped, kept, or reduced to one.

## Main definitions

* `Foreman.Yaml.plain?`: a scalar without quotes.
* `Foreman.Yaml.quoted?`: a scalar between quotes or apostrophes.
* `Foreman.Yaml.block?`: a scalar that is a block of lines.
-/

namespace Foreman.Yaml

/-! ### Scalars without quotes -/

/-- Characters that end a scalar without quotes inside brackets. -/
def isFlowSign (c : Char) : Bool :=
  c = ',' || c = '[' || c = ']' || c = Char.ofNat 0x7B || c = Char.ofNat 0x7D

/-- The word of a scalar without quotes that a text starts with; `flow` says whether it stands
inside brackets, where a colon may not be followed by a sign. -/
def plainWord? (flow : Bool) : List Char → Option (List Char)
  | [] => some []
  | c :: rest =>
    if isBlank c || isBreak c then some []
    else if c = ':' && flow && (rest.head?.any fun d => isFlowSign d || d = '?') then none
    else if c = ':' && endsWord rest then some []
    else if flow && isFlowSign c then some []
    else (plainWord? flow rest).map (c :: ·)

/-- A scalar that was read. -/
structure Scanned where
  /-- Its characters. -/
  text : List Char
  /-- Whether the line it stands in was ended after it. -/
  broken : Bool := false
  /-- The place after it. -/
  after : Place

/-- A scalar with more characters at its start. -/
def Scanned.startingWith (cs : List Char) (r : Scanned) : Scanned :=
  { r with text := cs ++ r.text }

/-- The rest of a scalar without quotes, from a gap between its words on. It ends before a comment,
a line that sets documents apart and, outside brackets, a line that is not indented as far as the
margin. -/
def plainFrom? (flow : Bool) (margin : Int) : Nat → Gap → Place → Option Scanned
  | 0, _, _ => none
  | fuel + 1, gap, p =>
    if p.atMarker || p.rest.head? = some '#' then some ⟨[], gap.broken, p⟩
    else
      match plainWord? flow p.rest with
      | none => none
      | some [] => some ⟨[], gap.broken, p⟩
      | some word =>
        let text := gap.text ++ word
        let p := p.advance word.length
        if p.rest.isEmpty || !endsWord p.rest then some ⟨text, false, p⟩
        else
          match p.gap? margin {} with
          | none => none
          | some (gap, p) =>
            if !flow && (p.column : Int) < margin then some ⟨text, gap.broken, p⟩
            else (plainFrom? flow margin fuel gap p).map (.startingWith text)

/-- A scalar without quotes. -/
def plain? (flow : Bool) (margin : Int) (p : Place) : Option Scanned :=
  plainFrom? flow margin (p.left + 1) {} p

/-! ### Scalars between quotes -/

/-- The character of a number that is one. -/
def codePoint? (n : Nat) : Option Char :=
  if h : n.isValidChar then some (Char.ofNatAux n h) else none

/-- The character that an escape stands for, after its backslash, and how long the escape is. -/
def escape? : List Char → Option (Char × Nat)
  | [] => none
  | c :: rest =>
    match c with
    | '0' => some ('\x00', 1)
    | 'a' => some ('\x07', 1)
    | 'b' => some ('\x08', 1)
    | 't' | '\t' => some ('\t', 1)
    | 'n' => some ('\n', 1)
    | 'v' => some ('\x0b', 1)
    | 'f' => some ('\x0c', 1)
    | 'r' => some ('\r', 1)
    | 'e' => some ('\x1b', 1)
    | ' ' | '"' | '/' | '\\' => some (c, 1)
    | 'N' => some ('\u0085', 1)
    | '_' => some ('\u00a0', 1)
    | 'L' => some ('\u2028', 1)
    | 'P' => some ('\u2029', 1)
    | 'x' => numbered 2 rest
    | 'u' => numbered 4 rest
    | 'U' => numbered 8 rest
    | _ => none
where
  /-- A character given by so many hexadecimal digits. -/
  numbered (width : Nat) (cs : List Char) : Option (Char × Nat) :=
    if (cs.take width).length = width then
      ((Plain.natural? 16 (cs.take width)).bind codePoint?).map fun c => (c, width + 1)
    else none

/-- A word of a scalar between quotes: its characters, whether an escaped end of a line follows, and
the place after it. -/
def quotedWord? (quote : Char) : Nat → Place → Option (List Char × Bool × Place)
  | 0, _ => none
  | fuel + 1, p =>
    let next (d : Char) (length : Nat) : Option (List Char × Bool × Place) :=
      (quotedWord? quote fuel (p.advance length)).map fun (ds, more) => (d :: ds, more)
    match p.rest with
    | [] => some ([], false, p)
    | c :: rest =>
      if isBlank c || isBreak c then some ([], false, p)
      else if c = '\'' && quote = '\'' && rest.head? = some '\'' then next c 2
      else if c = quote then some ([], false, p)
      else if c = '\\' && quote = '"' then
        match (p.advance 1).lineBreak? with
        | some (_, after) => some ([], true, after)
        | none => (escape? rest).bind fun (d, length) => next d (length + 1)
      else next c 1

/-- The rest of a scalar between quotes. No line within it may set documents apart. -/
def quotedFrom? (quote : Char) : Nat → Place → Option Scanned
  | 0, _ => none
  | fuel + 1, p =>
    if p.atMarker || p.rest.isEmpty then none
    else do
      let (word, escaped, p) ← quotedWord? quote (p.left + 1) p
      if p.rest.head? = some quote then return ⟨word, false, p.advance 1⟩
      else
        let (gap, p) ← p.gap? 0 { broken := escaped }
        (quotedFrom? quote fuel p).map (.startingWith (word ++ gap.text))

/-- A scalar between quotes, after the first of them. -/
def quoted? (quote : Char) (p : Place) : Option Scanned :=
  quotedFrom? quote (p.left + 2) p

/-! ### Blocks of lines -/

/-- What becomes of the ends of lines after the last line of a block. -/
inductive Tail where
  /-- They are dropped. -/
  | strip
  /-- The first one is kept. -/
  | clip
  /-- All are kept. -/
  | keep

/-- What stands after the sign that announces a block of lines. -/
structure Heading where
  /-- What becomes of the last ends of lines. -/
  tail : Tail
  /-- How far the lines are indented beyond what surrounds the block; nothing if the first of them
  decides. -/
  increment : Option Nat

/-- The sign for the last ends of lines. -/
def tailSign? : Char → Option Tail
  | '+' => some .keep
  | '-' => some .strip
  | _ => none

/-- The heading of a block, and the place after it: a sign and a digit in either order, or one of
them, or none. The digit is not zero. -/
def Place.heading? (p : Place) : Option (Heading × Place) :=
  match p.rest with
  | c :: rest =>
    match tailSign? c with
    | some tail =>
      match rest with
      | d :: _ => digit d tail 2 |>.getD (some (⟨tail, none⟩, p.advance 1))
      | [] => some (⟨tail, none⟩, p.advance 1)
    | none =>
      match rest.head?.bind tailSign? with
      | some tail => digit c tail 2 |>.getD (some (⟨.clip, none⟩, p))
      | none => digit c .clip 1 |>.getD (some (⟨.clip, none⟩, p))
  | [] => some (⟨.clip, none⟩, p)
where
  /-- A heading with a digit and a length; nothing if it is no digit, a refusal if it is zero. -/
  digit (d : Char) (tail : Tail) (length : Nat) : Option (Option (Heading × Place)) :=
    if d = '0' then some none
    else if d.isDigit then some (some (⟨tail, some (d.toNat - 48)⟩, p.advance length))
    else none

/-- The lines before the next line of a block that is not empty. -/
structure EmptyLines where
  /-- What their ends stand for. -/
  breaks : List Char
  /-- How far the farthest indented of them, and of the line after them, goes. -/
  farthest : Nat
  /-- The place after the indentation of the next line. -/
  after : Place

/-- The empty lines from a place on. If an indentation is given, no more than that is skipped. A tab
where the indentation is to be is refused. -/
def emptyLines? (indent : Option Nat) : Nat → List Char → Nat → Place → Option EmptyLines
  | 0, _, _, _ => none
  | fuel + 1, breaks, farthest, p =>
    let spaces := (p.rest.takeWhile (· = ' ')).length
    let p := p.advance (match indent with
      | some n => min spaces (n - p.column)
      | none => spaces)
    let farthest := max farthest p.column
    if p.rest.head? = some '\t' && indent.all (p.column < ·) then none
    else
      match p.lineBreak? with
      | some (c, next) => emptyLines? indent fuel (breaks ++ [c]) farthest next
      | none => some ⟨breaks, farthest, p⟩

/-- What was read last of a block of lines. -/
structure LastLine where
  /-- What the end of the last line stands for, if it ended. -/
  lineEnd : Option Char
  /-- What the ends of the empty lines after it stand for. -/
  breaks : List Char
  /-- Whether the last line started with a blank. -/
  blank : Bool

/-- What stands between the last line of a block and one that starts with a blank or does not. -/
def LastLine.joint (l : LastLine) (literal blank : Bool) : List Char :=
  match l.lineEnd with
  | some '\n' =>
    if literal || l.blank || blank then '\n' :: l.breaks
    else if l.breaks.isEmpty then [' ']
    else l.breaks
  | some c => c :: l.breaks
  | none => l.breaks

/-- What stands after the last line of a block. -/
def LastLine.ending (l : LastLine) : Tail → List Char
  | .strip => []
  | .clip => l.lineEnd.toList
  | .keep => l.lineEnd.toList ++ l.breaks

/-- The rest of a block whose lines are indented so far. -/
def blockFrom? (literal : Bool) (tail : Tail) (indent : Nat) :
    Nat → LastLine → Place → Option Scanned
  | 0, _, _ => none
  | fuel + 1, l, p =>
    if p.column ≠ indent || p.rest.isEmpty then some ⟨l.ending tail, false, p⟩
    else
      let blank := p.rest.head?.any isBlank
      let (line, p) := p.span fun c => !isBreak c
      let (lineEnd, p) := match p.lineBreak? with
        | some (c, next) => (some c, next)
        | none => (none, p)
      match emptyLines? (some indent) (p.left + 1) [] 0 p with
      | none => none
      | some e =>
        (blockFrom? literal tail indent fuel ⟨lineEnd, e.breaks, blank⟩ e.after).map
          (.startingWith (l.joint literal blank ++ line))

/-- A block of lines, after the sign that announces it; `margin` is how far what surrounds it is
indented, which is less than nothing at the outermost level. Where the heading does not say it, the
lines are indented as the first of them that is not empty, and beyond the margin. -/
def block? (literal : Bool) (margin : Int) (p : Place) : Option Scanned := do
  let (heading, p) ← p.heading?
  let p := p.skipComment
  if !endsLine p.rest then none
  let p := match p.lineBreak? with
    | some (_, next) => next
    | none => p
  let given := heading.increment.map fun n => (max margin 0).toNat + n
  let e ← emptyLines? given (p.left + 1) [] 0 p
  let indent := given.getD (max e.farthest (max (margin + 1) 1).toNat)
  blockFrom? literal heading.tail indent (e.after.left + 2) ⟨none, e.breaks, false⟩ e.after

end Foreman.Yaml
