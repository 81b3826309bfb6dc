/-!
# Places in a text of nested blocks

Such a text is read from left to right, and how far a line is indented is part of what it says. A
place is what is still to be read, together with the line and the column it starts in.

A line ends with a line feed, a carriage return, both, or one of three rarer characters; all but the
last two are read as a line feed.

## Main definitions

* `Foreman.Yaml.Place`: a place in a text.
* `Foreman.Yaml.Place.lineBreak?`: what follows the end of a line.
* `Foreman.Yaml.Gap`: the blanks and ends of lines between two words, and the text they stand for.
* `Foreman.Yaml.Place.gap?`: the gap that starts at a place.
-/

namespace Foreman.Yaml

/-! ### Characters -/

/-- Characters that may stand in a text at all. -/
def isAllowed (c : Char) : Bool :=
  let n := c.toNat
  n = 0x09 || n = 0x0A || n = 0x0D || (0x20 ≤ n && n ≤ 0x7E) || n = 0x85 ||
    (0xA0 ≤ n && n ≤ 0xFFFD) || 0x10000 ≤ n

/-- Blanks within a line. -/
def isBlank (c : Char) : Bool :=
  c = ' ' || c = '\t'

/-- Characters that end a line. -/
def isBreak (c : Char) : Bool :=
  c = '\n' || c = '\r' || c = '\u0085' || c = '\u2028' || c = '\u2029'

/-- Whether a text ends, or its line does. -/
def endsLine : List Char → Bool
  | [] => true
  | c :: _ => isBreak c

/-- Whether a text ends, or a blank or the end of the line comes next. -/
def endsWord : List Char → Bool
  | [] => true
  | c :: _ => isBlank c || isBreak c

/-- Characters of anchors, of the names of directives and of the handles of tags. -/
def isNameChar (c : Char) : Bool :=
  c.isAlphanum || c = '_' || c = '-'

/-! ### Places -/

/-- A place in a text. -/
structure Place where
  /-- What is still to be read. -/
  rest : List Char
  /-- How many lines were ended before it. -/
  line : Nat := 0
  /-- How many characters stand before it in its line. -/
  column : Nat := 0
  /-- How many characters stand before it in the text. -/
  index : Nat := 0
  /-- How many characters the whole text has. -/
  size : Nat

namespace Place

/-- The start of a text. -/
def start (cs : List Char) : Place where
  rest := cs
  size := cs.length

/-- How many characters are still to be read. -/
def left (p : Place) : Nat :=
  p.size - p.index

/-- The place so many characters further in the same line. -/
def advance (p : Place) (n : Nat) : Place :=
  { p with rest := p.rest.drop n, column := p.column + n, index := p.index + n }

/-- The characters from a place on that a class accepts, and the place after them; the class accepts
none that ends a line. -/
def span (ok : Char → Bool) (p : Place) : List Char × Place :=
  let cs := p.rest.takeWhile ok
  (cs, p.advance cs.length)

/-- The place after blanks within the line. -/
def skipBlanks (p : Place) : Place :=
  (p.span isBlank).2

/-- The place at the end of the line. -/
def skipLine (p : Place) : Place :=
  (p.span fun c => !isBreak c).2

/-- The place after blanks and a comment, which go to the end of the line or not. -/
def skipComment (p : Place) : Place :=
  let p := p.skipBlanks
  match p.rest with
  | '#' :: _ => p.skipLine
  | _ => p

/-- The place at the start of the next line, which has so many characters less to be read. -/
def nextLine (p : Place) (n : Nat) : Place :=
  { p with rest := p.rest.drop n, line := p.line + 1, column := 0, index := p.index + n }

/-- The character that the end of a line stands for, and the place at the start of the next line. -/
def lineBreak? (p : Place) : Option (Char × Place) :=
  match p.rest with
  | '\r' :: '\n' :: _ => some ('\n', p.nextLine 2)
  | '\u2028' :: _ => some ('\u2028', p.nextLine 1)
  | '\u2029' :: _ => some ('\u2029', p.nextLine 1)
  | c :: _ => if isBreak c then some ('\n', p.nextLine 1) else none
  | [] => none

/-- Whether a line starts here that sets documents apart: three dashes or three dots. -/
def atMarker (p : Place) : Bool :=
  p.column = 0 &&
    match p.rest with
    | '-' :: '-' :: '-' :: rest | '.' :: '.' :: '.' :: rest => endsWord rest
    | _ => false

end Place

/-! ### Gaps -/

/-- What stands between two words of a scalar. -/
structure Gap where
  /-- Blanks before the end of a line. -/
  blanks : List Char := []
  /-- Whether a line ends in it. -/
  broken : Bool := false
  /-- What the first end of a line stands for; nothing if that one is escaped. -/
  first : Option Char := none
  /-- What the other ends of lines stand for. -/
  more : List Char := []

/-- The text that a gap stands for: a single end of a line is read as a space, and of several the
first is dropped. -/
def Gap.text (g : Gap) : List Char :=
  if g.broken then
    match g.first with
    | some '\n' => if g.more.isEmpty then [' '] else g.more
    | some c => c :: g.more
    | none => g.more
  else g.blanks

/-- A gap that goes on from a place, and the place after it. Within it no tab may stand before the
column given, once a line has ended. -/
def Place.gapFrom? (margin : Int) : Nat → Gap → Place → Option (Gap × Place)
  | 0, g, p => some (g, p)
  | fuel + 1, g, p =>
    match p.lineBreak? with
    | some (c, next) =>
      if g.broken then gapFrom? margin fuel { g with more := g.more ++ [c] } next
      else gapFrom? margin fuel { g with blanks := [], broken := true, first := some c } next
    | none =>
      match p.rest with
      | c :: _ =>
        if isBlank c then
          if g.broken then
            if c = '\t' ∧ (p.column : Int) < margin then none
            else gapFrom? margin fuel g (p.advance 1)
          else gapFrom? margin fuel { g with blanks := g.blanks ++ [c] } (p.advance 1)
        else some (g, p)
      | [] => some (g, p)

/-- The gap that starts at a place, after what already belongs to it. -/
def Place.gap? (margin : Int) (g : Gap) (p : Place) : Option (Gap × Place) :=
  gapFrom? margin p.left g p

end Foreman.Yaml
