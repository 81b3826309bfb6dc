import Foreman.Yaml.Token
/-!
# Nodes of nested blocks

A node is a scalar, a list or a record, each of which may carry a tag and an anchor, or an alias:
the name of a node that carries an anchor. Lists and records are written in lines of their own or
between brackets; values that are left out are empty scalars.

Anchors are numbered by how many names are known when they are met. A name may be given again, and
then two anchors may get the same number; an alias stands for the last node with its number.

## Main definitions

* `Foreman.Yaml.Node`: the nodes.
* `Foreman.Yaml.Node.ofTokens?`: the node that the tokens of a text make up, if there is one.
* `Foreman.Yaml.Node.anchored`: the nodes that carry anchors, with their numbers.
-/

namespace Foreman.Yaml

/-- What a node may carry. -/
structure Label where
  /-- A tag. -/
  tag : Option String := none
  /-- The number of an anchor. -/
  anchor : Option Nat := none
  deriving DecidableEq, Repr

/-- What a text of nested blocks is made of. -/
inductive Node where
  /-- The node with a number. -/
  | alias (number : Nat)
  /-- A scalar. -/
  | scalar (label : Label) (quoted : Bool) (text : String)
  /-- A list. -/
  | list (label : Label) (items : List Node)
  /-- Keys and values. -/
  | record (label : Label) (members : List (Node × Node))
  deriving Inhabited

namespace Node

/-- A value that is left out. -/
def empty : Node :=
  .scalar {} false ""

/-! ### What is still to be read -/

/-- The tokens that are still to be read, and the names known. -/
structure Pending where
  /-- The tokens. -/
  tokens : List Token
  /-- The names of anchors, with their numbers. -/
  names : List (String × Nat) := []

/-- The next token is taken. -/
def Pending.skip (s : Pending) : Pending :=
  { s with tokens := s.tokens.drop 1 }

/-- A name is given to a node, for which it is numbered. -/
def Pending.name (s : Pending) (name : String) : Nat × Pending :=
  (s.names.length,
    { s with names := (name, s.names.length) :: s.names.filter fun known => known.1 ≠ name })

/-! ### Labels -/

/-- The beginnings of tags that have handles without being declared. -/
def knownShorthands : List (String × String) :=
  [("!", "!"), ("!!", "tag:yaml.org,2002:")]

/-- The tag with a handle; an empty handle stands for nothing. -/
def fullTag? (shorthands : List (String × String)) (handle rest : String) : Option String :=
  if handle.isEmpty then some rest
  else (shorthands.lookup handle).map (· ++ rest)

/-- A label before the names are numbered. -/
structure Mark where
  /-- A tag. -/
  tag : Option String := none
  /-- The name of an anchor. -/
  anchor : Option String := none

/-- The tag and the anchor in front of a node, in either order, and the tokens after them. -/
def mark? (shorthands : List (String × String)) : List Token → Option (Mark × List Token)
  | .anchor a :: .tag h r :: rest | .tag h r :: .anchor a :: rest =>
    (fullTag? shorthands h r).map fun t => (⟨some t, some a⟩, rest)
  | .anchor a :: rest => some (⟨none, some a⟩, rest)
  | .tag h r :: rest => (fullTag? shorthands h r).map fun t => (⟨some t, none⟩, rest)
  | rest => some ({}, rest)

/-- The label of a node, whose anchor is numbered now. -/
def Pending.label (s : Pending) (mark : Mark) : Label × Pending :=
  match mark.anchor with
  | none => (⟨mark.tag, none⟩, s)
  | some a =>
    let (n, s) := s.name a
    (⟨mark.tag, some n⟩, s)

/-- The tag of a scalar: an exclamation mark alone says nothing about one. -/
def Mark.ofScalar (mark : Mark) : Mark :=
  { mark with tag := mark.tag.filter (· ≠ "!") }

/-! ### Nodes -/

mutual

/-- A node. Lines and members of lines of their own may be read where `block` holds; where `loose`
holds the items of a list need not be indented further than what surrounds it. -/
def node? (shorthands : List (String × String)) :
    Nat → (block loose : Bool) → Pending → Option (Node × Pending)
  | 0, _, _, _ => none
  | fuel + 1, block, loose, s =>
    match s.tokens with
    | .alias name :: rest =>
      (s.names.lookup name).map fun n => (.alias n, { s with tokens := rest })
    | tokens => do
      let (mark, tokens) ← mark? shorthands tokens
      match tokens with
      | .scalar quoted text :: rest =>
        let (label, s) := { s with tokens := rest }.label mark.ofScalar
        return (.scalar label quoted text, s)
      | .openBracket :: rest =>
        let (label, s) := { s with tokens := rest }.label mark
        let (items, s) ← items? shorthands fuel true s
        return (.list label items, s)
      | .openBrace :: rest =>
        let (label, s) := { s with tokens := rest }.label mark
        let (members, s) ← pairs? shorthands fuel true s
        return (.record label members, s)
      | tokens =>
        let (label, s) := { s with tokens := tokens }.label mark
        match tokens, block, loose with
        | .item :: _, _, true =>
          let (items, s) ← looseLines? shorthands fuel s
          return (.list label items, s)
        | .openLines :: _, true, _ =>
          let (items, s) ← lines? shorthands fuel s.skip
          return (.list label items, s)
        | .openMembers :: _, true, _ =>
          let (members, s) ← members? shorthands fuel s.skip
          return (.record label members, s)
        | _, _, _ =>
          if mark.tag.isSome || mark.anchor.isSome then return (.scalar label false "", s)
          else none

/-- The items of a list in lines of their own, up to its end. -/
def lines? (shorthands : List (String × String)) :
    Nat → Pending → Option (List Node × Pending)
  | 0, _ => none
  | fuel + 1, s =>
    match s.tokens with
    | .closeBlock :: _ => some ([], s.skip)
    | .item :: rest => do
      let (item, s) ←
        match rest with
        | .item :: _ | .closeBlock :: _ => some (empty, s.skip)
        | _ => node? shorthands fuel true false s.skip
      let (items, s) ← lines? shorthands fuel s
      return (item :: items, s)
    | _ => none

/-- The items of a list whose lines are not indented further than what surrounds it. -/
def looseLines? (shorthands : List (String × String)) :
    Nat → Pending → Option (List Node × Pending)
  | 0, _ => none
  | fuel + 1, s =>
    match s.tokens with
    | .item :: rest => do
      let (item, s) ←
        match rest with
        | .item :: _ | .key :: _ | .value :: _ | .closeBlock :: _ => some (empty, s.skip)
        | _ => node? shorthands fuel true false s.skip
      let (items, s) ← looseLines? shorthands fuel s
      return (item :: items, s)
    | _ => some ([], s)

/-- A key or a value in lines of its own, which may be left out. -/
def part? (shorthands : List (String × String)) :
    Nat → Pending → Option (Node × Pending)
  | 0, _ => none
  | fuel + 1, s =>
    match s.tokens with
    | .key :: _ | .value :: _ | .closeBlock :: _ => some (empty, s)
    | _ => node? shorthands fuel true true s

/-- The members of a record in lines of their own, up to its end. -/
def members? (shorthands : List (String × String)) :
    Nat → Pending → Option (List (Node × Node) × Pending)
  | 0, _ => none
  | fuel + 1, s =>
    match s.tokens with
    | .closeBlock :: _ => some ([], s.skip)
    | .key :: _ => do
      let (key, s) ← part? shorthands fuel s.skip
      let (value, s) ←
        match s.tokens with
        | .value :: _ => part? shorthands fuel s.skip
        | _ => some (empty, s)
      let (members, s) ← members? shorthands fuel s
      return ((key, value) :: members, s)
    | _ => none

/-- The items of a list between brackets, up to the closing one. A comma stands before each but the
first, and may stand after the last. -/
def items? (shorthands : List (String × String)) :
    Nat → (first : Bool) → Pending → Option (List Node × Pending)
  | 0, _, _ => none
  | fuel + 1, first, s =>
    match s.tokens, first with
    | .closeBracket :: _, _ => some ([], s.skip)
    | .comma :: .closeBracket :: _, false => some ([], s.skip.skip)
    | .comma :: _, false => do
      let (item, s) ← item? shorthands fuel s.skip
      let (items, s) ← items? shorthands fuel false s
      return (item :: items, s)
    | _, true => do
      let (item, s) ← item? shorthands fuel s
      let (items, s) ← items? shorthands fuel false s
      return (item :: items, s)
    | _, false => none

/-- One item of a list between brackets. A key in front of it makes it a record with one member; if
the key is left out, the token after its sign is passed over. -/
def item? (shorthands : List (String × String)) :
    Nat → Pending → Option (Node × Pending)
  | 0, _ => none
  | fuel + 1, s =>
    match s.tokens with
    | .key :: rest => do
      let (key, s) ←
        match rest with
        | .value :: _ | .comma :: _ | .closeBracket :: _ => some (empty, s.skip.skip)
        | _ => node? shorthands fuel false false s.skip
      let (value, s) ←
        match s.tokens with
        | .value :: .comma :: _ | .value :: .closeBracket :: _ => some (empty, s.skip)
        | .value :: _ => node? shorthands fuel false false s.skip
        | _ => some (empty, s)
      return (.record {} [(key, value)], s)
    | _ => node? shorthands fuel false false s

/-- The members of a record between braces, up to the closing one. A comma stands before each but
the first, and may stand after the last. -/
def pairs? (shorthands : List (String × String)) :
    Nat → (first : Bool) → Pending → Option (List (Node × Node) × Pending)
  | 0, _, _ => none
  | fuel + 1, first, s =>
    match s.tokens, first with
    | .closeBrace :: _, _ => some ([], s.skip)
    | .comma :: .closeBrace :: _, false => some ([], s.skip.skip)
    | .comma :: _, false => do
      let (pair, s) ← pair? shorthands fuel s.skip
      let (pairs, s) ← pairs? shorthands fuel false s
      return (pair :: pairs, s)
    | _, true => do
      let (pair, s) ← pair? shorthands fuel s
      let (pairs, s) ← pairs? shorthands fuel false s
      return (pair :: pairs, s)
    | _, false => none

/-- One member of a record between braces. Without the sign for a key it has no value. -/
def pair? (shorthands : List (String × String)) :
    Nat → Pending → Option ((Node × Node) × Pending)
  | 0, _ => none
  | fuel + 1, s =>
    match s.tokens with
    | .key :: rest => do
      let (key, s) ←
        match rest with
        | .value :: _ | .comma :: _ | .closeBrace :: _ => some (empty, s.skip)
        | _ => node? shorthands fuel false false s.skip
      let (value, s) ←
        match s.tokens with
        | .value :: .comma :: _ | .value :: .closeBrace :: _ => some (empty, s.skip)
        | .value :: _ => node? shorthands fuel false false s.skip
        | _ => some (empty, s)
      return ((key, value), s)
    | _ => do
      let (key, s) ← node? shorthands fuel false false s
      return ((key, empty), s)

end

/-! ### Documents -/

/-- The directives that a text starts with: the beginnings of tags that they declare, and the tokens
after them. The version is given once at most, and is 1.1 or 1.2. -/
def directives? : (versioned : Bool) → List (String × String) → List Token →
    Option (List (String × String) × List Token)
  | versioned, known, .version major minor :: rest =>
    if versioned || major ≠ 1 || (minor ≠ 1 && minor ≠ 2) then none
    else directives? true known rest
  | versioned, known, .shorthand handle start :: rest =>
    if (known.lookup handle).isSome then none
    else directives? versioned ((handle, start) :: known) rest
  | _, known, rest => some (known, rest)

/-- The tokens after the signs for the end of a document. -/
def afterEnds : List Token → List Token
  | .documentEnd :: rest => afterEnds rest
  | rest => rest

/-- Whether no node follows the sign for the start of a document. -/
def emptyDocument : List Token → Bool
  | [] | .version _ _ :: _ | .shorthand _ _ :: _ | .documentStart :: _ | .documentEnd :: _ => true
  | _ => false

/-- The node that the tokens of a text make up; nothing, in the inner sense, if there is no token.
No text has a second document. -/
def ofTokens? : List Token → Option (Option Node)
  | [] => some none
  | tokens => do
    let (shorthands, rest) ← directives? false [] tokens
    let fuel := 3 * tokens.length + 8
    let read (tokens : List Token) :=
      node? (shorthands ++ knownShorthands) fuel true false { tokens := tokens }
    let (node, s) ←
      match rest with
      | .documentStart :: rest =>
        if emptyDocument rest then some (empty, { tokens := rest }) else read rest
      | _ => if rest.length = tokens.length then read rest else none
    if (afterEnds s.tokens).isEmpty then return some node else none

/-! ### Anchors -/

mutual

/-- The nodes that carry anchors, with their numbers, in the order they are written. -/
def anchored : Node → List (Nat × Node)
  | .alias _ => []
  | .scalar label quoted text =>
    (label.anchor.map fun n => (n, Node.scalar label quoted text)).toList
  | .list label items =>
    (label.anchor.map fun n => (n, Node.list label items)).toList ++ anchoredItems items
  | .record label members =>
    (label.anchor.map fun n => (n, Node.record label members)).toList ++ anchoredMembers members

/-- The nodes that carry anchors among the items of a list and within them. -/
def anchoredItems : List Node → List (Nat × Node)
  | [] => []
  | item :: rest => item.anchored ++ anchoredItems rest

/-- The nodes that carry anchors among keys and values and within them. -/
def anchoredMembers : List (Node × Node) → List (Nat × Node)
  | [] => []
  | (key, value) :: rest => key.anchored ++ value.anchored ++ anchoredMembers rest

end

mutual

/-- The weight of a node: one for each scalar and alias, two for each list and record, and the
weight of what is in it. -/
def weight : Node → Nat
  | .alias _ | .scalar _ _ _ => 1
  | .list _ items => 2 + weightItems items
  | .record _ members => 2 + weightMembers members

/-- The weight of the items of a list. -/
def weightItems : List Node → Nat
  | [] => 0
  | item :: rest => item.weight + weightItems rest

/-- The weight of keys and values. -/
def weightMembers : List (Node × Node) → Nat
  | [] => 0
  | (key, value) :: rest => key.weight + value.weight + weightMembers rest

end

end Node

end Foreman.Yaml
