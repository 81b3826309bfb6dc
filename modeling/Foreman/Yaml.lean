import Foreman.Document.Reading
import Foreman.Yaml.Layout
import Foreman.Yaml.Node
/-!
# Texts of nested blocks

The document that a text of nested blocks spells. Aliases are replaced by what they stand for; if
that is done too often, or if lists and records are nested too deeply, the document has a fault in
that place, which matters only to someone who reads it.

Parts of a document may be set apart as values of their own. Then their scalars have their types,
keys may be anything but must differ, and nothing may be unreadable.

## Main definitions

* `Foreman.Yaml.readDocument?`: the document that a text spells.
* `Foreman.Yaml.entry`: a part of a document as a value of its own.
-/

namespace Foreman.Yaml

/-- How many lists and records may stand inside each other. -/
def depthLimit : Nat := 128

/-- How many aliases are followed for each part of a text. -/
def aliasLimit : Nat := 100

/-- A document under the tag of its node, if that has one. -/
def Label.wrap (label : Label) (d : Document) : Document :=
  match label.tag with
  | some t => .tagged t d
  | none => d

namespace Node

/-- The document of a scalar. -/
def scalarDocument (label : Label) (quoted : Bool) (text : String) : Document :=
  label.wrap (if quoted then .text text else .plain text)

/-- The document of a node that is no alias; `read` gives those of its parts. -/
def documentOf (read : Node → StateM Nat Document) : Node → StateM Nat Document
  | .alias _ => return .fault
  | .scalar label quoted text => return scalarDocument label quoted text
  | .list label items => do
    return label.wrap (.sequence (← items.mapM read))
  | .record label members => do
    let members ← members.mapM fun (k, v) => do return (← read k, ← read v)
    return label.wrap (.record members)

/-- A node, or the node that an alias stands for; counts down how many aliases may still be
followed. -/
def followed (targets : List (Nat × Node)) : Node → StateM Nat (Option Node)
  | .alias n => fun
    | 0 => (none, 0)
    | left + 1 => (targets.lookup n, left)
  | node => return node

/-- The document of a node inside which so many lists and records may still be nested. -/
def document (targets : List (Nat × Node)) : Nat → Node → StateM Nat Document
  | 0, node => do
    match ← followed targets node with
    | some (.scalar label quoted text) => return scalarDocument label quoted text
    | _ => return .fault
  | depth + 1, node => do
    match ← followed targets node with
    | some node => documentOf (document targets depth) node
    | none => return .fault

end Node

/-- The document that a text spells; a text without any is empty. -/
def readDocument? (s : String) : Option Document := do
  let tokens ← tokens? s
  match ← Node.ofTokens? tokens with
  | none => return .blank
  | some node =>
    let targets := node.anchored.reverse
    return (Node.document targets depthLimit node (aliasLimit * node.weight)).1

/-! ### Parts as values of their own -/

mutual

/-- Whether two documents are equal as keys: records may differ in the order of their members. -/
def same : Document → Document → Bool
  | .blank, .blank => true
  | .bool a, .bool b => a = b
  | .int a, .int b => a = b
  | .float a, .float b => a == b || (a.isNaN && b.isNaN)
  | .text a, .text b => a = b
  | .sequence as, .sequence bs => sameItems as bs
  | .record as, .record bs => as.length = bs.length && sameMembers as bs
  | .tagged s a, .tagged t b => s = t && same a b
  | _, _ => false

/-- Whether two lists are equal item by item. -/
def sameItems : List Document → List Document → Bool
  | [], [] => true
  | a :: as, b :: bs => same a b && sameItems as bs
  | _, _ => false

/-- Whether all members of one record are members of another. -/
def sameMembers : List (Document × Document) → List (Document × Document) → Bool
  | [], _ => true
  | (k, v) :: rest, bs => bs.any (fun m => same k m.1 && same v m.2) && sameMembers rest bs

end

/-- Whether no two keys are equal. -/
def keysDiffer : List (Document × Document) → Bool
  | [] => true
  | (k, _) :: rest => !(rest.any fun m => same k m.1) && keysDiffer rest

/-- A scalar whose type is settled, as a value of its own. -/
def scalarEntry : Document → Option Document
  | .null => some .blank
  | .bool b => some (.bool b)
  | .int n => some (.int n)
  | .float x => some (.float x)
  | .text s => some (.text s)
  | _ => none

mutual

/-- A part of a document as a value of its own: scalars have their types, null is an empty value,
and tags that name alternatives are kept. -/
def entry : Document → Option Document
  | .sequence items => (entryItems items).map .sequence
  | .record members =>
    (entryMembers members).bind fun ms => if keysDiffer ms then some (.record ms) else none
  | .blank => some .blank
  | .tagged tag d =>
    if Plain.isLocalTag tag then
      if tag.length = 1 then none else (entry d).map (.tagged tag)
    else
      match d with
      | .sequence items => (entryItems items).map .sequence
      | .record members =>
        (entryMembers members).bind fun ms => if keysDiffer ms then some (.record ms) else none
      | d => scalarEntry (Document.tagged tag d).settled
  | d => scalarEntry d.settled

/-- The items of a list as values of their own. -/
def entryItems : List Document → Option (List Document)
  | [] => some []
  | d :: rest => (entry d).bind fun d => (entryItems rest).map (d :: ·)

/-- Keys and values as values of their own. -/
def entryMembers : List (Document × Document) → Option (List (Document × Document))
  | [] => some []
  | (k, v) :: rest =>
    (entry k).bind fun k => (entry v).bind fun v => (entryMembers rest).map ((k, v) :: ·)

end

end Foreman.Yaml
