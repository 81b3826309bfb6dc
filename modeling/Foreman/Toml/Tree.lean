import Foreman.Document
/-!
# Trees of sections

The values of a sectioned text form a tree. A table in it comes about in one of three ways: a
heading names it, a heading names a table inside it, or a dotted key leads through it. Which way
decides what may still be added to it: a heading may take over a table that was only passed through;
a dotted key may add to a table that dotted keys have made; nothing else is ever added to, and no
value is ever replaced. A heading in double brackets adds one more table to a list of tables; the
last table of the list is the one that later headings and keys refer to.

## Main definitions

* `Foreman.Toml.Node`, `Foreman.Toml.Members`: the tree.
* `Foreman.Toml.addKey?`: a value is put under a dotted key.
* `Foreman.Toml.addSection?`: a heading with the keys below it.
* `Foreman.Toml.Members.document`: the tree as a document.
-/

namespace Foreman.Toml

/-- How a table has come about. -/
inductive Origin where
  /-- A heading names it. -/
  | heading
  /-- A heading names a table inside it. -/
  | passing
  /-- A dotted key leads through it. -/
  | dotted
  deriving DecidableEq, Repr

/-- A part of the tree. -/
inductive Node where
  /-- A value, to which nothing can be added. -/
  | value (d : Document)
  /-- A table. -/
  | table (origin : Origin) (members : List (String × Node))
  /-- A list of tables, each under a heading of its own. -/
  | tables (items : List (List (String × Node)))
  deriving Inhabited

/-- The members of a table, in the order in which they came. -/
abbrev Members := List (String × Node)

/-- A member is put in place of the one of its key, or after all others. -/
def put (key : String) (n : Node) : Members → Members
  | [] => [(key, n)]
  | (k, m) :: rest => if k = key then (key, n) :: rest else (k, m) :: put key n rest

/-- A change of the table at the end of a path. Tables that are missing on the path are made. A path
of a dotted key does not lead through a table that a heading names. -/
def descend? (viaKey : Bool) (f : Origin → Members → Option Members) :
    List String → Origin → Members → Option Members
  | [], origin, members => f origin members
  | key :: path, _, members =>
    match members.lookup key with
    | none => do
      let origin : Origin := if viaKey then .dotted else .passing
      let inner ← descend? viaKey f path origin []
      return put key (.table origin inner) members
    | some (.value _) => none
    | some (.table origin inner) =>
      if viaKey ∧ origin = .heading then none
      else do
        let inner ← descend? viaKey f path origin inner
        return put key (.table origin inner) members
    | some (.tables items) =>
      match items.getLast? with
      | none => none
      | some last => do
        let last ← descend? viaKey f path .heading last
        return put key (.tables (items.dropLast ++ [last])) members

/-- A value is put under a key at the end of a path. A path leads to a table that dotted keys have
made, and only a path does. -/
def addKey? (path : List String) (key : String) (d : Document) (members : Members) :
    Option Members :=
  descend? true
    (fun origin inner =>
      if origin = .dotted ↔ path = [] then none
      else if (inner.lookup key).isSome then none
      else some (put key (.value d) inner))
    path .heading members

/-- A key with the path to it, and its value. -/
structure Assignment where
  /-- The path. -/
  path : List String
  /-- The key. -/
  key : String
  /-- The value. -/
  value : Document

/-- Some keys are added one after another. -/
def addKeys? (members : Members) (keys : List Assignment) : Option Members :=
  keys.foldlM (fun ms a => addKey? a.path a.key a.value ms) members

/-- A table under a heading at the end of a path, with the keys below it; `repeated` if it is one
more of a list of tables. -/
def addSection? (repeated : Bool) (path : List String) (key : String) (keys : List Assignment)
    (members : Members) : Option Members :=
  descend? false
    (fun _ inner =>
      match repeated, inner.lookup key with
      | false, none => (addKeys? [] keys).map fun ms => put key (.table .heading ms) inner
      | false, some (.table .passing ms) =>
        (addKeys? ms keys).map fun ms => put key (.table .heading ms) inner
      | false, some _ => none
      | true, none => (addKeys? [] keys).map fun ms => put key (.tables [ms]) inner
      | true, some (.tables items) =>
        (addKeys? [] keys).map fun ms => put key (.tables (items ++ [ms])) inner
      | true, some _ => none)
    path .heading members

mutual

/-- A part of the tree as a document. -/
def Node.document : Node → Document
  | .value d => d
  | .table _ members => .record (membersDocument members)
  | .tables items => .list (tablesDocument items)

/-- The members of a table as the members of a record. -/
def membersDocument : List (String × Node) → List (Document × Document)
  | [] => []
  | (key, n) :: rest => (.text key, n.document) :: membersDocument rest

/-- The tables of a list as documents. -/
def tablesDocument : List (List (String × Node)) → List Document
  | [] => []
  | members :: rest => .record (membersDocument members) :: tablesDocument rest

end

/-- The tree as a document. -/
def Members.document (members : Members) : Document :=
  .record (membersDocument members)

end Foreman.Toml
