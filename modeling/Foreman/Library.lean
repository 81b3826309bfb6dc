import Foreman.Definition.Text
/-!
# Libraries of playbooks

A library hands out playbooks by name. It is either a shelf, on which playbooks are put, or a folder
of files. In a folder a name stands for the first of three files that is there; whether that file
can be read decides the matter. Names that could lead out of the folder stand for nothing.

## Main definitions

* `Foreman.FileContent`, `Foreman.Folder`: the files of a folder.
* `Foreman.Library`: a shelf or a folder.
* `Foreman.Library.load`: the playbook of a name.
* `Foreman.Library.loadNoting`: in a folder, and the files that are asked for.
-/

namespace Foreman

/-- What a file holds. -/
inductive FileContent where
  /-- A text. -/
  | text (s : String)
  /-- Octets that are no text. -/
  | garbled
  /-- Other files: it is a folder. -/
  | folder
  deriving DecidableEq, Repr, Inhabited

/-- What a file of some octets holds. -/
def FileContent.ofOctets (octets : List UInt8) : FileContent :=
  match String.fromUTF8? ⟨octets.toArray⟩ with
  | some s => .text s
  | none => .garbled

/-- The files of a folder, by name. -/
abbrev Folder := Table FileContent

namespace Folder

/-- The octets that a file name may have. -/
def longestName : Nat := 255

/-- The text of a file; nothing if there is no such file, a failure if it cannot be read. -/
def text? (folder : Folder) (name : String) : Except Failure (Option String) :=
  if name.utf8ByteSize > longestName ∨ name.toList.contains '\x00' then .error .unreadableFile
  else
    match folder.get? name with
    | none => .ok none
    | some (.text s) => .ok (some s)
    | some .garbled | some .folder => .error .unreadableFile

end Folder

/-- A source of playbooks. -/
inductive Library where
  /-- Playbooks that were put there, by name. -/
  | shelf (playbooks : Table Playbook)
  /-- Files. -/
  | folder (files : Folder)
  deriving Inhabited

namespace Library

/-- A shelf with some playbooks, of which later ones replace earlier ones of the same name. -/
def ofPlaybooks (playbooks : List Playbook) : Library :=
  .shelf (.ofList (playbooks.map fun p => (p.name, p)))

/-- A playbook is put on the shelf. -/
def insert (l : Library) (p : Playbook) : Library :=
  match l with
  | shelf playbooks => .shelf (playbooks.insert p.name p)
  | folder files => .folder files

/-- The names of the playbooks on the shelf, in order. -/
def names? : Library → Option (List String)
  | shelf playbooks => some playbooks.keys
  | folder _ => none

/-- Whether a name could lead out of a folder, or to nothing in it. -/
def isBadName (name : String) : Bool :=
  match name.toList with
  | [] => true
  | c :: rest => c = '.' || (c :: rest).contains '/' || (c :: rest).contains '\\'

/-- The endings of the files that a name may stand for, in order, and their formats. -/
def endings : List (String × Format) :=
  [(".yaml", .yaml), (".yml", .yaml), (".json", .json)]

/-- A playbook under the name it was asked for by, if it has none of its own. -/
def named (name : String) (p : Playbook) : Playbook :=
  if p.name.isEmpty then { p with name } else p

/-- The playbook in the first of some files that is there, and the files that are asked for, in
order. -/
def loadFrom (files : Folder) (name : String) :
    List (String × Format) → Except Failure Playbook × List String
  | [] => (.error (.noPlaybook name), [])
  | (ending, format) :: rest =>
    match files.text? (name ++ ending) with
    | .error failure => (.error failure, [name ++ ending])
    | .ok none =>
      let (result, asked) := loadFrom files name rest
      (result, (name ++ ending) :: asked)
    | .ok (some s) => ((Playbook.ofText format s).map (named name), [name ++ ending])

/-- The playbook of a name in a folder, and the files that are asked for, in order. -/
def loadNoting (files : Folder) (name : String) : Except Failure Playbook × List String :=
  if isBadName name then (.error (.badName name), []) else loadFrom files name endings

/-- The playbook of a name. -/
def load (l : Library) (name : String) : Except Failure Playbook :=
  match l with
  | shelf playbooks =>
    match playbooks.get? name with
    | some p => .ok p
    | none => .error (.noPlaybook name)
  | folder files => (loadNoting files name).1

end Library

end Foreman
