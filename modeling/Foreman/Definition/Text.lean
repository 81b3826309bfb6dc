import Foreman.Definition.Manifest
import Foreman.Definition.Playbook
import Foreman.Failure
import Foreman.Json.Reader
import Foreman.Yaml
/-!
# Texts of manifests and playbooks

Manifests and playbooks are written either as interchange texts or as texts of nested blocks. The
entries of a manifest are first read as values of their own, without regard to what they are to
become; a text in which that fails is refused as a whole, while an entry that does not fit its
record is only set aside.

## Main definitions

* `Foreman.Format`: the two formats.
* `Foreman.Manifest.ofText`, `Foreman.Playbook.ofText`: the manifest or the playbook that a text
  spells.
-/

namespace Foreman

/-- The formats of texts. -/
inductive Format where
  /-- Interchange texts. -/
  | json
  /-- Texts of nested blocks. -/
  | yaml
  deriving DecidableEq, Repr

namespace Format

/-- The document that a text spells. -/
def document? : Format → String → Option Document
  | json, s => Json.readDocument? s
  | yaml, s => Yaml.readDocument? s

/-- The failure of a text that does not say what it should. -/
def failure : Format → Failure
  | json => .unreadableJson
  | yaml => .unreadableYaml

/-- A part of a document, read as a value of its own. -/
def entry : Format → Document → Except Misfit Document
  | json, d => d.asOpen.map Json.document
  | yaml, d =>
    match Yaml.entry d with
    | some d => .ok d
    | none => .error .unreadable

/-- What a text spells, if a reader accepts its document. -/
def read (format : Format) (reader : Document → Except Misfit α) (s : String) :
    Except Failure α :=
  match format.document? s with
  | none => .error format.failure
  | some d =>
    match reader d with
    | .ok a => .ok a
    | .error _ => .error format.failure

end Format

/-- The manifest that a text spells. Why an entry does not fit is told only of interchange texts. -/
def Manifest.ofText (format : Format) (s : String) : Except Failure Manifest :=
  (format.read (Manifest.tolerant format.entry) s).map fun m =>
    match format with
    | .json => m
    | .yaml => m.terse

/-- The playbook that a text spells. -/
def Playbook.ofText (format : Format) (s : String) : Except Failure Playbook :=
  format.read Playbook.read s

theorem Playbook.ofText_eq_error {format : Format} {s : String} (h : format.document? s = none) :
    ofText format s = .error format.failure := by
  rw [ofText, Format.read, h]

end Foreman
