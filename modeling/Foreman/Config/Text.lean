import Foreman.Config
import Foreman.Failure
import Foreman.Library
import Foreman.Toml
import Foreman.Toml.Printer
/-!
# Texts of configurations

A configuration is written as a text of sections. It may stand by itself or in a section of its own
beside others. Written out, it always stands in that section. A configuration under whose policy
every step would fail is refused when it is read, though it can be written.

## Main definitions

* `Foreman.Config.ofText`, `Foreman.Config.ofFile`: the configuration that a text or a file spells.
* `Foreman.Config.text`: the text of a configuration.
-/

namespace Foreman.Config

/-- The section in which a configuration may stand. -/
def sectionName : String := "runtime"

/-- The part of a document that is the configuration: the section named for it, or everything. -/
def part (d : Document) : Document :=
  match d with
  | .record members =>
    match members.find? fun m => m.1.keyText? = some sectionName with
    | some (_, value) => value
    | none => d
  | d => d

/-- A configuration, unless every step would fail under its policy. -/
def checked (c : Config) : Except Failure Config :=
  match c.policy.flaw? with
  | none => .ok c
  | some flaw => .error (.flawedPolicy flaw)

/-- The configuration that a document of sections says. -/
def ofDocument (d : Document) : Except Failure Config :=
  match Config.read (part d) with
  | .ok c => checked c
  | .error _ => .error .unreadableToml

/-- The configuration that a text spells. -/
def ofText (s : String) : Except Failure Config :=
  match Toml.readDocument? s with
  | some d => ofDocument d
  | none => .error .unreadableToml

/-- The configuration in a file. -/
def ofFile (files : Folder) (name : String) : Except Failure Config :=
  match files.text? name with
  | .ok (some s) => ofText s
  | .ok none => .error .unreadableFile
  | .error failure => .error failure

/-- The strategies of a list, by name. -/
def strategyItem (strategies : List Strategy) : Toml.Item :=
  .texts (strategies.map Strategy.name)

/-- A policy as a table. -/
def policyItem (p : Policy) : Toml.Item :=
  .table
    [("default_chain", strategyItem p.chain), ("allow_human_override", .flag p.humanOverride),
      ("max_retries", .int p.attempts), ("execution_timeout_ms", .int p.timeout),
      ("available_types", strategyItem p.available)]

/-- A configuration as a table. -/
def item (c : Config) : Toml.Item :=
  .table
    [("execution", policyItem c.policy),
      ("marketplace", .table [("cache_resolutions", .flag c.caching)])]

/-- The text of a configuration; a time of more than 63 bits cannot be written. -/
def text (c : Config) : Except Failure String :=
  match Toml.write? (.table [(sectionName, c.item)]) with
  | some s => .ok s
  | none => .error .unwritableTime

end Foreman.Config
