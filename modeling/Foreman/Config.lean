import Foreman.Policy
/-!
# Configurations

A configuration holds what is settled before the first step runs: the policy, and whether the
catalogue remembers what it has looked up.

## Main definitions

* `Foreman.Config`: a policy and the choice whether look-ups are remembered.
* `Foreman.Config.read`, `Foreman.Config.json`: a configuration from a document, and as an open
  value.
-/

namespace Foreman

/-- What is settled before the first step runs. -/
structure Config where
  /-- The policy. -/
  policy : Policy := .standard
  /-- Whether the catalogue remembers what it has looked up. -/
  caching : Bool := false
  deriving DecidableEq, Repr, Inhabited

namespace Config

/-- What the record of the choices for the catalogue is called, and its fields. -/
def marketShape : Shape :=
  ⟨"struct MarketplaceConfig", ["cache_resolutions"]⟩

/-- The choices for the catalogue: whether it remembers what it has looked up. -/
def readCaching (d : Document) : Except Misfit Bool := do
  let form ← Form.of? marketShape false d
  form.close (id <$> form.may "cache_resolutions" false Document.asFlag)

/-- The choices for the catalogue as an open value. -/
def cachingJson (caching : Bool) : Json :=
  .record [("cache_resolutions", some (.bool caching))]

/-- What the record of a configuration is called, and its fields. -/
def shape : Shape :=
  ⟨"struct RuntimeConfig", ["execution", "marketplace"]⟩

/-- A configuration; what is not said is as in the standard one. -/
def read (d : Document) : Except Misfit Config := do
  let form ← Form.of? shape false d
  form.close <|
    mk <$> form.may "execution" .standard Policy.read
      <*> form.may "marketplace" false readCaching

/-- A configuration as an open value. -/
def json (c : Config) : Json :=
  .record [("execution", some c.policy.json), ("marketplace", some (cachingJson c.caching))]

end Config

end Foreman
