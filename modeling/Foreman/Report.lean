import Foreman.Policy
import Foreman.Store.Allotment
/-!
# Reports

The figures that a running workshop gives of itself: what the catalogue holds and how often its
memory answered, what a manifest brought, and everything together.

## Main definitions

* `Foreman.MarketInfo`: the catalogue in figures.
* `Foreman.ManifestReport`: what a manifest brought.
* `Foreman.Stats`: everything together.
-/

namespace Foreman

/-- The catalogue in figures. -/
structure MarketInfo where
  /-- The entries. -/
  entries : Nat
  /-- Those that are responsibilities. -/
  responsibilities : Nat
  /-- The kinds of resources that offer some capability. -/
  providers : Nat
  /-- Whether look-ups are remembered. -/
  caching : Bool
  /-- The look-ups answered from memory. -/
  hits : Nat
  /-- The look-ups that were not. -/
  misses : Nat
  deriving DecidableEq, Repr, Inhabited

namespace MarketInfo

/-- What the record of the figures is called, and its fields. -/
def shape : Shape :=
  ⟨"struct MarketplaceInfo",
    ["total_capabilities", "total_responsibilities", "total_providers", "cache_enabled",
      "cache_hits", "cache_misses"]⟩

/-- The figures. -/
def read (d : Document) : Except Misfit MarketInfo := do
  let form ← Form.of? shape false d
  form.close <|
    mk <$> form.need "total_capabilities" Document.asSize
      <*> form.need "total_responsibilities" Document.asSize
      <*> form.need "total_providers" Document.asSize
      <*> form.need "cache_enabled" Document.asFlag
      <*> form.need "cache_hits" Document.asCount64
      <*> form.need "cache_misses" Document.asCount64

/-- The figures as an open value. -/
def json (i : MarketInfo) : Json :=
  .record
    [("total_capabilities", some (.int i.entries)),
      ("total_responsibilities", some (.int i.responsibilities)),
      ("total_providers", some (.int i.providers)), ("cache_enabled", some (.bool i.caching)),
      ("cache_hits", some (.int i.hits)), ("cache_misses", some (.int i.misses))]

end MarketInfo

/-- What a manifest brought. -/
structure ManifestReport where
  /-- The capabilities registered. -/
  capabilities : Nat := 0
  /-- The responsibilities registered. -/
  responsibilities : Nat := 0
  /-- The kinds of resources registered. -/
  resources : Nat := 0
  /-- What was left out, and why. -/
  skipped : List String := []
  deriving DecidableEq, Repr, Inhabited

namespace ManifestReport

/-- What the record of the report is called, and its fields. -/
def shape : Shape :=
  ⟨"struct InitializeReport", ["capabilities", "responsibilities", "resources", "skipped"]⟩

/-- The report. -/
def read (d : Document) : Except Misfit ManifestReport := do
  let form ← Form.of? shape false d
  form.close <|
    mk <$> form.need "capabilities" Document.asSize
      <*> form.need "responsibilities" Document.asSize
      <*> form.need "resources" Document.asSize
      <*> form.need "skipped" (Document.asList Document.asText)

/-- The report as an open value. -/
def json (r : ManifestReport) : Json :=
  .record
    [("capabilities", some (.int r.capabilities)),
      ("responsibilities", some (.int r.responsibilities)),
      ("resources", some (.int r.resources)), ("skipped", some (.texts r.skipped))]

end ManifestReport

/-- Runs, instances, catalogue and policy together. -/
structure Stats where
  /-- The runs under way. -/
  active : Nat
  /-- The runs that are done. -/
  completed : Nat
  /-- The runs that have failed. -/
  failed : Nat
  /-- The instances in figures. -/
  utilization : Utilization
  /-- The catalogue in figures. -/
  market : MarketInfo
  /-- The policy. -/
  policy : Policy
  deriving Inhabited

namespace Stats

/-- What the record is called, and its fields. -/
def shape : Shape :=
  ⟨"struct RuntimeStats",
    ["active_executions", "completed_executions", "failed_executions", "resource_utilization",
      "capability_marketplace", "execution_policies"]⟩

/-- The whole of the figures. -/
def read (d : Document) : Except Misfit Stats := do
  let form ← Form.of? shape false d
  form.close <|
    mk <$> form.need "active_executions" Document.asSize
      <*> form.need "completed_executions" Document.asSize
      <*> form.need "failed_executions" Document.asSize
      <*> form.need "resource_utilization" Utilization.read
      <*> form.need "capability_marketplace" MarketInfo.read
      <*> form.need "execution_policies" Policy.read

/-- The whole of the figures as an open value. -/
def json (s : Stats) : Json :=
  .record
    [("active_executions", some (.int s.active)), ("completed_executions", some (.int s.completed)),
      ("failed_executions", some (.int s.failed)),
      ("resource_utilization", some s.utilization.json),
      ("capability_marketplace", some s.market.json),
      ("execution_policies", some s.policy.json)]

end Stats

end Foreman
