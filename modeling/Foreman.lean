import Foreman.Config.Text
import Foreman.Json.Reader
import Foreman.Proofs.Config.ReadBack
import Foreman.Proofs.Definition.ReadBack
import Foreman.Proofs.Definition.Strictness
import Foreman.Proofs.Engine.Fallback
import Foreman.Proofs.Engine.People
import Foreman.Proofs.Engine.Trail
import Foreman.Proofs.Library.Manifests
import Foreman.Proofs.Market.LastFiled
import Foreman.Proofs.Market.Overlap
import Foreman.Proofs.Matching.Condition
import Foreman.Proofs.Matching.Monotone
import Foreman.Proofs.Run.ReadBack
import Foreman.Proofs.Store.Allotment
import Foreman.Proofs.Store.Contention
import Foreman.Proofs.Store.Inheritance
import Foreman.Proofs.Store.Lineage
import Foreman.Proofs.Store.Release
import Foreman.Proofs.Workshop.Booking
import Foreman.Proofs.Workshop.Closing
import Foreman.Proofs.Workshop.DataFlow
import Foreman.Proofs.Workshop.DescriptionOrder
import Foreman.Proofs.Workshop.Entrance
import Foreman.Proofs.Workshop.GivingBack
import Foreman.Proofs.Workshop.Independence
import Foreman.Proofs.Workshop.Index
import Foreman.Proofs.Workshop.Intake
import Foreman.Proofs.Workshop.Inventory
import Foreman.Proofs.Workshop.NamedSource
import Foreman.Proofs.Workshop.Observation
import Foreman.Proofs.Workshop.PolicyUpdates
import Foreman.Proofs.Workshop.Records
import Foreman.Proofs.Workshop.Registry
import Foreman.Proofs.Workshop.Replay
import Foreman.Proofs.Workshop.Snapshot
import Foreman.Proofs.Workshop.StrategyNames
import Foreman.Session
