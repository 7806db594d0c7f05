import ProtoBuild.Main
import ProtoBuild.Rehearsal
import ProtoBuild.MemoryMachine
import ProtoBuild.Value.Change
import ProtoBuild.Value.Json.Reader
import ProtoBuild.Proofs.Registry.Changes
import ProtoBuild.Proofs.Registry.Agreement
import ProtoBuild.Proofs.Pipeline.Rules
import ProtoBuild.Proofs.Pipeline.Completion
import ProtoBuild.Proofs.Engine.Worker
import ProtoBuild.Proofs.Engine.Workshop
import ProtoBuild.Proofs.Engine.Settlement
import ProtoBuild.Proofs.Registry.Guard
import ProtoBuild.Proofs.Engine.SingleFlight
import ProtoBuild.Proofs.Pipeline.Order
import ProtoBuild.Proofs.Pipeline.Phases
import ProtoBuild.Proofs.Pipeline.Stages
import ProtoBuild.Proofs.Pipeline.Coherence
import ProtoBuild.Proofs.Registry.Finality
import ProtoBuild.Proofs.Engine.Endings
import ProtoBuild.Proofs.Pipeline.Accounts
import ProtoBuild.Proofs.Pipeline.Cancellation
import ProtoBuild.Proofs.Pipeline.Verdict
import ProtoBuild.Proofs.Registry.Listing
import ProtoBuild.Proofs.Engine.Alone
import ProtoBuild.Proofs.Document.RoundTrip
import ProtoBuild.Proofs.Registry.Independence
import ProtoBuild.Proofs.Pipeline.Phasewise
import ProtoBuild.Proofs.Console.Transcript
import ProtoBuild.Proofs.Pipeline.Printing
import ProtoBuild.Proofs.Pipeline.Unitwise
import ProtoBuild.Proofs.Pipeline.Announcements
import ProtoBuild.Proofs.Progress.Times
import ProtoBuild.Proofs.Pipeline.Timeline
import ProtoBuild.Proofs.Coordinates.Collisions
import ProtoBuild.Proofs.Coordinates.Ownership
import ProtoBuild.Proofs.Pipeline.Actions
import ProtoBuild.Proofs.Pipeline.Publishing
import ProtoBuild.Proofs.Pipeline.Attempts
import ProtoBuild.Proofs.Pipeline.Conclusion
import ProtoBuild.Proofs.Text.Lines
import ProtoBuild.Proofs.Tool.Output
import ProtoBuild.Proofs.Tool.Diagnostics
import ProtoBuild.Proofs.Tool.Checks
import ProtoBuild.Proofs.Path.Places
import ProtoBuild.Proofs.Path.Containment
import ProtoBuild.Proofs.Version.Branches
import ProtoBuild.Proofs.Pipeline.Reordering
import ProtoBuild.Proofs.Directory.Trees
import ProtoBuild.Proofs.Discovery.Units
import ProtoBuild.Proofs.Discovery.Searches
import ProtoBuild.Proofs.Pipeline.Observations
import ProtoBuild.Proofs.Version.Suffixes
import ProtoBuild.Proofs.Finding.Locations
import ProtoBuild.Proofs.Registry.Retention
import ProtoBuild.Proofs.Coordinates.Nesting
import ProtoBuild.Proofs.Phase.History
import ProtoBuild.Proofs.BuildUnit.History
import ProtoBuild.Proofs.Pipeline.Upkeep
import ProtoBuild.Proofs.Pipeline.Excerpts
import ProtoBuild.Proofs.Directory.Machines
