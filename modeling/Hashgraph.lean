import Hashgraph.Bytes.Hexadecimal
import Hashgraph.Bytes.LittleEndian
import Hashgraph.CommandLine.Execution
import Hashgraph.CommandLine.Help
import Hashgraph.CommandLine.Options
import Hashgraph.CommandLine.Rehearsal
import Hashgraph.CommandLine.Request
import Hashgraph.CommandLine.Terminal
import Hashgraph.Config.Basic
import Hashgraph.Config.Reading
import Hashgraph.Config.Writing
import Hashgraph.Digest.Blake3
import Hashgraph.Digest.Compression
import Hashgraph.Digest.Folding
import Hashgraph.Digest.Mixing
import Hashgraph.Event.Basic
import Hashgraph.Event.Describe
import Hashgraph.Event.Draft
import Hashgraph.Event.Generation
import Hashgraph.Event.Identity
import Hashgraph.Event.Wire
import Hashgraph.Exchange.Fault
import Hashgraph.Exchange.Phase
import Hashgraph.Exchange.Phases
import Hashgraph.Exchange.Run
import Hashgraph.Exchange.Session
import Hashgraph.Files.Path
import Hashgraph.Files.Tree
import Hashgraph.Graph.Ancestry
import Hashgraph.Graph.Basic
import Hashgraph.Graph.Descendants
import Hashgraph.Graph.Shadow
import Hashgraph.Graph.SlotTable
import Hashgraph.History.Synthetic
import Hashgraph.Main
import Hashgraph.Network.Basic
import Hashgraph.Network.Report
import Hashgraph.Network.Settle
import Hashgraph.Network.Simulation
import Hashgraph.Node.Basic
import Hashgraph.Node.Creation
import Hashgraph.Node.Gossip
import Hashgraph.Node.Retention
import Hashgraph.Proofs.Event.Commitment
import Hashgraph.Proofs.Event.Decoding
import Hashgraph.Proofs.Event.History
import Hashgraph.Proofs.Event.RoundTrip
import Hashgraph.Proofs.Exchange.Briefing
import Hashgraph.Proofs.Exchange.Dialogue
import Hashgraph.Proofs.Exchange.Minimality
import Hashgraph.Proofs.Exchange.Phases
import Hashgraph.Proofs.Exchange.Protocol
import Hashgraph.Proofs.Exchange.Pursuit
import Hashgraph.Proofs.Exchange.Run
import Hashgraph.Proofs.Exchange.Session
import Hashgraph.Proofs.Exchange.Walk
import Hashgraph.Proofs.Graph.Descendants
import Hashgraph.Proofs.Graph.Links
import Hashgraph.Proofs.Graph.Pruning
import Hashgraph.Proofs.Node.Convergence
import Hashgraph.Proofs.Replica.Coherence
import Hashgraph.Proofs.Replica.Consistency
import Hashgraph.Proofs.Replica.Coverage
import Hashgraph.Proofs.Replica.Delivery
import Hashgraph.Proofs.Replica.Intake
import Hashgraph.Proofs.Replica.Run
import Hashgraph.Proofs.Replica.Sweep
import Hashgraph.Random.Stream
import Hashgraph.Random.Uniform
import Hashgraph.Replica.Consistency
import Hashgraph.Replica.Expiration
import Hashgraph.Replica.Intake
import Hashgraph.Text.CodeRanges
import Hashgraph.Text.DefaultIgnorable
import Hashgraph.Text.GraphemeExtend
import Hashgraph.Text.Json
import Hashgraph.Text.Quoted
import Hashgraph.Text.Record
import Hashgraph.Text.Unprintable
import Hashgraph.Toml.Digits
import Hashgraph.Toml.Document
import Hashgraph.Toml.Moment
import Hashgraph.Toml.Number
import Hashgraph.Toml.Quotation
import Hashgraph.Toml.Scanner
import Hashgraph.Toml.Table
import Hashgraph.Toml.Value
import Hashgraph.Toml.Writing
import Hashgraph.Proofs.Graph.Termination
import Hashgraph.Proofs.Replica.Filter
import Hashgraph.Proofs.Replica.Order
import Hashgraph.Proofs.Replica.Rewind
import Hashgraph.Proofs.Replica.Signals
import Hashgraph.Proofs.Replica.Discord
import Hashgraph.Proofs.Network.Agreement
import Hashgraph.Proofs.Replica.Commutation
import Hashgraph.Proofs.Node.Operations
import Hashgraph.Proofs.Replica.Confluence
import Hashgraph.Proofs.Network.Run
import Hashgraph.Proofs.Network.Flooding
import Hashgraph.Proofs.Network.Settlement
import Hashgraph.Proofs.Network.Lineage
import Hashgraph.Proofs.Node.Batch
import Hashgraph.Proofs.Network.Progress
import Hashgraph.Proofs.Exchange.Encounter
import Hashgraph.Proofs.Exchange.Expiry
import Hashgraph.Proofs.Exchange.SendList
import Hashgraph.Proofs.Exchange.Forgetting
import Hashgraph.Proofs.Exchange.Omission
import Hashgraph.Proofs.Graph.Acyclicity
import Hashgraph.Proofs.Graph.Traversal
import Hashgraph.Proofs.Replica.Validity
import Hashgraph.Proofs.Exchange.Reception
import Hashgraph.Proofs.Exchange.Totality
import Hashgraph.Proofs.Node.Ledger
import Hashgraph.Proofs.Network.Ledger
import Hashgraph.Proofs.Graph.Reversal
import Hashgraph.Proofs.Event.Building
import Hashgraph.Proofs.Network.Grounding
import Hashgraph.Proofs.Network.Retention
import Hashgraph.Proofs.Network.Creation
import Hashgraph.Proofs.Event.Hexadecimal
import Hashgraph.Proofs.Graph.Chain
import Hashgraph.Proofs.History.Chronicle
import Hashgraph.Proofs.History.Admission
