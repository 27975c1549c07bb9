import PathVector.Address
import PathVector.Aggregate
import PathVector.BestPath
import PathVector.Binary64
import PathVector.CommandLine
import PathVector.Config
import PathVector.Database
import PathVector.Decimal
import PathVector.Dispatcher
import PathVector.Error
import PathVector.Event
import PathVector.Exchange
import PathVector.Forms
import PathVector.Integer64
import PathVector.Json.Basic
import PathVector.Json.Fault
import PathVector.Json.Form
import PathVector.Json.Reader
import PathVector.Json.Record
import PathVector.Json.Skip
import PathVector.Launch
import PathVector.Main
import PathVector.Mask
import PathVector.Message
import PathVector.Network
import PathVector.Relationship
import PathVector.Route
import PathVector.Router
import PathVector.Shortest
import PathVector.Table
import PathVector.Text.Hidden
import PathVector.Text.Plain
import PathVector.Text.Quoted
import PathVector.Text.Similarity
import PathVector.Utf8
import PathVector.Proofs.Table
import PathVector.Proofs.Withdrawal
import PathVector.Proofs.Removal
import PathVector.Proofs.Handlers
import PathVector.Proofs.Run
import PathVector.Proofs.Failure
import PathVector.Proofs.History
import PathVector.Proofs.Survival
import PathVector.Proofs.Block
import PathVector.Proofs.Merge
import PathVector.Proofs.Worklist
import PathVector.Proofs.Snapshot
import PathVector.Proofs.Grouping
import PathVector.Proofs.Account
import PathVector.Proofs.Tree
import PathVector.Proofs.Utf8
import PathVector.Proofs.Decimal
import PathVector.Proofs.Token
import PathVector.Proofs.Value
import PathVector.Proofs.Yield
import PathVector.Proofs.Form
import PathVector.Proofs.Record
import PathVector.Proofs.Address
import PathVector.Proofs.Payload
import PathVector.Proofs.Codec
import PathVector.Proofs.Export
import PathVector.Proofs.Links
import PathVector.Proofs.Preference
import PathVector.Proofs.Transit
import PathVector.Proofs.Dispatch
import PathVector.Proofs.Schedule
import PathVector.Proofs.Relay
import PathVector.Proofs.Interleaving
import PathVector.Proofs.Agreement
import PathVector.Proofs.Downstream
import PathVector.Proofs.Internet
import PathVector.Proofs.Valley
import PathVector.Proofs.Flood
import PathVector.Proofs.Outage
import PathVector.Proofs.Settled
import PathVector.Proofs.Fixpoint
import PathVector.Proofs.Tally
import PathVector.Proofs.Stability
import PathVector.Proofs.Startup
import PathVector.Proofs.NeighborToken
import PathVector.Proofs.Source
import PathVector.Proofs.Lexeme
import PathVector.Proofs.Layout
import PathVector.Proofs.Reading
import PathVector.Proofs.Members
import PathVector.Proofs.Alike
import PathVector.Proofs.Variation
import PathVector.Proofs.Masking
import PathVector.Proofs.Ordering
import PathVector.Proofs.Loops
